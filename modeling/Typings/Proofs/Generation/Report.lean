import Mathlib
import Typings.Proofs.Declaration.Tokens
import Typings.Proofs.Generation.Course

/-!
# What a report says

A report counts what was fetched and says whether the file holds the formatter's output or the
declarations as they were printed, and the file holds just that. No failure of the formatter short
of a crash ends a run.
-/

namespace Typings

/-! ## How the formatter's process can end -/

namespace ProgramEnd

/-- The process succeeds and writes a text that is not all blank. -/
def Delivers (ending : ProgramEnd) (output : String) : Prop :=
  (∃ complaint, ending = .exited 0 output complaint) ∧ ∃ c ∈ output.toList, Text.isBlank c = false

/-- The process gives no text, and does not crash. -/
inductive Fails : ProgramEnd → Prop
  | notFound : Fails (.failed .notFound)
  | timedOut : Fails (.failed .timedOut)
  | refused (text : String) : Fails (.failed (.refused text))
  | notText (text : String) : Fails (.failed (.notText text))
  | complained {code : Int} (h : code ≠ 0) (output complaint : String) : Fails (.exited code output complaint)
  | blank {output : String} (h : ∀ c ∈ output.toList, Text.isBlank c = true) (complaint : String) :
      Fails (.exited 0 output complaint)

end ProgramEnd

theorem Formatter.judge_cases (command args : List String) (ending : ProgramEnd) :
    (∃ output, ending.Delivers output ∧ judge command args ending = .text output) ∨
      (ending.Fails ∧ ∃ fault, judge command args ending = .fault fault) ∨
      ∃ crash, ending = .failed (.crashed crash) ∧ judge command args ending = .crashed crash := by
  cases ending with
  | failed failure =>
    cases failure with
    | notFound => exact Or.inr (Or.inl ⟨.notFound, _, rfl⟩)
    | timedOut => exact Or.inr (Or.inl ⟨.timedOut, _, rfl⟩)
    | refused text => exact Or.inr (Or.inl ⟨.refused text, _, rfl⟩)
    | notText text => exact Or.inr (Or.inl ⟨.notText text, _, rfl⟩)
    | crashed crash => exact Or.inr (Or.inr ⟨crash, rfl, rfl⟩)
  | exited code output complaint =>
    by_cases hcode : code = 0
    · subst hcode
      by_cases hblank : Text.allBlank output = true
      · refine Or.inr (Or.inl ⟨.blank (List.all_eq_true.mp hblank) complaint, .noOutput args, ?_⟩)
        simp [judge, hblank]
      · refine Or.inl ⟨output, ⟨⟨complaint, rfl⟩, ?_⟩, by simp [judge, hblank]⟩
        simpa [Text.allBlank] using hblank
    · refine Or.inr (Or.inl ⟨.complained hcode output complaint, .complained args complaint, ?_⟩)
      simp [judge, hcode]

namespace Generation

theorem prepare_unwanted (formatter : Formatter) (p : Path) (raw : String) :
    prepare false formatter p raw = (.ok ⟨raw, false, none⟩, []) := rfl

theorem prepare_usual (program : Program) (p : Path) (raw : String) :
    ∃ result call, prepare true (Formatter.usual program) p raw = (result, [call]) ∧ call.input = raw ∧
      ((∃ output, (program raw).Delivers output ∧ result = .ok ⟨output, true, none⟩) ∨
        ((program raw).Fails ∧ ∃ fault, result = .ok ⟨raw, false, some fault⟩) ∨
        ∃ crash, program raw = .failed (.crashed crash) ∧ result = .error crash) := by
  simp only [prepare, if_true, Formatter.usual, Formatter.running]
  rcases Formatter.judge_cases Formatter.defaultCommand (Formatter.arguments Formatter.defaultCommand p)
      (program raw) with ⟨output, hdelivers, hjudge⟩ | ⟨hfails, fault, hjudge⟩ | ⟨crash, hcrash, hjudge⟩
  · exact ⟨_, _, by rw [hjudge], rfl, Or.inl ⟨output, hdelivers, rfl⟩⟩
  · exact ⟨_, _, by rw [hjudge], rfl, Or.inr (Or.inl ⟨hfails, fault, rfl⟩)⟩
  · exact ⟨_, _, by rw [hjudge], rfl, Or.inr (Or.inr ⟨crash, hcrash, rfl⟩)⟩

theorem prepare_usual_eq_ok_iff (wanted : Bool) (program : Program) (p : Path) (raw : String) :
    (∃ prepared, (prepare wanted (Formatter.usual program) p raw).1 = .ok prepared) ↔
      (wanted = true → ∀ crash, program raw ≠ .failed (.crashed crash)) := by
  cases wanted with
  | false => simp [prepare_unwanted]
  | true =>
    obtain ⟨result, call, husual, -, hcases⟩ := prepare_usual program p raw
    simp only [husual, forall_const]
    rcases hcases with ⟨output, hdelivers, rfl⟩ | ⟨hfails, fault, rfl⟩ | ⟨crash, hcrash, rfl⟩
    · obtain ⟨⟨complaint, hends⟩, -⟩ := hdelivers
      simp [hends]
    · refine iff_of_true ⟨_, rfl⟩ fun crash hcrash => ?_
      rw [hcrash] at hfails
      cases hfails
    · simp [hcrash]

section

variable [LoneSurrogates] {session : Session} {s : Settings} {t : WorkTree} {replies : List Reply}

/-- What a run did with the printed text, and what its report says of it. -/
inductive Treated (s : Settings) (program : Program) (raw : String) (run : Generation) (report : Report) : Prop
  | unformatted (wanted : s.formatOutput.holds = false) (calls : run.calls = [])
      (flag : report.formatted = false) (fault : report.formatFault = none)
      (file : run.tree.read s.outFile = .ok raw.toUTF8)
  | formatted {output : String} (wanted : s.formatOutput.holds = true)
      (calls : ∃ call, run.calls = [call] ∧ call.input = raw) (delivers : (program raw).Delivers output)
      (flag : report.formatted = true) (fault : report.formatFault = none)
      (file : run.tree.read s.outFile = .ok output.toUTF8)
  | fallback (wanted : s.formatOutput.holds = true) (calls : ∃ call, run.calls = [call] ∧ call.input = raw)
      (fails : (program raw).Fails) (flag : report.formatted = false)
      (fault : report.formatFault ≠ none) (file : run.tree.read s.outFile = .ok raw.toUTF8)

theorem treated_of_written {program : Program} {cts : List ContentType} {p : Prepared} {calls : List ProgramCall}
    {after : WorkTree}
    (hprepare : prepare s.formatOutput.holds (Formatter.usual program) s.outFile (s.printed cts) = (.ok p, calls))
    (hwrite : t.writeText s.outFile p.text = (after, none)) (count : Nat) (requests : List Request)
    (sessions : List Session) (left : List Reply) :
    Treated s program (s.printed cts)
      ⟨.ok ⟨count, s.outFile, p.formatted, p.fault⟩, requests, sessions, calls, after, left⟩
      ⟨count, s.outFile, p.formatted, p.fault⟩ := by
  have hread := (WorkTree.writesFile_of_writeText hwrite).read_eq
  cases hwanted : s.formatOutput.holds with
  | false =>
    rw [hwanted, prepare_unwanted] at hprepare
    cases hprepare
    exact .unformatted hwanted rfl rfl rfl hread
  | true =>
    obtain ⟨result, call, husual, hinput, hcases⟩ := prepare_usual program s.outFile (s.printed cts)
    rw [hwanted, husual] at hprepare
    cases hprepare
    rcases hcases with ⟨output, hdelivers, hresult⟩ | ⟨hfails, fault, hresult⟩ | ⟨crash, -, hresult⟩
    · cases hresult
      exact .formatted hwanted ⟨call, rfl, hinput⟩ hdelivers rfl rfl hread
    · cases hresult
      exact .fallback hwanted ⟨call, rfl, hinput⟩ hfails rfl nofun hread
    · cases hresult

theorem Course.report {program : Program} {run : Generation}
    (h : Course session s (Formatter.usual program) t replies run) {report : Report}
    (hreport : run.outcome = .ok report) :
    ∃ sheets, List.Forall₂ Reply.Bears (replies.take run.requests.length) sheets ∧
      report.count = (sheets.flatMap Sheet.contentTypes).length ∧ report.outFile = s.outFile ∧
      Treated s program (s.printed (sheets.flatMap Sheet.contentTypes)) run report := by
  cases h with
  | unfetched fetched => cases hreport
  | crashed fetched prepared => cases hreport
  | unwritten fetched prepared written => cases hreport
  | done fetched prepared written =>
    cases hreport
    obtain ⟨sheets, hsheets, hcts⟩ := Client.exists_sheets_of_readFrom_eq_ok _ _ fetched
    rw [List.nil_append] at hcts
    subst hcts
    exact ⟨sheets, hsheets, rfl, rfl, treated_of_written prepared written _ _ _ _⟩

theorem Course.outcome_eq_ok_iff {program : Program} {run : Generation}
    (h : Course session s (Formatter.usual program) t replies run) :
    (∃ report, run.outcome = .ok report) ↔
      (∃ cts, (s.fetch replies).result = .ok cts ∧
        (s.formatOutput.holds = true → ∀ crash, program (s.printed cts) ≠ .failed (.crashed crash)) ∧
        ∀ text, s.Writes (Formatter.usual program) (s.printed cts) text → Text.IsUnicode text) ∧
      ∀ content, (t.writeInto s.outFile content).2 = none := by
  have hprepares (cts : List ContentType) :=
    prepare_usual_eq_ok_iff s.formatOutput.holds program s.outFile (s.printed cts)
  cases h with
  | unfetched fetched =>
    rw [fetched]
    constructor
    · rintro ⟨report, hreport⟩
      cases hreport
    · rintro ⟨⟨cts, hfetched, -⟩, -⟩
      cases hfetched
  | crashed fetched prepared =>
    rw [fetched]
    constructor
    · rintro ⟨report, hreport⟩
      cases hreport
    · rintro ⟨⟨cts, hfetched, hruns, -⟩, -⟩
      cases hfetched
      obtain ⟨p, hp⟩ := (hprepares _).mpr hruns
      rw [prepared] at hp
      cases hp
  | @unwritten cts p calls after fault fetched prepared written =>
    constructor
    · rintro ⟨report, hreport⟩
      cases hreport
    · rintro ⟨⟨cts', hfetched, -, htexts⟩, hwrites⟩
      cases hfetched.symm.trans fetched
      have hunicode := htexts p.text (writes_iff.mpr ⟨p, calls, prepared, rfl⟩)
      rw [WorkTree.writeText_of_isUnicode hunicode, hwrites] at written
      cases written
  | done fetched prepared written =>
    have hruns := (hprepares _).mp ⟨_, congrArg Prod.fst prepared⟩
    obtain ⟨hunicode, hwrite⟩ := WorkTree.writeText_eq_none_iff.mp written
    refine iff_of_true ⟨_, rfl⟩ ⟨⟨_, fetched, hruns, fun text htext => ?_⟩, fun content => ?_⟩
    · obtain ⟨p', calls', prepared', rfl⟩ := writes_iff.mp htext
      cases prepared.symm.trans prepared'
      exact hunicode
    · -- Which bytes are written makes no difference to whether they can be.
      rw [t.writeInto_snd_eq s.outFile content, hwrite]

/-- A run with the usual formatter. Its report counts the content types on the pages that were
fetched, and tells what became of the text printed for them. There is a report if, and only if, the
fetch succeeds, the formatter, if it is wanted, does not crash, and the file can be written. -/
theorem over_usual (session : Session) (s : Settings) (program : Program) (t : WorkTree) (replies : List Reply) :
    let run := Generation.over session s (Formatter.usual program) t replies
    (∀ report, run.outcome = .ok report → ∃ sheets,
      List.Forall₂ Reply.Bears (replies.take run.requests.length) sheets ∧
      report.count = (sheets.flatMap Sheet.contentTypes).length ∧ report.outFile = s.outFile ∧
      Treated s program (s.printed (sheets.flatMap Sheet.contentTypes)) run report) ∧
    ((∃ report, run.outcome = .ok report) ↔
      (∃ cts, (s.fetch replies).result = .ok cts ∧
        (s.formatOutput.holds = true → ∀ crash, program (s.printed cts) ≠ .failed (.crashed crash)) ∧
        ∀ text, s.Writes (Formatter.usual program) (s.printed cts) text → Text.IsUnicode text) ∧
      ∀ content, (t.writeInto s.outFile content).2 = none) := by
  have hcourse := course_over session s (Formatter.usual program) t replies
  exact ⟨fun report => hcourse.report, hcourse.outcome_eq_ok_iff⟩

end

/-! ## A description with half a character -/

theorem mem_intercalate {c separator : Char} {line : List Char} {lines : List (List Char)} (hline : line ∈ lines)
    (hc : c ∈ line) : c ∈ [separator].intercalate lines := by
  induction lines with
  | nil => cases hline
  | cons first rest ih =>
    cases rest with
    | nil =>
      rw [List.intercalate_singleton]
      exact List.mem_singleton.mp hline ▸ hc
    | cons second rest =>
      rw [List.intercalate_cons_cons]
      rcases List.mem_cons.mp hline with rfl | hline
      · simp [hc]
      · simp [ih hline]

theorem mem_printed {s : Settings} {cts : List ContentType} {ct : ContentType} {d : String} {c : Char}
    (hct : ct ∈ cts) (hd : ct.description = some d) (hc : c ∈ d.toList) : c ∈ (s.printed cts).toList := by
  have hne : d ≠ "" := by
    rintro rfl
    simp at hc
  have hcomment : c ∈ (docComment 0 d).toList := by
    rw [docComment, if_neg hne]
    simp [commentText, mem_commentChars hc]
  have hrender : c ∈ (ct.render (cts.map ContentType.id) s.renderOptions).toList := by
    rw [ContentType.render, ContentType.fieldsInterface, hd]
    simp [hcomment]
  rw [Settings.printed, declarationFile]
  simp only [String.toList_append, List.mem_append, String.toList_intercalate]
  exact Or.inr (mem_intercalate (List.mem_map_of_mem (List.mem_map_of_mem hct)) hrender)

def halfCharacter : String := String.singleton (LoneSurrogates.standIn 0xd800)

def halvedType : ContentType := ⟨⟨"a", "ContentType"⟩, "", some halfCharacter, []⟩

def halvedSheet : Sheet :=
  ⟨[.object [("sys", .object [("id", .text "a")]), ("description", .text halfCharacter)]], [halvedType], some (.int 1)⟩

def halvedReply : Reply :=
  .answered 200 (some "OK")
    "\x7b\"items\":[\x7b\"sys\":\x7b\"id\":\"a\"\x7d,\"description\":\"\\ud800\"\x7d],\"total\":1\x7d"

theorem bears_halved : halvedReply.Bears halvedSheet := by
  have hbody : Reply.bodyData?
      "\x7b\"items\":[\x7b\"sys\":\x7b\"id\":\"a\"\x7d,\"description\":\"\\ud800\"\x7d],\"total\":1\x7d" =
        some (.object [("items", .list halvedSheet.items), ("total", .int 1)]) := by
    cbv
  exact .page rfl hbody rfl rfl rfl

theorem fetch_halved (s : Settings) : (s.fetch [halvedReply]).result = .ok [halvedType] := by
  have hlast : ¬ halvedSheet.GoesOn (0 + halvedSheet.items.length) := by
    rintro ⟨-, _, n, htotal, hcounts, hlt⟩
    cases htotal
    cases hcounts
    exact absurd hlt (by decide)
  rw [Settings.fetch, Client.fetch, Client.readFrom_last _ _ bears_halved 0 hlast]
  rfl

def unformatted : Settings := { Settings.plain with formatOutput := .bool false }

theorem not_isUnicode_halved (s : Settings) : ¬ Text.IsUnicode (s.printed [halvedType]) := by
  intro h
  have hmem : LoneSurrogates.standIn 0xd800 ∈ (s.printed [halvedType]).toList :=
    mem_printed (List.mem_singleton_self _) rfl (List.mem_singleton_self _)
  exact absurd (h _ hmem 0xd800 (LoneSurrogates.lone?_standIn rfl)) Bool.false_ne_true

theorem over_usual_three_halved :
    let run := Generation.over ⟨"t", 1⟩ .plain (Formatter.usual fun _ => .exited 0 "done" "") .empty
      [Reply.firstOfThree, Reply.lastOfThree]
    (∃ report, run.outcome = .ok report ∧ report.formatted = true ∧ report.formatFault = none) ∧
      run.tree.read Settings.plain.outFile = .ok "done".toUTF8 ∧
      ¬ ∃ report, (Generation.over ⟨"t", 1⟩ unformatted (Formatter.usual fun _ => .failed .notFound) .empty
        [halvedReply]).outcome = .ok report := by
  intro run
  obtain ⟨htells, hends⟩ := over_usual ⟨"t", 1⟩ .plain (fun _ => .exited 0 "done" "") .empty
    [Reply.firstOfThree, Reply.lastOfThree]
  obtain ⟨report, hreport⟩ := hends.mpr
    ⟨⟨_, Settings.fetch_plain, fun _ crash => nofun, fun _ htext => Settings.eq_done_of_writes htext ▸ isUnicode_done⟩,
      Settings.writeInto_plain⟩
  have hhalved : ¬ ∃ report, (Generation.over ⟨"t", 1⟩ unformatted (Formatter.usual fun _ => .failed .notFound) .empty
      [halvedReply]).outcome = .ok report := by
    obtain ⟨-, hends⟩ := over_usual ⟨"t", 1⟩ unformatted (fun _ => .failed .notFound) .empty [halvedReply]
    rw [hends]
    rintro ⟨⟨cts, hfetched, -, htexts⟩, -⟩
    obtain rfl := Except.ok.inj (hfetched.symm.trans (fetch_halved _))
    exact not_isUnicode_halved _ (htexts _ (.unformatted rfl))
  obtain ⟨sheets, -, -, -, htreated⟩ := htells report hreport
  cases htreated with
  | unformatted wanted => cases wanted
  | formatted wanted calls delivers flag fault file =>
    obtain ⟨⟨complaint, hends⟩, -⟩ := delivers
    cases hends
    exact ⟨⟨report, hreport, flag, fault⟩, file, hhalved⟩
  | fallback wanted calls fails =>
    cases fails with
    | complained h => exact absurd rfl h
    | blank h => exact absurd (h 'd' (by decide)) (by decide)

end Generation

end Typings
