import Typings.Proofs.CommandLine.Arguments
import Typings.Proofs.Generation.Frame
import Typings.Proofs.Generation.Report

/-!
# What an exit status says

A run that its arguments do not stop ends with status 0 or 1. Status 0 says that the output file has
been written, and then the output tells what it holds; status 1 says that no file has been touched,
and then the complaints tell why. There is no third way for it to end.
-/

namespace Typings

/-! ## What is written -/

/-- The line about the formatter, if it failed. -/
def FormatFault.warning : Option FormatFault → String
  | some fault => "Warning: output was not formatted: " ++ fault.message ++ "\n"
  | none => ""

namespace Generation

/-- What there is to print about the formatter, and the text to write. -/
inductive Outputs (s : Settings) (program : Program) (raw : String) : String → String → Prop
  | unformatted (wanted : s.formatOutput.holds = false) : Outputs s program raw "" raw
  | formatted {output : String} (wanted : s.formatOutput.holds = true)
      (delivers : (program raw).Delivers output) : Outputs s program raw "" output
  | fallback {fault : FormatFault} (wanted : s.formatOutput.holds = true) (fails : (program raw).Fails)
      (reason : Formatter.judge Formatter.defaultCommand
        (Formatter.arguments Formatter.defaultCommand s.outFile) (program raw) = .fault fault) :
      Outputs s program raw ("Warning: output was not formatted: " ++ fault.message ++ "\n") raw

variable {s : Settings} {program : Program} {raw warning text : String}

theorem Outputs.unique {warning' text' : String} (h : Outputs s program raw warning text)
    (h' : Outputs s program raw warning' text') : warning = warning' ∧ text = text' := by
  have hfails {output : String} (hdelivers : (program raw).Delivers output) : ¬ (program raw).Fails := by
    obtain ⟨⟨complaint, hends⟩, c, hc, hblank⟩ := hdelivers
    rw [hends]
    rintro (_ | _ | _ | _ | ⟨hcode, -, -⟩ | ⟨hall, -⟩)
    · exact hcode rfl
    · rw [hall c hc] at hblank
      cases hblank
  cases h with
  | unformatted wanted =>
    cases h' with
    | unformatted => exact ⟨rfl, rfl⟩
    | formatted wanted' | fallback wanted' => cases wanted.symm.trans wanted'
  | formatted wanted delivers =>
    cases h' with
    | unformatted wanted' => cases wanted.symm.trans wanted'
    | formatted _ delivers' =>
      obtain ⟨⟨complaint, hends⟩, -⟩ := delivers
      obtain ⟨⟨complaint', hends'⟩, -⟩ := delivers'
      cases hends.symm.trans hends'
      exact ⟨rfl, rfl⟩
    | fallback _ fails => exact absurd fails (hfails delivers)
  | fallback wanted fails reason =>
    cases h' with
    | unformatted wanted' => cases wanted.symm.trans wanted'
    | formatted _ delivers => exact absurd fails (hfails delivers)
    | fallback _ _ reason' =>
      cases reason.symm.trans reason'
      exact ⟨rfl, rfl⟩

theorem Outputs.not_crashed (h : Outputs s program raw warning text) (hwanted : s.formatOutput.holds = true)
    (crash : Crash) : program raw ≠ .failed (.crashed crash) := by
  intro hcrash
  cases h with
  | unformatted wanted => cases wanted.symm.trans hwanted
  | formatted _ delivers =>
    obtain ⟨⟨complaint, hends⟩, -⟩ := delivers
    cases hends.symm.trans hcrash
  | fallback _ fails =>
    rw [hcrash] at fails
    cases fails

theorem prepare_usual_eq (program : Program) (p : Path) (raw : String) :
    prepare true (Formatter.usual program) p raw =
      (match Formatter.judge Formatter.defaultCommand (Formatter.arguments Formatter.defaultCommand p)
          (program raw) with
        | .text text => .ok ⟨text, true, none⟩
        | .fault fault => .ok ⟨raw, false, some fault⟩
        | .crashed crash => .error crash,
      [⟨Formatter.arguments Formatter.defaultCommand p, raw, Formatter.defaultTimeout⟩]) := by
  simp only [prepare, if_true, Formatter.usual, Formatter.running]
  cases Formatter.judge Formatter.defaultCommand (Formatter.arguments Formatter.defaultCommand p)
    (program raw) <;> rfl

theorem prepare_usual_cases (s : Settings) (program : Program) (raw : String) :
    (∃ p calls, prepare s.formatOutput.holds (Formatter.usual program) s.outFile raw = (.ok p, calls) ∧
      Outputs s program raw (FormatFault.warning p.fault) p.text) ∨
      ∃ crash, s.formatOutput.holds = true ∧ program raw = .failed (.crashed crash) := by
  cases hwanted : s.formatOutput.holds with
  | false => exact Or.inl ⟨_, _, prepare_unwanted _ _ _, .unformatted hwanted⟩
  | true =>
    rcases Formatter.judge_cases Formatter.defaultCommand
        (Formatter.arguments Formatter.defaultCommand s.outFile) (program raw) with
      ⟨output, hdelivers, hjudge⟩ | ⟨hfails, fault, hjudge⟩ | ⟨crash, hcrash, -⟩
    · exact Or.inl ⟨⟨output, true, none⟩, _, by rw [prepare_usual_eq, hjudge], .formatted hwanted hdelivers⟩
    · exact Or.inl ⟨⟨raw, false, some fault⟩, _, by rw [prepare_usual_eq, hjudge],
        .fallback hwanted hfails hjudge⟩
    · exact Or.inr ⟨crash, rfl, hcrash⟩

theorem exists_outputs_of_writes (h : s.Writes (Formatter.usual program) raw text) :
    ∃ warning, Outputs s program raw warning text := by
  obtain ⟨p, calls, hprepare, rfl⟩ := writes_iff.mp h
  rcases prepare_usual_cases s program raw with ⟨p', calls', hprepare', houtputs⟩ | ⟨crash, hwanted, hcrash⟩
  · cases hprepare.symm.trans hprepare'
    exact ⟨_, houtputs⟩
  · obtain hruns := (prepare_usual_eq_ok_iff _ program s.outFile raw).mp ⟨p, congrArg Prod.fst hprepare⟩
    exact absurd hcrash (hruns hwanted crash)

theorem prepare_of_outputs (h : Outputs s program raw warning text) :
    ∃ p calls, prepare s.formatOutput.holds (Formatter.usual program) s.outFile raw = (.ok p, calls) ∧
      warning = FormatFault.warning p.fault ∧ text = p.text := by
  rcases prepare_usual_cases s program raw with ⟨p, calls, hprepare, houtputs⟩ | ⟨crash, hwanted, hcrash⟩
  · exact ⟨p, calls, hprepare, h.unique houtputs⟩
  · exact absurd hcrash (h.not_crashed hwanted crash)

end Generation

namespace CommandLine

/-! ## How a run ends -/

section

variable [LoneSurrogates]

/-- What the requests of a run get. -/
def World.received (w : World) (s : Settings) : List Reply := s.session.receives w.check w.replies

/-- The run is configured, fetches the content types, and writes the text made of them. -/
structure World.Completes (w : World) (env : Environment) (a : Arguments) (program : Program)
    (after : WorkTree) (s : Settings) (cts : List ContentType) (warning text : String) : Prop where
  configured : w.settings env a = .ok s
  fetched : (s.fetch (w.received s)).result = .ok cts
  made : Generation.Outputs s program (s.printed cts) warning text
  written : w.tree.writeText s.outFile text = (after, none)

/-- The configuration, the fetch, the formatter, or the writing fails. -/
inductive World.Fails (w : World) (env : Environment) (a : Arguments) (program : Program) : Prop
  | unset {message : String} (misconfigured : w.settings env a = .error (.reported message))
  | unfetched {s : Settings} {fault : FetchFault} (configured : w.settings env a = .ok s)
      (unfetched : (s.fetch (w.received s)).result = .error fault)
  | crashed {s : Settings} {cts : List ContentType} {crash : Crash}
      (configured : w.settings env a = .ok s) (fetched : (s.fetch (w.received s)).result = .ok cts)
      (wanted : s.formatOutput.holds = true) (crashed : program (s.printed cts) = .failed (.crashed crash))
  | unwritten {s : Settings} {cts : List ContentType} {warning text : String} {after : WorkTree}
      {fault : WorkTree.WriteFault} (configured : w.settings env a = .ok s)
      (fetched : (s.fetch (w.received s)).result = .ok cts)
      (made : Generation.Outputs s program (s.printed cts) warning text)
      (unwritten : w.tree.writeText s.outFile text = (after, some fault))

/-- Every text that the run can come to write has bytes. -/
def World.WritesUnicode (w : World) (env : Environment) (a : Arguments) (program : Program) : Prop :=
  ∀ s cts warning text, w.settings env a = .ok s → (s.fetch (w.received s)).result = .ok cts →
    Generation.Outputs s program (s.printed cts) warning text → Text.IsUnicode text

variable {w : World} {env : Environment} {a : Arguments} {program : Program}

theorem World.completes_or_fails
    (hsettings : (∃ s, w.settings env a = .ok s) ∨ ∃ message, w.settings env a = .error (.reported message)) :
    (∃ after s cts warning text, w.Completes env a program after s cts warning text) ∨ w.Fails env a program := by
  rcases hsettings with ⟨s, configured⟩ | ⟨message, misconfigured⟩
  · cases hfetch : (s.fetch (w.received s)).result with
    | error fault => exact Or.inr (.unfetched configured hfetch)
    | ok cts =>
      rcases Generation.prepare_usual_cases s program (s.printed cts) with
        ⟨p, calls, -, made⟩ | ⟨crash, wanted, crashed⟩
      · rcases hwrite : w.tree.writeText s.outFile p.text with ⟨after, _ | fault⟩
        · exact Or.inl ⟨after, s, cts, _, _, configured, hfetch, made, hwrite⟩
        · exact Or.inr (.unwritten configured hfetch made hwrite)
      · exact Or.inr (.crashed configured hfetch wanted crashed)
  · exact Or.inr (.unset misconfigured)

end

/-! ## What it prints -/

theorem lines_singleton (line : String) : lines [line] = line ++ "\n" := by
  simp [lines, String.join]

theorem successReport_eq (r : Report) :
    successReport r = FormatFault.warning r.formatFault ++
      ("Generated " ++ toString r.count ++ " type(s) -> " ++ r.outFile.text ++ "\n") := by
  rw [successReport, lines_singleton]
  cases r.formatFault with
  | none => rfl
  | some fault => exact congrArg (· ++ _) (lines_singleton _)

theorem exists_errorLine (message rest : String) : ∃ more, errorLine message ++ rest = "Error:" ++ more :=
  ⟨" " ++ message ++ "\n" ++ rest, by
    rw [errorLine, lines_singleton, show "Error: " = "Error:" ++ " " from rfl]
    simp only [String.append_assoc]⟩

theorem exists_faultReport (fault : GenerationFault) : ∃ more, faultReport fault = "Error:" ++ more := by
  cases fault <;> exact exists_errorLine _ _

section

variable [LoneSurrogates] {w : World} {env : Environment} {a : Arguments} {program : Program}

theorem execute_of_completes {after : WorkTree} {s : Settings} {cts : List ContentType} {warning text : String}
    (hformatter : w.formatter = Formatter.usual program)
    (h : w.Completes env a program after s cts warning text) :
    (w.execute env "" a).status = .ok 0 ∧ (w.execute env "" a).tree = after ∧
      (w.execute env "" a).output =
        warning ++ ("Generated " ++ toString cts.length ++ " type(s) -> " ++ s.outFile.text ++ "\n") ∧
      (w.execute env "" a).complaints = "" ∧
      (w.execute env "" a).requests = (s.fetch (w.received s)).requests := by
  obtain ⟨configured, fetched, made, written⟩ := h
  obtain ⟨p, calls, prepared, rfl, rfl⟩ := Generation.prepare_of_outputs made
  have hover : generate s (Formatter.usual program) w.tree w.replies w.check = _ :=
    Generation.over_eq_of_written fetched prepared written
  rw [World.execute, configured, hformatter]
  simp only [hover, ofGeneration, successReport_eq, String.append_empty, World.received, and_self]

theorem World.Fails.outcome {s : Settings} (h : w.Fails env a program) (configured : w.settings env a = .ok s) :
    ∃ fault, (generate s (Formatter.usual program) w.tree w.replies w.check).outcome = .error fault := by
  have hcourse := Generation.course_over s.session.close s (Formatter.usual program) w.tree (w.received s)
  cases houtcome : (generate s (Formatter.usual program) w.tree w.replies w.check).outcome with
  | error fault => exact ⟨fault, rfl⟩
  | ok report =>
    obtain ⟨cts, p, calls, hfetched, hprepared, hwritten, -⟩ := hcourse.tree_of_ok houtcome
    cases h with
    | unset misconfigured => cases configured.symm.trans misconfigured
    | unfetched configured' unfetched =>
      cases configured.symm.trans configured'
      cases hfetched.symm.trans unfetched
    | crashed configured' fetched wanted crashed =>
      cases configured.symm.trans configured'
      cases hfetched.symm.trans fetched
      have hruns := (Generation.prepare_usual_eq_ok_iff _ program s.outFile _).mp ⟨p, congrArg Prod.fst hprepared⟩
      exact absurd crashed (hruns wanted _)
    | unwritten configured' fetched made unwritten =>
      cases configured.symm.trans configured'
      cases hfetched.symm.trans fetched
      obtain ⟨p', calls', hprepared', -, rfl⟩ := Generation.prepare_of_outputs made
      cases hprepared.symm.trans hprepared'
      cases hwritten.symm.trans unwritten

/-- The way a run ends that has status 1: it says so, and leaves all files as they are, unless the text
for its own has no bytes. -/
structure Failed (t : WorkTree) (o : Outcome) (unicode : Prop) : Prop where
  status : o.status = .ok 1
  output : o.output = ""
  complaints : ∃ more, o.complaints = "Error:" ++ more
  files : unicode → ∀ place content,
    o.tree.node? place = some (.file content) ↔ t.node? place = some (.file content)

theorem failed_of_fault {s : Settings} {fault : GenerationFault} (hformatter : w.formatter = Formatter.usual program)
    (configured : w.settings env a = .ok s)
    (hfault : (generate s (Formatter.usual program) w.tree w.replies w.check).outcome = .error fault) :
    Failed w.tree (w.execute env "" a) (w.WritesUnicode env a program) := by
  have hcourse := Generation.course_over s.session.close s (Formatter.usual program) w.tree (w.received s)
  obtain ⟨more, hmore⟩ := exists_faultReport fault
  rw [World.execute, configured, hformatter]
  simp only [ofGeneration, hfault, hmore, String.empty_append]
  refine ⟨rfl, rfl, ⟨more, rfl⟩, fun hunicode place content => ?_⟩
  rcases hcourse.tree_of_error hfault with hadds | ⟨cts, text, hfetched, hwrites, hnot, -⟩
  · exact WorkTree.file_iff_of_same_or_newFolder (hadds.node place) content
  · obtain ⟨warning, made⟩ := Generation.exists_outputs_of_writes hwrites
    exact absurd (hunicode s cts warning text configured hfetched made) hnot

theorem World.Fails.failed (h : w.Fails env a program) (hformatter : w.formatter = Formatter.usual program) :
    Failed w.tree (w.execute env "" a) (w.WritesUnicode env a program) := by
  cases hsettings : w.settings env a with
  | ok s =>
    obtain ⟨fault, hfault⟩ := h.outcome hsettings
    exact failed_of_fault hformatter hsettings hfault
  | error setup =>
    cases h with
    | @unset message misconfigured =>
      obtain ⟨more, hmore⟩ := exists_errorLine message ""
      rw [String.append_empty, ← String.empty_append (s := errorLine message)] at hmore
      rw [World.execute, misconfigured]
      exact ⟨rfl, rfl, ⟨more, hmore⟩, fun _ place content => Iff.rfl⟩
    | unfetched configured | crashed configured | unwritten configured => cases configured.symm.trans hsettings

/-- A run that its command line does not stop, and whose environment file and project file can be
read, ends with status 0 or 1. It ends with 0 if, and only if, it has written its output file; then
it prints how many content types all pages hold and where the file is, after a warning if formatting
failed, and complains of nothing. It ends with 1 if, and only if, its settings, the fetch, the
formatter or the writing fails; then it prints nothing, complains of an error, and no file is made or
changed, provided that the texts it can come to write have bytes. -/
theorem run_status {words : List String} (hwords : Command.ofWords words = .ok (.run a))
    (henv : EnvFile.load w.tree w.environment = ⟨.ok env, []⟩)
    (hproject : ∀ crash, w.projectFile a.config ≠ .error (.crashed crash))
    (hformatter : w.formatter = Formatter.usual program) :
    let o := run words w
    (o.status = .ok 0 ∨ o.status = .ok 1) ∧
    (o.status = .ok 0 ↔ ∃ s cts warning text, w.Completes env a program o.tree s cts warning text) ∧
    (∀ s cts warning text, w.Completes env a program o.tree s cts warning text →
      w.tree.WritesFile o.tree s.outFile text.toUTF8 ∧
      (∃ sheets, List.Forall₂ Reply.Bears ((w.received s).take o.requests.length) sheets ∧
        cts = sheets.flatMap Sheet.contentTypes) ∧
      o.output = warning ++ ("Generated " ++ toString cts.length ++ " type(s) -> " ++ s.outFile.text ++ "\n") ∧
      o.complaints = "") ∧
    (o.status = .ok 1 ↔ w.Fails env a program) ∧
    (o.status = .ok 1 → o.output = "" ∧ (∃ more, o.complaints = "Error:" ++ more) ∧
      (w.WritesUnicode env a program → ∀ place content, o.tree.node? place = some (.file content) ↔
        w.tree.node? place = some (.file content))) := by
  have hrun : run words w = w.execute env "" a := by
    rw [run, hwords]
    simp only [World.perform, henv]
    rfl
  intro o
  have ho : o = w.execute env "" a := hrun
  have hends : (∃ after s cts warning text, w.Completes env a program after s cts warning text) ∨
      w.Fails env a program :=
    World.completes_or_fails (settings_cases (typed_of_ofWords hwords) hproject)
  have hfailed (h : w.Fails env a program) : Failed w.tree o (w.WritesUnicode env a program) :=
    ho ▸ h.failed hformatter
  have hcompleted {after : WorkTree} {s : Settings} {cts : List ContentType} {warning text : String}
      (h : w.Completes env a program after s cts warning text) := execute_of_completes hformatter h
  rw [← ho] at hcompleted
  have hzero (h : o.status = .ok 0) : ∃ s cts warning text, w.Completes env a program o.tree s cts warning text := by
    rcases hends with ⟨after, s, cts, warning, text, hcompletes⟩ | hfails
    · obtain ⟨-, rfl, -⟩ := hcompleted hcompletes
      exact ⟨s, cts, warning, text, hcompletes⟩
    · cases h.symm.trans (hfailed hfails).status
  have hone (h : o.status = .ok 1) : w.Fails env a program := by
    rcases hends with ⟨after, s, cts, warning, text, hcompletes⟩ | hfails
    · cases h.symm.trans (hcompleted hcompletes).1
    · exact hfails
  refine ⟨?_, ⟨hzero, fun ⟨s, cts, warning, text, h⟩ => (hcompleted h).1⟩, ?_, ⟨hone, fun h => (hfailed h).status⟩, ?_⟩
  · rcases hends with ⟨after, s, cts, warning, text, hcompletes⟩ | hfails
    · exact Or.inl (hcompleted hcompletes).1
    · exact Or.inr (hfailed hfails).status
  · intro s cts warning text hcompletes
    obtain ⟨-, -, houtput, hcomplaints, hrequests⟩ := hcompleted hcompletes
    refine ⟨WorkTree.writesFile_of_writeText hcompletes.written, ?_, houtput, hcomplaints⟩
    rw [hrequests]
    obtain ⟨sheets, hsheets, hcts⟩ := Client.exists_sheets_of_readFrom_eq_ok _ _ hcompletes.fetched
    exact ⟨sheets, hsheets, hcts⟩
  · intro h
    have hfails := hfailed (hone h)
    exact ⟨hfails.output, hfails.complaints, hfails.files⟩

end

/-- A world with a list of three to fetch, and a formatter that makes a text of it. -/
def World.ofThree : World where
  environment := []
  tree := .empty
  replies := [Reply.firstOfThree, Reply.lastOfThree]
  formatter := Formatter.usual fun _ => .exited 0 "done" ""

def wordsOfThree : List String := ["--space", "s", "--env", "e", "--token", "t"]

def argumentsOfThree : Arguments :=
  { overrides := { spaceId := some "s", environmentId := some "e", managementToken := some "t" } }

theorem settings_ofThree : World.ofThree.settings [] argumentsOfThree = .ok .plain := by
  have hproject : World.ofThree.projectFile argumentsOfThree.config = .ok {} := rfl
  have hresolve : Settings.resolve argumentsOfThree.overrides [] {} = .ok .plain := rfl
  rw [World.settings, hproject]
  simp only [Except.mapError, bind, Except.bind, hresolve]

theorem run_status_three :
    (run wordsOfThree .ofThree).status = .ok 0 ∧
      (run wordsOfThree .ofThree).output = "Generated 3 type(s) -> types/contentful.d.ts\n" ∧
      (run wordsOfThree .ofThree).tree.read Settings.plain.outFile = .ok "done".toUTF8 := by
  have hwords : Command.ofWords wordsOfThree = .ok (.run argumentsOfThree) := by
    cbv
  have hproject (crash : Crash) : World.ofThree.projectFile argumentsOfThree.config ≠ .error (.crashed crash) := by
    intro h
    cases h
  have hmade : Generation.Outputs .plain (fun _ => .exited 0 "done" "")
      (Settings.plain.printed (["a", "b", "c"].map Sheet.bareType)) "" "done" :=
    .formatted rfl ⟨⟨_, rfl⟩, 'd', by decide, by decide⟩
  have hfails : ¬ World.ofThree.Fails [] argumentsOfThree fun _ => .exited 0 "done" "" := by
    intro h
    cases h with
    | unset misconfigured => cases settings_ofThree.symm.trans misconfigured
    | unfetched configured unfetched =>
      cases settings_ofThree.symm.trans configured
      cases Settings.fetch_plain.symm.trans unfetched
    | crashed _ _ _ crashed => cases crashed
    | unwritten configured fetched made unwritten =>
      cases settings_ofThree.symm.trans configured
      cases Settings.fetch_plain.symm.trans fetched
      obtain ⟨-, rfl⟩ := hmade.unique made
      cases (congrArg Prod.snd unwritten).symm.trans (congrArg Prod.snd Settings.writeText_plain)
  have henv : EnvFile.load World.ofThree.tree World.ofThree.environment = ⟨.ok [], []⟩ := rfl
  obtain ⟨hends, hzero, hcompletes, hone, -⟩ := run_status hwords henv hproject rfl
  have hstatus := hends.resolve_right (mt hone.mp hfails)
  obtain ⟨s, cts, warning, text, h⟩ := hzero.mp hstatus
  obtain ⟨hwrites, -, houtput, -⟩ := hcompletes s cts warning text h
  cases settings_ofThree.symm.trans h.configured
  cases Settings.fetch_plain.symm.trans h.fetched
  obtain ⟨rfl, rfl⟩ := hmade.unique h.made
  exact ⟨hstatus, houtput, hwrites.read_eq⟩

end CommandLine

end Typings
