import Typings.Generation
import Typings.Proofs.ContentApi.Pagination
import Typings.Proofs.WorkTree.Writing

/-!
# The course of a run

A run ends at fetching, at the formatter, at writing, or with its report. What it leaves in each of
these cases is listed here once; the theorems about runs go through the list.
-/

namespace Typings

/-- What a run fetches. -/
def Settings.fetch [LoneSurrogates] (s : Settings) (replies : List Reply) : Fetch :=
  ({} : Client).fetch s.spaceId s.environmentId replies

/-- The declaration file as a run prints it, before any formatting. -/
def Settings.printed (s : Settings) (cts : List ContentType) : String := declarationFile s.renderOptions cts

/-- The text that a run writes: the printed one, unless the formatter gives another. -/
inductive Settings.Writes (s : Settings) (formatter : Formatter) (raw : String) : String → Prop
  | unformatted (wanted : s.formatOutput.holds = false) : Writes s formatter raw raw
  | formatted {text : String} {calls : List ProgramCall} (wanted : s.formatOutput.holds = true)
      (gives : formatter raw s.outFile = (.text text, calls)) : Writes s formatter raw text
  | fallback {fault : FormatFault} {calls : List ProgramCall} (wanted : s.formatOutput.holds = true)
      (fails : formatter raw s.outFile = (.fault fault, calls)) : Writes s formatter raw raw

namespace Generation

theorem writes_iff {s : Settings} {formatter : Formatter} {raw text : String} :
    s.Writes formatter raw text ↔
      ∃ p calls, prepare s.formatOutput.holds formatter s.outFile raw = (.ok p, calls) ∧ text = p.text := by
  unfold prepare
  constructor
  · intro h
    cases h with
    | unformatted wanted => exact ⟨_, _, by rw [wanted, if_neg nofun], rfl⟩
    | formatted wanted gives => exact ⟨_, _, by rw [wanted, if_pos rfl, gives], rfl⟩
    | fallback wanted fails => exact ⟨_, _, by rw [wanted, if_pos rfl, fails], rfl⟩
  · rintro ⟨p, calls, hprepare, rfl⟩
    split at hprepare
    · rename_i wanted
      split at hprepare
      · rename_i gives
        cases hprepare
        exact .formatted wanted gives
      · rename_i fails
        cases hprepare
        exact .fallback wanted fails
      · cases hprepare
    · rename_i unwanted
      cases hprepare
      exact .unformatted (Bool.eq_false_iff.mpr unwanted)

variable [LoneSurrogates] {session : Session} {s : Settings} {formatter : Formatter} {t : WorkTree}
  {replies : List Reply}

/-- The runs that there can be, by where they end. -/
inductive Course (session : Session) (s : Settings) (formatter : Formatter) (t : WorkTree)
    (replies : List Reply) : Generation → Prop
  | unfetched {fault : FetchFault} (fetched : (s.fetch replies).result = .error fault) :
      Course session s formatter t replies
        (stopped (ofFetchFault fault) (s.fetch replies) session [] t)
  | crashed {cts : List ContentType} {crash : Crash} {calls : List ProgramCall}
      (fetched : (s.fetch replies).result = .ok cts)
      (prepared : prepare s.formatOutput.holds formatter s.outFile (s.printed cts) = (.error crash, calls)) :
      Course session s formatter t replies (stopped (.crashed crash) (s.fetch replies) session calls t)
  | unwritten {cts : List ContentType} {p : Prepared} {calls : List ProgramCall} {after : WorkTree}
      {fault : WorkTree.WriteFault} (fetched : (s.fetch replies).result = .ok cts)
      (prepared : prepare s.formatOutput.holds formatter s.outFile (s.printed cts) = (.ok p, calls))
      (written : t.writeText s.outFile p.text = (after, some fault)) :
      Course session s formatter t replies
        (stopped (ofWriteFault s.outFile fault) (s.fetch replies) session calls after)
  | done {cts : List ContentType} {p : Prepared} {calls : List ProgramCall} {after : WorkTree}
      (fetched : (s.fetch replies).result = .ok cts)
      (prepared : prepare s.formatOutput.holds formatter s.outFile (s.printed cts) = (.ok p, calls))
      (written : t.writeText s.outFile p.text = (after, none)) :
      Course session s formatter t replies
        ⟨.ok ⟨cts.length, s.outFile, p.formatted, p.fault⟩, (s.fetch replies).requests, [session], calls,
          after, (s.fetch replies).left⟩

theorem over_eq_of_fetched {cts : List ContentType} (h : (s.fetch replies).result = .ok cts) :
    Generation.over session s formatter t replies = finish s formatter t session (s.fetch replies) cts := by
  unfold Generation.over
  rw [← Settings.fetch]
  simp only [h]

theorem over_eq_of_written {cts : List ContentType} {p : Prepared} {calls : List ProgramCall} {after : WorkTree}
    (hfetch : (s.fetch replies).result = .ok cts)
    (hprepare : prepare s.formatOutput.holds formatter s.outFile (s.printed cts) = (.ok p, calls))
    (hwrite : t.writeText s.outFile p.text = (after, none)) :
    Generation.over session s formatter t replies =
      ⟨.ok ⟨cts.length, s.outFile, p.formatted, p.fault⟩, (s.fetch replies).requests, [session], calls,
        after, (s.fetch replies).left⟩ := by
  rw [over_eq_of_fetched hfetch, finish, ← Settings.printed]
  simp only [hprepare, hwrite]

theorem course_over (session : Session) (s : Settings) (formatter : Formatter) (t : WorkTree)
    (replies : List Reply) :
    Course session s formatter t replies (Generation.over session s formatter t replies) := by
  cases hfetch : (s.fetch replies).result with
  | error fault =>
    have hover : Generation.over session s formatter t replies =
        stopped (ofFetchFault fault) (s.fetch replies) session [] t := by
      unfold Generation.over
      rw [← Settings.fetch]
      simp only [hfetch]
    rw [hover]
    exact .unfetched hfetch
  | ok cts =>
    rw [over_eq_of_fetched hfetch, finish, ← Settings.printed]
    rcases hprepare : prepare s.formatOutput.holds formatter s.outFile (s.printed cts) with ⟨crash | p, calls⟩
    · exact .crashed hfetch hprepare
    · dsimp only
      rcases hwrite : t.writeText s.outFile p.text with ⟨after, _ | fault⟩
      · exact .done hfetch hprepare hwrite
      · exact .unwritten hfetch hprepare hwrite

end Generation

/-! ## Settings for the list of three -/

def Settings.plain : Settings := ⟨"s", "e", "t", ⟨.here, ["types", "contentful.d.ts"]⟩, {}, .bool true⟩

theorem Settings.fetch_plain :
    (plain.fetch [Reply.firstOfThree, Reply.lastOfThree]).result = .ok (["a", "b", "c"].map Sheet.bareType) :=
  congrArg Fetch.result (Client.fetch_ofThree {} "s" "e" [])

theorem Settings.writeInto_plain (content : ByteArray) :
    (WorkTree.empty.writeInto plain.outFile content).2 = none := rfl

theorem isUnicode_done : Text.IsUnicode "done" := (Text.encodeFault?_eq_none_iff 0).mp rfl

theorem Settings.writeText_plain :
    WorkTree.empty.writeText plain.outFile "done" =
      ((WorkTree.empty.writeInto plain.outFile "done".toUTF8).1, none) := by
  rw [WorkTree.writeText_of_isUnicode isUnicode_done, writeInto_plain]
  rfl

theorem Settings.eq_done_of_writes {raw text : String}
    (h : plain.Writes (Formatter.usual fun _ => .exited 0 "done" "") raw text) : text = "done" := by
  obtain ⟨p, calls, hprepare, rfl⟩ := Generation.writes_iff.mp h
  cases hprepare
  rfl

end Typings
