import Typings.Proofs.Generation.Course

/-!
# What a run leaves alone

However a run ends, it touches no file but the one it writes and takes no folder away. A run that
fails adds at most folders on the way to that file, and none before it comes to writing. A run that
succeeds can be repeated without any effect.
-/

namespace Typings

section

variable [LoneSurrogates]

theorem WorkTree.file_iff_of_same_or_newFolder {before after : WorkTree} {paths : Path → Prop} {place : Location}
    (h : after.node? place = before.node? place ∨ NewFolder before after paths place) (content : ByteArray) :
    after.node? place = some (.file content) ↔ before.node? place = some (.file content) := by
  rcases h with hsame | ⟨hnone, hfolder, -⟩
  · rw [hsame]
  · rw [hnone, hfolder]
    exact iff_of_false nofun nofun

namespace Generation

variable {session : Session} {s : Settings} {formatter : Formatter} {t : WorkTree} {replies : List Reply}
  {run : Generation}

namespace Course

theorem tree_of_error (h : Course session s formatter t replies run) {fault : GenerationFault}
    (hfault : run.outcome = .error fault) :
    t.AddsFolders run.tree (·.IsProperPrefix s.outFile) ∨
      ∃ cts text, (s.fetch replies).result = .ok cts ∧ s.Writes formatter (s.printed cts) text ∧
        ¬ Text.IsUnicode text ∧ t.WritesFile run.tree s.outFile .empty := by
  cases h with
  | unfetched fetched => exact Or.inl (.refl t _)
  | crashed fetched prepared => exact Or.inl (.refl t _)
  | unwritten fetched prepared written =>
    refine (WorkTree.cases_of_writeText written).imp_right ?_
    rintro ⟨hunicode, hfile⟩
    exact ⟨_, _, fetched, writes_iff.mpr ⟨_, _, prepared, rfl⟩, hunicode, hfile⟩
  | done fetched prepared written => cases hfault

theorem tree_of_ok (h : Course session s formatter t replies run) {report : Report}
    (hreport : run.outcome = .ok report) :
    ∃ cts p calls, (s.fetch replies).result = .ok cts ∧
      prepare s.formatOutput.holds formatter s.outFile (s.printed cts) = (.ok p, calls) ∧
      t.writeText s.outFile p.text = (run.tree, none) ∧
      report = ⟨cts.length, s.outFile, p.formatted, p.fault⟩ := by
  cases h with
  | unfetched fetched => cases hreport
  | crashed fetched prepared => cases hreport
  | unwritten fetched prepared written => cases hreport
  | done fetched prepared written =>
    cases hreport
    exact ⟨_, _, _, fetched, prepared, written, rfl⟩

theorem tree_cases (h : Course session s formatter t replies run) :
    t.AddsFolders run.tree (·.IsProperPrefix s.outFile) ∨
      ∃ content, t.WritesFile run.tree s.outFile content := by
  cases houtcome : run.outcome with
  | error fault =>
    rcases h.tree_of_error houtcome with hadds | ⟨cts, text, -, -, -, hfile⟩
    · exact Or.inl hadds
    · exact Or.inr ⟨_, hfile⟩
  | ok report =>
    obtain ⟨cts, p, calls, -, -, hwrite, -⟩ := h.tree_of_ok houtcome
    exact Or.inr ⟨_, WorkTree.writesFile_of_writeText hwrite⟩

theorem tree_of_unprepared (h : Course session s formatter t replies run)
    (hnone : ∀ cts p calls, (s.fetch replies).result = .ok cts →
      prepare s.formatOutput.holds formatter s.outFile (s.printed cts) ≠ (.ok p, calls)) : run.tree = t := by
  cases h with
  | unfetched fetched => rfl
  | crashed fetched prepared => rfl
  | unwritten fetched prepared written => exact absurd prepared (hnone _ _ _ fetched)
  | done fetched prepared written => exact absurd prepared (hnone _ _ _ fetched)

theorem tree_of_unfetched (h : Course session s formatter t replies run) {fault : FetchFault}
    (hfetch : (s.fetch replies).result = .error fault) : run.tree = t := by
  refine h.tree_of_unprepared fun cts p calls hfetched => ?_
  cases hfetch.symm.trans hfetched

theorem tree_of_crashed (h : Course session s formatter t replies run) {cts : List ContentType} {crash : Crash}
    {calls : List ProgramCall} (hfetch : (s.fetch replies).result = .ok cts)
    (hwanted : s.formatOutput.holds = true)
    (hcrash : formatter (s.printed cts) s.outFile = (.crashed crash, calls)) : run.tree = t := by
  refine h.tree_of_unprepared fun cts' p calls' hfetched hprepared => ?_
  cases hfetch.symm.trans hfetched
  rw [hwanted, prepare, if_pos rfl, hcrash] at hprepared
  cases hprepared

end Course

theorem Course.over_again (h : Course session s formatter t replies run) {report : Report}
    (hreport : run.outcome = .ok report) (other : Session) :
    (Generation.over other s formatter run.tree replies).tree = run.tree ∧
      (Generation.over other s formatter run.tree replies).outcome = .ok report := by
  obtain ⟨cts, p, calls, hfetch, hprepare, hwrite, rfl⟩ := h.tree_of_ok hreport
  rw [over_eq_of_written hfetch hprepare (WorkTree.writeText_again hwrite)]
  exact ⟨rfl, rfl⟩

/-- What a run does to the tree. Whatever its outcome, every file but the one that it writes stays as
it is, no other is made, and every folder stays. A run that fails only adds folders on the way to its
file, and not even these if it fails in fetching or formatting. A run that succeeds writes its file,
with nothing of the content that it had, and does nothing more when it is repeated. -/
theorem over_frame (session : Session) (s : Settings) (formatter : Formatter) (t : WorkTree)
    (replies : List Reply) :
    let run := Generation.over session s formatter t replies
    (∀ place content, run.tree.locate s.outFile ≠ .ok place →
      (run.tree.node? place = some (.file content) ↔ t.node? place = some (.file content))) ∧
    (∀ place, t.node? place = some .folder → run.tree.node? place = some .folder) ∧
    (∀ fault, run.outcome = .error fault →
      (∀ cts text, (s.fetch replies).result = .ok cts → s.Writes formatter (s.printed cts) text →
        Text.IsUnicode text) → t.AddsFolders run.tree (·.IsProperPrefix s.outFile)) ∧
    (∀ fault, (s.fetch replies).result = .error fault → run.tree = t) ∧
    (∀ cts crash calls, (s.fetch replies).result = .ok cts → s.formatOutput.holds = true →
      formatter (s.printed cts) s.outFile = (.crashed crash, calls) → run.tree = t) ∧
    ∀ report, run.outcome = .ok report →
      (∃ cts text, (s.fetch replies).result = .ok cts ∧ s.Writes formatter (s.printed cts) text ∧
        t.WritesFile run.tree s.outFile text.toUTF8) ∧
      ∀ other, (Generation.over other s formatter run.tree replies).tree = run.tree ∧
        (Generation.over other s formatter run.tree replies).outcome = .ok report := by
  have hcourse := course_over session s formatter t replies
  intro run
  have hkeeps : ∀ place content, run.tree.locate s.outFile ≠ .ok place →
      (run.tree.node? place = some (.file content) ↔ t.node? place = some (.file content)) := by
    intro place content hplace
    rcases hcourse.tree_cases with hadds | ⟨left, hfile⟩
    · exact WorkTree.file_iff_of_same_or_newFolder (hadds.node place) content
    · obtain ⟨target, htarget, -, hothers⟩ := hfile.file
      refine WorkTree.file_iff_of_same_or_newFolder (hothers place ?_) content
      rintro rfl
      exact hplace htarget
  have hfolders : t.KeepsFolders run.tree := by
    rcases hcourse.tree_cases with hadds | ⟨left, hfile⟩
    · exact hadds.keepsFolders
    · exact hfile.keeps
  refine ⟨hkeeps, hfolders.folder, fun fault hfault htexts => ?_,
    fun fault => hcourse.tree_of_unfetched, fun cts crash calls => hcourse.tree_of_crashed,
    fun report hreport => ⟨?_, hcourse.over_again hreport⟩⟩
  · rcases hcourse.tree_of_error hfault with hadds | ⟨cts, text, hfetch, hwrites, hnot, -⟩
    · exact hadds
    · exact absurd (htexts cts text hfetch hwrites) hnot
  · obtain ⟨cts, p, calls, hfetch, hprepare, hwrite, -⟩ := hcourse.tree_of_ok hreport
    exact ⟨cts, p.text, hfetch, writes_iff.mpr ⟨p, calls, hprepare, rfl⟩, WorkTree.writesFile_of_writeText hwrite⟩

end Generation

end

namespace Generation

theorem over_frame_three :
    let formatter : Formatter := fun _ _ => (.text "done", [])
    let run := Generation.over ⟨"t", 1⟩ .plain formatter .empty [Reply.firstOfThree, Reply.lastOfThree]
    (∃ report, run.outcome = .ok report) ∧ run.tree.isFolder ⟨.here, ["types"]⟩ = true ∧
      (Generation.over ⟨"t", 1⟩ .plain formatter run.tree [Reply.firstOfThree, Reply.lastOfThree]).tree =
        run.tree := by
  intro formatter run
  obtain ⟨-, -, -, -, -, hdone⟩ := over_frame ⟨"t", 1⟩ .plain formatter .empty
    [Reply.firstOfThree, Reply.lastOfThree]
  obtain ⟨report, hreport⟩ : ∃ report, run.outcome = .ok report :=
    ⟨_, congrArg outcome (over_eq_of_written Settings.fetch_plain rfl
      Settings.writeText_plain)⟩
  obtain ⟨⟨cts, text, -, -, hwrites⟩, hagain⟩ := hdone report hreport
  have hway : Path.IsProperPrefix ⟨.here, ["types"]⟩ Settings.plain.outFile := ⟨rfl, by decide, by decide⟩
  exact ⟨⟨report, hreport⟩, hwrites.way _ hway, (hagain _).1⟩

end Generation

end Typings
