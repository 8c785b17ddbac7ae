import Mathlib
import Typings.Proofs.Text.Utf8
import Typings.Proofs.Yaml.Construction
import Typings.Settings.Loading

/-! # What loading a project file can fail with

A project file that is not there, is no mapping or holds unknown settings is reported as a fault of
the settings. What passes through loading unhandled is a path that no file can have, a file that is
no text, and whatever the reader of documents does not report as malformed.
-/

namespace Typings.ProjectFile

open LoneSurrogates (standIn)

theorem ofText_eq_crashed_iff {read : DocumentReader} {p : Path} {s : String} {c : Crash} :
    ofText read p s = .error (.crashed c) ↔ read s = .error (.crashed c) := by
  unfold ofText
  cases read s with
  | error f => cases f <;> simp
  | ok document =>
    have hentries : entriesOfDocument p document ≠ .error (.crashed c) := by
      cases document <;> exact nofun
    simp only [reduceCtorEq, iff_false]
    rw [Yaml.bind_eq_error_iff]
    rintro (h | ⟨entries, -, h⟩)
    · exact hentries h
    · split at h <;> cases h

section

variable [LoneSurrogates] {t : WorkTree} {p : Path} {c : Crash}

theorem locate_eq_unencodable_iff {f : Text.EncodeFault} :
    t.locate p = .error (.unencodable f) ↔ Text.encodeFault? Text.standsForByte 0 p.text.toList = some f := by
  unfold WorkTree.locate
  cases Text.encodeFault? Text.standsForByte 0 p.text.toList with
  | some _ => simp
  | none =>
    simp only [reduceCtorEq, iff_false]
    split_ifs
    · exact nofun
    · exact nofun
    · split <;> exact nofun

theorem locate_ne_embeddedNull (hp : '\x00' ∉ p.text.toList) : t.locate p ≠ .error .embeddedNull := by
  unfold WorkTree.locate
  cases Text.encodeFault? Text.standsForByte 0 p.text.toList with
  | some _ => exact nofun
  | none =>
    simp only [List.contains_iff_mem, if_neg hp]
    split_ifs
    · exact nofun
    · split <;> exact nofun

theorem read_eq_error_iff {f : PathFault} (hf : ∀ e, f ≠ .system e p) :
    t.read p = .error f ↔ t.locate p = .error f := by
  unfold WorkTree.read
  rw [Yaml.bind_eq_error_iff]
  constructor
  · rintro (hplace | ⟨place, -, hnode⟩)
    · exact hplace
    · split at hnode <;> cases hnode
      · exact absurd rfl (hf .noEntry)
      · exact absurd rfl (hf .isFolder)
  · exact Or.inl

theorem readText_eq_ok_iff {s : String} :
    readText t p = .ok s ↔
      ∃ content : String, t.read p = .ok content.toUTF8 ∧
        s = String.ofList (Text.unifyLineEnds content.toList) := by
  unfold readText
  cases t.read p with
  | error f => simp
  | ok bytes =>
    simp only [Except.ok.injEq, ← Text.readUtf8_eq_ok_iff]
    cases Text.readUtf8 bytes <;> simp [eq_comm]

theorem readText_eq_crashed_iff (hp : '\x00' ∉ p.text.toList) :
    readText t p = .error (.crashed c) ↔
      (∃ f, Text.encodeFault? Text.standsForByte 0 p.text.toList = some f ∧ c = .ofEncoding f) ∨
        ∃ bytes f, t.read p = .ok bytes ∧ Text.readUtf8 bytes = .error f ∧ c = .ofUtf8 f := by
  have hnull : t.read p ≠ .error .embeddedNull := by
    rw [Ne, read_eq_error_iff (f := .embeddedNull) nofun]
    exact locate_ne_embeddedNull hp
  have hpath (f : Text.EncodeFault) :
      Text.encodeFault? Text.standsForByte 0 p.text.toList = some f ↔ t.read p = .error (.unencodable f) := by
    rw [read_eq_error_iff (f := .unencodable f) nofun, locate_eq_unencodable_iff]
  simp only [hpath]
  unfold readText
  cases hread : t.read p with
  | error f =>
    cases f with
    | embeddedNull => exact absurd hread hnull
    | unencodable f => simp [ofPathFault, eq_comm]
    | system e q => cases e <;> simp [ofPathFault]
  | ok bytes =>
    simp only [Except.ok.injEq, reduceCtorEq, false_and, exists_false, false_or, exists_and_left,
      exists_eq_left']
    cases Text.readUtf8 bytes <;> simp [eq_comm]

theorem loadBy_eq_crashed_iff (read : DocumentReader) (t : WorkTree) (p : Path) (c : Crash)
    (hp : '\x00' ∉ p.text.toList) :
    loadBy read t p = .error (.crashed c) ↔
      (∃ f, ¬ Text.Encodable Text.standsForByte p.text.toList ∧
        Text.encodeFault? Text.standsForByte 0 p.text.toList = some f ∧ c = .ofEncoding f) ∨
      (∃ bytes f, t.read p = .ok bytes ∧ (∀ s : String, bytes ≠ s.toUTF8) ∧
        Text.readUtf8 bytes = .error f ∧ c = .ofUtf8 f) ∨
      ∃ s : String, t.read p = .ok s.toUTF8 ∧
        read (String.ofList (Text.unifyLineEnds s.toList)) = .error (.crashed c) := by
  unfold loadBy
  rw [Yaml.bind_eq_error_iff, readText_eq_crashed_iff hp, or_assoc]
  simp only [readText_eq_ok_iff, ofText_eq_crashed_iff]
  refine or_congr ?_ (or_congr ?_ ?_)
  · refine exists_congr fun f => (and_iff_right_of_imp ?_).symm
    rintro ⟨hf, -⟩
    rw [← Text.encodeFault?_eq_none_iff 0, hf]
    exact nofun
  · refine exists₂_congr fun bytes f => and_congr_right fun _ => (and_iff_right_of_imp ?_).symm
    exact fun h => Text.readUtf8_eq_error_iff.mp ⟨f, h.1⟩
  · constructor
    · rintro ⟨_, ⟨s, hread, rfl⟩, hdocument⟩
      exact ⟨s, hread, hdocument⟩
    · rintro ⟨s, hread, hdocument⟩
      exact ⟨_, ⟨s, hread, rfl⟩, hdocument⟩

/-- A file that is a text crashes only because its document cannot be built. -/
theorem unbuildable_of_load {s : String} (hread : t.read p = .ok s.toUTF8)
    (h : load t p = .error (.crashed c)) : Yaml.Document.Unbuildable (Text.unifyLineEnds s.toList) c := by
  have htext : readText t p = .ok (String.ofList (Text.unifyLineEnds s.toList)) :=
    readText_eq_ok_iff.mpr ⟨s, hread, rfl⟩
  rw [load, loadBy, htext, Yaml.bind_eq_error_iff] at h
  obtain hnone | ⟨text, hsome, hdocument⟩ := h
  · cases hnone
  · cases hsome
    have hunbuildable := Yaml.Document.unbuildable_of_ofText (ofText_eq_crashed_iff.mp hdocument)
    rwa [String.toList_ofList] at hunbuildable

end

/-! ## Files that crash -/

/-- The project file in the folder of the run, and a tree with nothing but that file. -/
def inFolder : Path := ⟨.here, [defaultName]⟩

def treeOf (content : ByteArray) : WorkTree :=
  ⟨[(WorkTree.workplace ++ [defaultName], .file content), (WorkTree.workplace, .folder)], WorkTree.workplace⟩

theorem read_treeOf (content : ByteArray) : (treeOf content).read inFolder = .ok content := rfl

theorem readUtf8_loneByte : Text.readUtf8 ⟨#[0xff]⟩ = .error ⟨0xff, 0, 1, .badStart⟩ := by cbv

theorem ofText_emptyInt :
    Yaml.Document.ofText "!!int ''" = .error (.crashed ⟨.range, "string index out of range"⟩) := by
  have htokens : Yaml.Scan.ofText "!!int ''".toList = ⟨[.tag (some "!!") "int", .scalar "" false], none⟩ := by
    cbv
  have hnode : Yaml.Node.ofText "!!int ''".toList = .ok (some (.scalar none .int "")) := by
    rw [Yaml.Node.ofText, htokens]
    rfl
  rw [Yaml.Document.ofText, hnode]
  rfl

/-- A path that names half a character. -/
def halved : Path := ⟨.here, [String.singleton (standIn 0xd800)]⟩

theorem encodeFault_halved :
    Text.encodeFault? Text.standsForByte 0 halved.text.toList = some ⟨0, 0xd800, 0⟩ := by decide

theorem loadBy_crashes :
    '\x00' ∉ halved.text.toList ∧ '\x00' ∉ inFolder.text.toList ∧
      load .empty halved = .error (.crashed ⟨.encoding,
        "'utf-8' codec can't encode character '\\ud800' in position 0: surrogates not allowed"⟩) ∧
      load (treeOf ⟨#[0xff]⟩) inFolder = .error (.crashed
        ⟨.decoding, "'utf-8' codec can't decode byte 0xff in position 0: invalid start byte"⟩) ∧
      load (treeOf "!!int ''".toUTF8) inFolder = .error (.crashed ⟨.range, "string index out of range"⟩) := by
  have hhalved : '\x00' ∉ halved.text.toList := by decide
  have hpath : '\x00' ∉ inFolder.text.toList := by decide
  refine ⟨hhalved, hpath, (loadBy_eq_crashed_iff _ _ _ _ hhalved).mpr (Or.inl ⟨⟨0, 0xd800, 0⟩, ?_⟩),
    (loadBy_eq_crashed_iff _ _ _ _ hpath).mpr (Or.inr (Or.inl ⟨⟨#[0xff]⟩, ⟨0xff, 0, 1, .badStart⟩, ?_⟩)),
    (loadBy_eq_crashed_iff _ _ _ _ hpath).mpr (Or.inr (Or.inr ⟨"!!int ''", ?_⟩))⟩
  · refine ⟨?_, encodeFault_halved, rfl⟩
    rw [← Text.encodeFault?_eq_none_iff 0, encodeFault_halved]
    exact nofun
  · exact ⟨read_treeOf _, Text.readUtf8_eq_error_iff.mp ⟨_, readUtf8_loneByte⟩, readUtf8_loneByte, rfl⟩
  · have hlines : Text.unifyLineEnds "!!int ''".toList = "!!int ''".toList := by rfl
    rw [hlines, String.ofList_toList]
    exact ⟨read_treeOf _, ofText_emptyInt⟩

theorem not_forall_load_reported :
    ¬ ∀ (t : WorkTree) (p : Path), '\x00' ∉ p.text.toList → ∀ c, load t p ≠ .error (.crashed c) := by
  intro h
  refine h (treeOf ⟨#[0xff]⟩) inFolder (by decide) (.ofUtf8 ⟨0xff, 0, 1, .badStart⟩) ?_
  rw [load, loadBy, readText, read_treeOf]
  simp only [readUtf8_loneByte]
  rfl

end Typings.ProjectFile
