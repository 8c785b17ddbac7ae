import Typings.WorkTree

/-!
# How a tree grows

Folders are only ever added, and where a path leads once, it leads from then on. Making the folders
of a path adds some that its prefixes name, and nothing else, whether or not it comes to its end.
-/

namespace Typings

/-- The paths on the way to a path: the same components, but not all of them. -/
def Path.IsProperPrefix (q p : Path) : Prop :=
  q.anchor = p.anchor ∧ q.parts <+: p.parts ∧ q.parts ≠ p.parts

/-- A path that the system takes: its text has bytes, no null character among them, and is not too
long. -/
structure Path.Fits [LoneSurrogates] (p : Path) : Prop where
  encodable : Text.Encodable Text.standsForByte p.text.toList
  noNull : '\x00' ∉ p.text.toList
  notLong : ¬ WorkTree.pathLimit < p.text.utf8ByteSize

namespace WorkTree

variable {t before middle after : WorkTree} {p q : Path} {place other : Location}

theorem locate_eq_ok_iff [LoneSurrogates] :
    t.locate p = .ok place ↔ p.Fits ∧ t.followAll (t.start p.anchor) p.parts = .ok place := by
  have hfits : p.Fits ↔ Text.encodeFault? Text.standsForByte 0 p.text.toList = none ∧
      '\x00' ∉ p.text.toList ∧ ¬ pathLimit < p.text.utf8ByteSize := by
    rw [Text.encodeFault?_eq_none_iff]
    exact ⟨fun h => ⟨h.encodable, h.noNull, h.notLong⟩, fun h => ⟨h.1, h.2.1, h.2.2⟩⟩
  rw [hfits]
  unfold locate
  simp only [List.contains_iff_mem]
  cases hfault : Text.encodeFault? Text.standsForByte 0 p.text.toList with
  | some f => simp
  | none =>
    by_cases hnull : '\x00' ∈ p.text.toList
    · simp [hnull]
    by_cases hlong : pathLimit < p.text.utf8ByteSize
    · simp [hnull, hlong]
    cases t.followAll (t.start p.anchor) p.parts <;> simp [hnull, hlong]

/-! ## Trees that keep their folders -/

structure KeepsFolders (before after : WorkTree) : Prop where
  current : after.current = before.current
  folder : ∀ place, before.node? place = some .folder → after.node? place = some .folder

namespace KeepsFolders

theorem trans (h : KeepsFolders before middle) (h' : KeepsFolders middle after) : KeepsFolders before after :=
  ⟨h'.current.trans h.current, fun place hplace => h'.folder place (h.folder place hplace)⟩

theorem follow (h : KeepsFolders before after) {name : String} (hok : before.follow place name = .ok other) :
    after.follow place name = .ok other := by
  unfold WorkTree.follow at hok ⊢
  split at hok
  · cases hok
  · cases hok
  · rename_i hfolder
    rw [h.folder place hfolder]
    exact hok

theorem followAll (h : KeepsFolders before after) {names : List String}
    (hok : before.followAll place names = .ok other) : after.followAll place names = .ok other := by
  induction names generalizing place with
  | nil => exact hok
  | cons name rest ih =>
    rw [WorkTree.followAll] at hok ⊢
    cases hfollow : before.follow place name with
    | error e =>
      rw [hfollow] at hok
      cases hok
    | ok next =>
      rw [hfollow] at hok
      rw [h.follow hfollow]
      exact ih hok

theorem start_eq (h : KeepsFolders before after) (anchor : Anchor) :
    after.start anchor = before.start anchor := by
  cases anchor
  · exact h.current
  all_goals rfl

variable [LoneSurrogates]

theorem locate (h : KeepsFolders before after) (hok : before.locate p = .ok place) :
    after.locate p = .ok place := by
  obtain ⟨hfits, hfollow⟩ := locate_eq_ok_iff.mp hok
  rw [locate_eq_ok_iff, h.start_eq]
  exact ⟨hfits, h.followAll hfollow⟩

end KeepsFolders

section

variable [LoneSurrogates]

theorem isFolder_iff :
    t.isFolder p = true ↔ ∃ place, t.locate p = .ok place ∧ t.node? place = some .folder := by
  unfold isFolder at?
  rw [decide_eq_true_eq]
  cases t.locate p <;> simp

theorem KeepsFolders.isFolder (h : KeepsFolders before after) (hfolder : before.isFolder p = true) :
    after.isFolder p = true := by
  obtain ⟨place, hplace, hnode⟩ := isFolder_iff.mp hfolder
  exact isFolder_iff.mpr ⟨place, h.locate hplace, h.folder place hnode⟩

end

theorem keepsFolders_put (h : t.node? place ≠ some .folder) (node : Node) :
    KeepsFolders t (t.put place node) := by
  refine ⟨rfl, fun other hother => ?_⟩
  rw [node?_put_of_ne]
  · exact hother
  · rintro rfl
    exact h hother

theorem ne_nil_of_node? (h : t.node? place ≠ some .folder) : place ≠ [] := by
  rintro rfl
  exact h (if_pos rfl)

/-! ## Added folders -/

variable [LoneSurrogates]

/-- A folder where nothing was before, at a place that one of the paths leads to. -/
def NewFolder (before after : WorkTree) (paths : Path → Prop) (place : Location) : Prop :=
  before.node? place = none ∧ after.node? place = some .folder ∧ ∃ q, paths q ∧ after.locate q = .ok place

/-- All is as before, but for new folders that the paths name. -/
structure AddsFolders (before after : WorkTree) (paths : Path → Prop) : Prop where
  current : after.current = before.current
  node : ∀ place, after.node? place = before.node? place ∨ NewFolder before after paths place

namespace AddsFolders

variable {paths : Path → Prop}

theorem refl (t : WorkTree) (paths : Path → Prop) : AddsFolders t t paths := ⟨rfl, fun _ => Or.inl rfl⟩

theorem mono {more : Path → Prop} (h : AddsFolders before after paths) (hsub : ∀ q, paths q → more q) :
    AddsFolders before after more := by
  refine ⟨h.current, fun place => (h.node place).imp_right ?_⟩
  rintro ⟨hnone, hfolder, q, hq, hplace⟩
  exact ⟨hnone, hfolder, q, hsub q hq, hplace⟩

theorem keepsFolders (h : AddsFolders before after paths) : KeepsFolders before after := by
  refine ⟨h.current, fun place hplace => ?_⟩
  rcases h.node place with hsame | ⟨-, hfolder, -⟩
  · rw [hsame, hplace]
  · exact hfolder

theorem trans (h : AddsFolders before middle paths) (h' : AddsFolders middle after paths) :
    AddsFolders before after paths := by
  refine ⟨h'.current.trans h.current, fun place => ?_⟩
  rcases h.node place with hsame | ⟨hnone, hfolder, q, hq, hplace⟩
  · unfold NewFolder
    rw [← hsame]
    exact h'.node place
  · exact Or.inr ⟨hnone, h'.keepsFolders.folder place hfolder, q, hq, h'.keepsFolders.locate hplace⟩

end AddsFolders

theorem addsFolders_put (hplace : t.locate p = .ok place) (hnone : t.node? place = none) :
    AddsFolders t (t.put place .folder) (· = p) := by
  have hnew : t.node? place ≠ some .folder := by
    rw [hnone]
    nofun
  refine ⟨rfl, fun other => ?_⟩
  by_cases hother : other = place
  · subst hother
    exact Or.inr ⟨hnone, node?_put_self (ne_nil_of_node? hnew) t .folder, p, rfl,
      (keepsFolders_put hnew .folder).locate hplace⟩
  · exact Or.inl (node?_put_of_ne hother t .folder)

/-! ## Making folders -/

theorem makeFolder_eq_ok (h : t.makeFolder p = .ok after) :
    ∃ place, t.locate p = .ok place ∧ t.node? place = none ∧ p.parts ≠ [] ∧
      after = t.put place .folder := by
  unfold makeFolder at h
  cases hplace : t.locate p with
  | error f =>
    rw [hplace] at h
    cases h
  | ok place =>
    simp only [hplace, bind, Except.bind] at h
    split at h
    · cases h
    · rename_i hfree
      simp only [Bool.or_eq_true, not_or, Bool.not_eq_true, Option.isSome_eq_false_iff,
        Option.isNone_iff_eq_none] at hfree
      refine ⟨place, rfl, hfree.2, ?_, (Except.ok.inj h).symm⟩
      intro hnil
      simp [hnil] at hfree

theorem makeFolder_of_isFolder (h : t.isFolder p = true) :
    t.makeFolder p = .error (.system .entryExists p) := by
  obtain ⟨place, hplace, hnode⟩ := isFolder_iff.mp h
  simp [makeFolder, hplace, hnode, bind, Except.bind]

theorem addsFolders_settle_makeFolder (t : WorkTree) (p : Path) :
    AddsFolders t (t.settle p (t.makeFolder p)).1 fun q => q = p ∧ p.parts ≠ [] := by
  cases hmade : t.makeFolder p with
  | error f =>
    rw [settle]
    split
    all_goals exact .refl t _
  | ok after =>
    obtain ⟨place, hplace, hnone, hne, rfl⟩ := makeFolder_eq_ok hmade
    exact (addsFolders_put hplace hnone).mono fun q hq => ⟨hq, hne⟩

theorem isFolder_settle_makeFolder (h : (t.settle p (t.makeFolder p)).2 = none) :
    (t.settle p (t.makeFolder p)).1.isFolder p = true := by
  cases hmade : t.makeFolder p with
  | error f =>
    rw [hmade, settle] at h
    rw [settle]
    by_cases hfolder : t.isFolder p = true
    · rw [if_pos hfolder]
      exact hfolder
    · rw [if_neg hfolder] at h
      cases h
  | ok after =>
    obtain ⟨place, hplace, hnone, -, rfl⟩ := makeFolder_eq_ok hmade
    have hnew : t.node? place ≠ some .folder := by
      rw [hnone]
      nofun
    exact isFolder_iff.mpr ⟨place, (keepsFolders_put hnew .folder).locate hplace,
      node?_put_self (ne_nil_of_node? hnew) t .folder⟩

theorem addsFolders_makeChain (t : WorkTree) (anchor : Anchor) (names : List String) :
    AddsFolders t (t.makeChain anchor names).1
      fun q => q.anchor = anchor ∧ q.parts <+: names.reverse ∧ q.parts ≠ [] := by
  induction names with
  | nil =>
    refine (addsFolders_settle_makeFolder t ⟨anchor, []⟩).mono ?_
    rintro q ⟨-, hne⟩
    exact absurd rfl hne
  | cons name outer ih =>
    -- The folder itself is tried twice, before the folders around it and after them.
    have hpath : ∀ t : WorkTree, AddsFolders t
        (t.settle ⟨anchor, (name :: outer).reverse⟩ (t.makeFolder ⟨anchor, (name :: outer).reverse⟩)).1
        fun q => q.anchor = anchor ∧ q.parts <+: (name :: outer).reverse ∧ q.parts ≠ [] := by
      intro t
      refine (addsFolders_settle_makeFolder t _).mono ?_
      rintro q ⟨rfl, hne⟩
      exact ⟨rfl, List.prefix_refl _, hne⟩
    have houter : AddsFolders t (t.makeChain anchor outer).1
        fun q => q.anchor = anchor ∧ q.parts <+: (name :: outer).reverse ∧ q.parts ≠ [] := by
      refine ih.mono ?_
      rintro q ⟨hanchor, hprefix, hne⟩
      rw [List.reverse_cons]
      exact ⟨hanchor, hprefix.trans (List.prefix_append _ _), hne⟩
    rw [makeChain]
    split
    · split
      · rename_i made hmade
        rw [hmade] at houter
        exact houter.trans (hpath made)
      · exact houter
    · exact hpath t

theorem isFolder_makeChain (t : WorkTree) (anchor : Anchor) (names : List String)
    (h : (t.makeChain anchor names).2 = none) :
    (t.makeChain anchor names).1.isFolder ⟨anchor, names.reverse⟩ = true := by
  cases names with
  | nil => exact isFolder_settle_makeFolder h
  | cons name outer =>
    rw [makeChain] at h ⊢
    split at h
    · split at h
      · exact isFolder_settle_makeFolder h
      · rename_i hfailed
        exact (hfailed _ (Prod.ext rfl h)).elim
    · exact isFolder_settle_makeFolder h

theorem makeChain_of_isFolder {anchor : Anchor} {names : List String}
    (h : t.isFolder ⟨anchor, names.reverse⟩ = true) : t.makeChain anchor names = (t, none) := by
  have hmade := makeFolder_of_isFolder h
  cases names with
  | nil =>
    rw [makeChain]
    exact hmade ▸ if_pos h
  | cons name outer =>
    rw [makeChain]
    simp only [hmade, settle, h, if_true]

/-- Whatever becomes of making the folders of a path, all that it adds are folders on that path. -/
theorem addsFolders_makeFolders (t : WorkTree) (p : Path) :
    AddsFolders t (t.makeFolders p).1 fun q => q.anchor = p.anchor ∧ q.parts <+: p.parts ∧ q.parts ≠ [] := by
  have hchain := addsFolders_makeChain t p.anchor p.parts.reverse
  rw [List.reverse_reverse] at hchain
  exact hchain

theorem isFolder_makeFolders (t : WorkTree) (p : Path) (h : (t.makeFolders p).2 = none) :
    (t.makeFolders p).1.isFolder p = true := by
  have hchain := isFolder_makeChain t p.anchor p.parts.reverse h
  rw [List.reverse_reverse] at hchain
  exact hchain

theorem makeFolders_of_isFolder (h : t.isFolder p = true) : t.makeFolders p = (t, none) := by
  apply makeChain_of_isFolder
  rw [List.reverse_reverse]
  exact h

end WorkTree

end Typings
