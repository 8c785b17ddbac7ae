import Typings.Proofs.WorkTree.Growth

/-!
# Writing a file into its folder

Writing leaves the content that was given, whatever was there before, and besides at most the
folders on the way. Whether it works depends on the tree and the path alone, and where it worked
once, doing it again changes nothing.
-/

namespace Typings

/-! ## The way to a path -/

namespace Path

theorem text_of_ne_nil {p : Path} (h : p.parts ≠ []) :
    p.text = Anchor.text p.anchor ++ "/".intercalate p.parts := by
  obtain ⟨anchor, parts⟩ := p
  cases parts with
  | nil => exact absurd rfl h
  | cons part rest => cases anchor <;> rfl

theorem fits_nil [LoneSurrogates] (anchor : Anchor) : (⟨anchor, []⟩ : Path).Fits := by
  refine ⟨Text.encodable_of_toNat_lt ?_, ?_, ?_⟩
  · cases anchor <;> simp [text, Anchor.text]
  · cases anchor <;> simp [text, Anchor.text]
  · cases anchor <;> decide

theorem isProperPrefix_of_parent {q p : Path}
    (h : q.anchor = p.parent.anchor ∧ q.parts <+: p.parent.parts ∧ q.parts ≠ []) : q.IsProperPrefix p := by
  obtain ⟨hanchor, hprefix, hne⟩ := h
  refine ⟨hanchor, hprefix.trans (List.dropLast_prefix _), fun hsame => ?_⟩
  rw [hsame] at hprefix hne
  have hlength : p.parts.length ≤ p.parts.length - 1 := by
    simpa [parent] using hprefix.length_le
  have := List.length_pos_iff.mpr hne
  omega

theorem IsProperPrefix.fits [LoneSurrogates] {q p : Path} (h : q.IsProperPrefix p) (hfits : p.Fits) : q.Fits := by
  obtain ⟨hanchor, ⟨more, hparts⟩, hne⟩ := h
  -- A path without components has a text of its own, which need not begin the texts of longer paths.
  by_cases hq : q.parts = []
  · obtain ⟨anchor, parts⟩ := q
    obtain rfl : parts = [] := hq
    exact fits_nil anchor
  have hmore : more ≠ [] := by
    rintro rfl
    exact hne (by rw [← hparts, List.append_nil])
  have hp : p.parts ≠ [] := by
    rw [← hparts]
    exact List.append_ne_nil_of_left_ne_nil hq more
  have htext : p.text = q.text ++ ("/" ++ "/".intercalate more) := by
    rw [text_of_ne_nil hp, text_of_ne_nil hq, hanchor, ← hparts,
      String.intercalate_append_of_ne_nil hq hmore]
    simp only [String.append_assoc]
  obtain ⟨hencodable, hnull, hlong⟩ := hfits
  rw [htext, String.toList_append] at hencodable
  rw [htext, String.toList_append, List.mem_append, not_or] at hnull
  rw [htext, String.utf8ByteSize_append] at hlong
  exact ⟨fun c hc => hencodable c (List.mem_append_left _ hc), hnull.1, by omega⟩

end Path

namespace WorkTree

variable {t after : WorkTree} {p q : Path} {place : Location} {content : ByteArray}

theorem isFolder_of_follow {name : String} {next : Location} (h : t.follow place name = .ok next) :
    t.node? place = some .folder := by
  unfold follow at h
  split at h
  · cases h
  · cases h
  · assumption

theorem followAll_append {names more : List String} {last : Location}
    (h : t.followAll place (names ++ more) = .ok last) :
    ∃ next, t.followAll place names = .ok next ∧ t.followAll next more = .ok last := by
  induction names generalizing place with
  | nil => exact ⟨place, rfl, h⟩
  | cons name rest ih =>
    rw [List.cons_append, followAll] at h
    rw [followAll]
    cases hfollow : t.follow place name with
    | error e =>
      rw [hfollow] at h
      cases h
    | ok next =>
      rw [hfollow] at h
      exact ih h

theorem put_put (t : WorkTree) (place : Location) (node : Node) :
    (t.put place node).put place node = t.put place node := by
  simp [WorkTree.put, List.filter_filter]

variable [LoneSurrogates]

theorem isFolder_of_isProperPrefix (h : t.locate p = .ok place) (hq : q.IsProperPrefix p) :
    t.isFolder q = true := by
  obtain ⟨hfits, hfollow⟩ := locate_eq_ok_iff.mp h
  have hqfits := hq.fits hfits
  obtain ⟨hanchor, ⟨more, hparts⟩, hne⟩ := hq
  rw [← hparts] at hfollow
  obtain ⟨next, hnext, hmore⟩ := followAll_append hfollow
  refine isFolder_iff.mpr ⟨next, locate_eq_ok_iff.mpr ⟨hqfits, by rw [hanchor]; exact hnext⟩, ?_⟩
  cases more with
  | nil => exact absurd (by rw [← hparts, List.append_nil]) hne
  | cons name rest =>
    rw [followAll] at hmore
    cases hfollow : t.follow next name with
    | error e =>
      rw [hfollow] at hmore
      cases hmore
    | ok further => exact isFolder_of_follow hfollow

/-! ## Writing -/

/-- The path names what a file can be written to. -/
def IsTarget (t : WorkTree) (p : Path) (place : Location) : Prop :=
  t.locate p = .ok place ∧ p.parts.getLast?.all (· == "..") = false ∧ t.node? place ≠ some .folder

theorem write_of_isTarget (h : t.IsTarget p place) (content : ByteArray) :
    t.write p content = .ok (t.put place (.file content)) := by
  obtain ⟨hplace, hlast, hfolder⟩ := h
  simp [write, hplace, hlast, hfolder, bind, Except.bind]

theorem write_cases (t : WorkTree) (p : Path) :
    (∃ fault, ∀ content, t.write p content = .error fault) ∨
      ∃ place, t.IsTarget p place := by
  cases hplace : t.locate p with
  | error fault =>
    refine Or.inl ⟨fault, fun content => ?_⟩
    simp [write, hplace, bind, Except.bind]
  | ok place =>
    have hrefused (h : (p.parts.getLast?.all (· == "..") || decide (t.node? place = some .folder)) = true)
        (content : ByteArray) : t.write p content = .error (.system .isFolder p) := by
      simp only [write, hplace, bind, Except.bind, h, if_true]
    by_cases hlast : p.parts.getLast?.all (· == "..") = true
    · exact Or.inl ⟨_, hrefused (by rw [hlast, Bool.true_or])⟩
    · by_cases hfolder : t.node? place = some .folder
      · exact Or.inl ⟨_, hrefused (by rw [decide_eq_true hfolder, Bool.or_true])⟩
      · rw [Bool.not_eq_true] at hlast
        exact Or.inr ⟨place, hplace, hlast, hfolder⟩

namespace IsTarget

theorem keepsFolders (h : t.IsTarget p place) (content : ByteArray) :
    KeepsFolders t (t.put place (.file content)) :=
  keepsFolders_put h.2.2 _

theorem node?_put (h : t.IsTarget p place) (content : ByteArray) :
    (t.put place (.file content)).node? place = some (.file content) :=
  node?_put_self (ne_nil_of_node? h.2.2) t _

theorem put (h : t.IsTarget p place) (content : ByteArray) : (t.put place (.file content)).IsTarget p place := by
  refine ⟨(h.keepsFolders content).locate h.1, h.2.1, ?_⟩
  rw [h.node?_put content]
  nofun

end IsTarget

/-! ## Writing into a folder -/

theorem writeInto_cases (t : WorkTree) (p : Path) :
    (∃ after fault, t.AddsFolders after (·.IsProperPrefix p) ∧
      ∀ content, t.writeInto p content = (after, some fault)) ∨
    ∃ made place, t.AddsFolders made (·.IsProperPrefix p) ∧ made.isFolder p.parent = true ∧
      made.IsTarget p place ∧ ∀ content, t.writeInto p content = (made.put place (.file content), none) := by
  have hadds := (addsFolders_makeFolders t p.parent).mono fun q => Path.isProperPrefix_of_parent
  have hmakes := isFolder_makeFolders t p.parent
  cases hmade : t.makeFolders p.parent with
  | mk made fault =>
    rw [hmade] at hadds hmakes
    cases fault with
    | some fault =>
      refine Or.inl ⟨made, fault, hadds, fun content => ?_⟩
      simp only [writeInto, hmade]
    | none =>
      rcases made.write_cases p with ⟨fault, hwrite⟩ | ⟨place, htarget⟩
      · refine Or.inl ⟨made, fault, hadds, fun content => ?_⟩
        simp only [writeInto, hmade, hwrite]
      · refine Or.inr ⟨made, place, hadds, hmakes rfl, htarget, fun content => ?_⟩
        simp only [writeInto, hmade, write_of_isTarget htarget]

theorem writeInto_snd_eq (t : WorkTree) (p : Path) (content other : ByteArray) :
    (t.writeInto p content).2 = (t.writeInto p other).2 := by
  rcases t.writeInto_cases p with ⟨after, fault, -, hwrite⟩ | ⟨made, place, -, -, -, hwrite⟩
  · rw [hwrite, hwrite]
  · rw [hwrite, hwrite]

/-- The path leads to a file with the content and all its proper prefixes lead to folders; everything
else is as before, but for those of the folders that are new. -/
structure WritesFile (before after : WorkTree) (p : Path) (content : ByteArray) : Prop where
  keeps : KeepsFolders before after
  file : ∃ place, after.locate p = .ok place ∧ after.node? place = some (.file content) ∧
    ∀ other, other ≠ place →
      after.node? other = before.node? other ∨ NewFolder before after (·.IsProperPrefix p) other
  way : ∀ q, q.IsProperPrefix p → after.isFolder q = true

theorem WritesFile.read_eq (h : WritesFile t after p content) : after.read p = .ok content := by
  obtain ⟨place, hplace, hfile, -⟩ := h.file
  simp [read, hplace, hfile, bind, Except.bind]

theorem addsFolders_of_writeInto {fault : PathFault} (h : t.writeInto p content = (after, some fault)) :
    t.AddsFolders after (·.IsProperPrefix p) := by
  rcases t.writeInto_cases p with ⟨left, _, hadds, hwrite⟩ | ⟨made, place, -, -, -, hwrite⟩
  · rw [hwrite] at h
    cases h
    exact hadds
  · rw [hwrite] at h
    cases h

theorem writesFile_of_writeInto (h : t.writeInto p content = (after, none)) :
    t.WritesFile after p content := by
  rcases t.writeInto_cases p with ⟨left, fault, -, hwrite⟩ | ⟨made, place, hadds, -, htarget, hwrite⟩
  · rw [hwrite] at h
    cases h
  · rw [hwrite] at h
    cases h
    have hkeeps := htarget.keepsFolders content
    have hplace := hkeeps.locate htarget.1
    refine ⟨hadds.keepsFolders.trans hkeeps,
      ⟨place, hplace, htarget.node?_put content, fun other hother => ?_⟩,
      fun q hq => isFolder_of_isProperPrefix hplace hq⟩
    have hsame := node?_put_of_ne hother made (.file content)
    rcases hadds.node other with hold | ⟨hnone, hfolder, q, hq, hlocate⟩
    · exact Or.inl (hsame.trans hold)
    · exact Or.inr ⟨hnone, hsame.trans hfolder, q, hq, hkeeps.locate hlocate⟩

theorem writeInto_again (h : t.writeInto p content = (after, none)) :
    after.writeInto p content = (after, none) := by
  rcases t.writeInto_cases p with ⟨left, fault, -, hwrite⟩ | ⟨made, place, -, hparent, htarget, hwrite⟩
  · rw [hwrite] at h
    cases h
  · rw [hwrite] at h
    cases h
    have hfolder := makeFolders_of_isFolder ((htarget.keepsFolders content).isFolder hparent)
    simp only [writeInto, hfolder, write_of_isTarget (htarget.put content), put_put]

/-! ## Writing a text -/

variable {text : String}

theorem writeText_of_isUnicode (h : Text.IsUnicode text) (t : WorkTree) (p : Path) :
    t.writeText p text = ((t.writeInto p text.toUTF8).1, (t.writeInto p text.toUTF8).2.map .path) := by
  unfold writeText
  rw [Text.writeUtf8_of_isUnicode h]

theorem writeText_of_not_isUnicode (h : ¬ Text.IsUnicode text) (t : WorkTree) (p : Path) :
    ∃ fault, t.writeText p text = ((t.writeInto p .empty).1, some fault) := by
  unfold writeText
  cases hbytes : Text.writeUtf8 text with
  | ok content => exact absurd (Text.isUnicode_of_writeUtf8 hbytes).1 h
  | error f =>
    dsimp only
    rcases t.writeInto p .empty with ⟨made, _ | why⟩
    · exact ⟨_, rfl⟩
    · exact ⟨_, rfl⟩

theorem writeText_eq_none_iff :
    t.writeText p text = (after, none) ↔ Text.IsUnicode text ∧ t.writeInto p text.toUTF8 = (after, none) := by
  by_cases h : Text.IsUnicode text
  · simp [writeText_of_isUnicode h, h, Prod.ext_iff]
  · obtain ⟨fault, hwrite⟩ := writeText_of_not_isUnicode h t p
    simp [hwrite, h]

theorem writeText_again (h : t.writeText p text = (after, none)) : after.writeText p text = (after, none) := by
  obtain ⟨hunicode, hwrite⟩ := writeText_eq_none_iff.mp h
  exact writeText_eq_none_iff.mpr ⟨hunicode, writeInto_again hwrite⟩

theorem writesFile_of_writeText (h : t.writeText p text = (after, none)) : t.WritesFile after p text.toUTF8 :=
  writesFile_of_writeInto (writeText_eq_none_iff.mp h).2

/-- Where a text is not written, all that is new is folders, unless it has no bytes and leaves its file
empty. -/
theorem cases_of_writeText {fault : WriteFault} (h : t.writeText p text = (after, some fault)) :
    t.AddsFolders after (·.IsProperPrefix p) ∨ ¬ Text.IsUnicode text ∧ t.WritesFile after p .empty := by
  by_cases hunicode : Text.IsUnicode text
  · rw [writeText_of_isUnicode hunicode] at h
    obtain ⟨rfl, hfault⟩ := Prod.mk.inj h
    obtain ⟨why, hwhy, -⟩ := Option.map_eq_some_iff.mp hfault
    exact Or.inl (addsFolders_of_writeInto (Prod.ext rfl hwhy))
  · obtain ⟨other, hwrite⟩ := writeText_of_not_isUnicode hunicode t p
    obtain ⟨rfl, -⟩ := Prod.mk.inj (hwrite.symm.trans h)
    cases hmade : (t.writeInto p .empty).2 with
    | none => exact Or.inr ⟨hunicode, writesFile_of_writeInto (Prod.ext rfl hmade)⟩
    | some why => exact Or.inl (addsFolders_of_writeInto (Prod.ext rfl hmade))

end WorkTree

end Typings
