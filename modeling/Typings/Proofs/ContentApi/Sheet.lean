import Mathlib
import Typings.ContentApi.Fetch

/-!
# Replies that are pages

What a reply must hold for its page to be read: it succeeds with an object whose items each describe
a content type. What stands beside them as the total may be anything, and only a number that is
greater than what has been read asks for more.
-/

namespace Typings

/-- Data that counts as an integer: integers, and booleans as one and zero. -/
inductive Data.CountsAs : Data → Int → Prop
  | int (n : Int) : CountsAs (.int n) n
  | yes : CountsAs (.bool true) 1
  | no : CountsAs (.bool false) 0

/-- A page as a server writes it: its items, the content types they describe, and what stands as the
total. -/
structure Sheet where
  items : List Data
  contentTypes : List ContentType
  total : Option Data

namespace Sheet

/-- Whether there is more to read after the sheet, once `read` items have been read. -/
def GoesOn (sheet : Sheet) (read : Nat) : Prop :=
  sheet.items ≠ [] ∧ ∃ total n, sheet.total = some total ∧ total.CountsAs n ∧ (read : Int) < n

def page (sheet : Sheet) : Page := ⟨sheet.items, sheet.contentTypes, sheet.total.bind Page.totalOf⟩

/-- How many items there are on the sheets. -/
def count (sheets : List Sheet) : Nat := (sheets.map fun sheet => sheet.items.length).sum

@[simp] theorem count_nil : count [] = 0 := rfl

@[simp] theorem count_cons (sheet : Sheet) (sheets : List Sheet) :
    count (sheet :: sheets) = sheet.items.length + count sheets := rfl

end Sheet

/-- The reply succeeds, and its body is the sheet. -/
inductive Reply.Bears [LoneSurrogates] : Reply → Sheet → Prop
  | page {status : Int} {reason : Option String} {body : String} {members : Data.Members} {sheet : Sheet}
      (success : Reply.isSuccess status = true)
      (object : Reply.bodyData? body = some (.object members))
      (items : members.get? "items" = some (.list sheet.items))
      (total : members.get? "total" = sheet.total)
      (valid : sheet.items.map ContentType.ofData = sheet.contentTypes.map .accepted) :
      Bears (.answered status reason body) sheet

/-! ## Reading a sheet -/

namespace Page

theorem totalOf_eq_some_iff {d : Data} {n : Int} : totalOf d = some n ↔ d.CountsAs n := by
  constructor
  · intro h
    unfold totalOf at h
    split at h
    · cases h
      exact .int _
    · rename_i b
      cases b <;> cases h
      · exact .no
      · exact .yes
    · cases h
  · rintro (n | _ | _) <;> rfl

theorem readItems_eq_ok_iff {items : List Data} {cts : List ContentType} :
    readItems items = .ok cts ↔ items.map ContentType.ofData = cts.map .accepted := by
  induction items generalizing cts with
  | nil => cases cts <;> simp [readItems]
  | cons d rest ih =>
    rw [readItems, List.map_cons]
    cases hd : ContentType.ofData d with
    | rejected issues => cases cts <;> simp
    | accepted ct =>
      cases cts with
      | nil => cases readItems rest <;> simp [Except.map]
      | cons first more =>
        simp only [List.map_cons, List.cons.injEq, Checked.accepted.injEq, ← ih]
        cases readItems rest <;> simp [Except.map]

theorem ofObject_eq_ok_iff {members : Data.Members} {page : Page} :
    ofObject (.object members) = .ok page ↔
      members.get? "items" = some (.list page.items) ∧ readItems page.items = .ok page.contentTypes ∧
        page.total = (members.get? "total").bind totalOf := by
  unfold ofObject
  simp only [Data.get?]
  split
  · rename_i items hitems
    obtain ⟨pageItems, contentTypes, total⟩ := page
    simp only [hitems, Option.some.injEq, Data.list.injEq]
    cases hread : readItems items with
    | error fault =>
      constructor
      · intro h
        cases h
      · rintro ⟨rfl, hok, -⟩
        cases hread.symm.trans hok
    | ok cts =>
      simp only [bind, Except.bind, pure, Except.pure, Except.ok.injEq, mk.injEq]
      constructor
      · rintro ⟨rfl, rfl, rfl⟩
        exact ⟨rfl, hread, rfl⟩
      · rintro ⟨rfl, hok, rfl⟩
        exact ⟨rfl, Except.ok.inj (hread.symm.trans hok), rfl⟩
  · rename_i hitems
    constructor
    · intro h
      cases h
    · rintro ⟨hfound, -⟩
      exact absurd hfound (hitems _)

theorem ofReply_eq_ok_iff [LoneSurrogates] {reply : Reply} {page : Page} :
    ofReply reply = .ok page ↔ ∃ sheet, reply.Bears sheet ∧ page = sheet.page := by
  constructor
  · intro h
    cases reply with
    | timedOut => cases h
    | failed text => cases h
    | crashed crash => cases h
    | answered status reason body =>
      rw [ofReply] at h
      split at h
      · rename_i success
        unfold ofBody at h
        split at h
        · cases h
        · rename_i members object
          obtain ⟨items, hread, htotal⟩ := ofObject_eq_ok_iff.mp h
          refine ⟨⟨page.items, page.contentTypes, Data.Members.get? "total" members⟩,
            .page success object items rfl (readItems_eq_ok_iff.mp hread), ?_⟩
          rw [Sheet.page, ← htotal]
        · cases h
      · cases h
  · rintro ⟨sheet, ⟨success, object, items, total, valid⟩, rfl⟩
    rw [ofReply, if_pos success, ofBody, object]
    exact ofObject_eq_ok_iff.mpr
      ⟨items, readItems_eq_ok_iff.mpr valid, by rw [total, Sheet.page]⟩

end Page

theorem Reply.Bears.ofReply_eq [LoneSurrogates] {reply : Reply} {sheet : Sheet} (h : reply.Bears sheet) :
    Page.ofReply reply = .ok sheet.page :=
  Page.ofReply_eq_ok_iff.mpr ⟨sheet, h, rfl⟩

theorem Sheet.isLast_page_eq_false_iff (sheet : Sheet) (read : Nat) :
    sheet.page.isLast read = false ↔ sheet.GoesOn read := by
  unfold Page.isLast page GoesOn
  rw [Bool.or_eq_false_iff]
  apply and_congr
  · simp
  · cases htotal : sheet.total with
    | none => simp
    | some total =>
      simp only [Option.bind_some, Option.some.injEq, exists_eq_left', ← Page.totalOf_eq_some_iff,
        exists_and_left]
      cases Page.totalOf total <;> simp

end Typings
