import Typings.Proofs.Content.Field
import Typings.Proofs.TypeExpr.LiteralUnion
import Typings.Proofs.TypeExpr.Relevance

/-!
# What is of use in constraints

Of its constraints a field reads the texts and numbers listed under one key and the content types
listed under another. All the rest may be cleaned away, at every depth: the data are still a field,
and it has the same property. So whatever is malformed or unrelated among constraints goes unnoticed.
-/

namespace Typings

/-! ## Changing members -/

namespace Data.Members

/-- The members with what stands under a key changed; where nothing is left of it, the key goes. -/
def adjust (key : String) (change : Data → Option Data) (members : Members) : Members :=
  match (members.get? key).bind change with
  | some v => members.put key v
  | none => members.filter fun m => m.1 ≠ key

theorem get?_filter_self (key : String) (members : Members) :
    get? key (members.filter fun m => m.1 ≠ key) = none := by
  induction members with
  | nil => rfl
  | cons m rest ih =>
    obtain ⟨k, v⟩ := m
    by_cases hk : k = key
    · simpa [hk] using ih
    · rw [List.filter_cons_of_pos (by simpa using hk), get?, if_neg hk, ih]

theorem get?_filter_of_ne {key other : String} (h : other ≠ key) (members : Members) :
    get? other (members.filter fun m => m.1 ≠ key) = get? other members := by
  induction members with
  | nil => rfl
  | cons m rest ih =>
    obtain ⟨k, v⟩ := m
    by_cases hk : k = key
    · rw [List.filter_cons_of_neg (by simpa using hk), ih, get?, if_neg (by rw [hk]; exact h.symm)]
    · rw [List.filter_cons_of_pos (by simpa using hk), get?, get?, ih]

theorem get?_adjust_self (key : String) (change : Data → Option Data) (members : Members) :
    get? key (members.adjust key change) = (get? key members).bind change := by
  unfold adjust
  cases hchange : (get? key members).bind change with
  | some v => exact get?_put_self key v members
  | none => exact get?_filter_self key members

theorem get?_adjust_of_ne {key other : String} (h : other ≠ key) (change : Data → Option Data)
    (members : Members) : get? other (members.adjust key change) = get? other members := by
  unfold adjust
  cases (get? key members).bind change with
  | some v => exact get?_put_of_ne h v members
  | none => exact get?_filter_of_ne h members

end Data.Members

/-! ## Cleaning -/

/-- A text with at least one character. -/
def Data.isNonEmptyText : Data → Bool
  | .text s => s != ""
  | _ => false

namespace Field

/-- A list without the items that are of no use; what is no list is of none. -/
def keepUsable (usable : Data → Bool) : Data → Option Data
  | .list items => some (.list (items.filter usable))
  | _ => none

def cleanConstraint (c : Data.Members) : Data.Members :=
  (c.adjust "in" (keepUsable Data.isTextOrNumber)).adjust "linkContentType" (keepUsable Data.isNonEmptyText)

/-- Whether a constraint has one of the two keys that are read. -/
def isRelated (c : Data.Members) : Bool := (c.get? "in").isSome || (c.get? "linkContentType").isSome

/-- A constraint without what is of no use in it, if anything is left. -/
def cleanItem : Data → Option Data
  | .object c => if isRelated (cleanConstraint c) then some (.object (cleanConstraint c)) else none
  | _ => none

def cleanConstraints : Data → Option Data
  | .list items => some (.list (items.filterMap cleanItem))
  | _ => none

mutual

/-- The data of a field without what is of no use among its constraints and those of its items. -/
def clean : Data → Data
  | .object members => .object (Data.Members.adjust "validations" cleanConstraints (cleanItems members))
  | d => d

def cleanItems : List (String × Data) → List (String × Data)
  | [] => []
  | (key, value) :: rest => (key, if key = "items" then clean value else value) :: cleanItems rest

end

theorem get?_cleanItems (key : String) (members : Data.Members) :
    Data.Members.get? key (cleanItems members) =
      (members.get? key).map fun v => if key = "items" then clean v else v := by
  induction members with
  | nil => rfl
  | cons m rest ih =>
    obtain ⟨k, v⟩ := m
    rw [cleanItems, Data.Members.get?, Data.Members.get?, ih]
    by_cases hk : k = key
    · rw [if_pos hk, if_pos hk, hk, Option.map_some]
    · rw [if_neg hk, if_neg hk]

/-- The members of the data that are cleaned. -/
def cleanMembers (members : Data.Members) : Data.Members :=
  Data.Members.adjust "validations" cleanConstraints (cleanItems members)

theorem clean_object (members : Data.Members) : clean (.object members) = .object (cleanMembers members) := rfl

theorem get?_cleanMembers_validations (members : Data.Members) :
    (cleanMembers members).get? "validations" = (members.get? "validations").bind cleanConstraints := by
  have hkey : ("validations" = "items") = False := by decide
  rw [cleanMembers, Data.Members.get?_adjust_self, get?_cleanItems]
  simp only [hkey, if_false, Option.map_id']

theorem get?_cleanMembers_items (members : Data.Members) :
    (cleanMembers members).get? "items" = (members.get? "items").map clean := by
  rw [cleanMembers, Data.Members.get?_adjust_of_ne (by decide), get?_cleanItems]
  simp only [if_true]

theorem get?_cleanMembers_of_known {members : Data.Members} {key : String} (h : key ∈ knownKeys) :
    (cleanMembers members).get? key = members.get? key := by
  have hkeys : ∀ key ∈ knownKeys, key ≠ "validations" ∧ key ≠ "items" := by decide
  obtain ⟨hvalidations, hitems⟩ := hkeys key h
  rw [cleanMembers, Data.Members.get?_adjust_of_ne hvalidations, get?_cleanItems]
  simp only [hitems, if_false, Option.map_id']

theorem alike_clean (d : Data) : Alike d (clean d) := by
  induction d using data_induction with
  | other d h =>
    have hclean : clean d = d := by
      cases d with
      | object members => exact absurd rfl (h members)
      | _ => rfl
    rw [hclean]
    exact .refl d
  | object members ih =>
    have hknown : ∀ key ∈ knownKeys, members.get? key = (cleanMembers members).get? key :=
      fun key hkey => (get?_cleanMembers_of_known hkey).symm
    have hitems := get?_cleanMembers_items members
    rw [clean_object]
    cases hget : members.get? "items" with
    | none => exact .bare hknown hget (by rw [hitems, hget]; rfl)
    | some v => exact .items hknown hget (by rw [hitems, hget]; rfl) (ih v hget)

theorem exists_accepted_clean_iff (d : Data) : (∃ f, ofData (clean d) = .accepted f) ↔ ∃ f, ofData d = .accepted f :=
  ((reports_ofData d).accepted_congr (reports_ofData (clean d)) (alike_clean d).issues_eq).symm

end Field

/-! ## What is read of constraints -/

theorem listedUnder_adjust_self (key : String) (usable : Data → Bool) (c : Data.Members) :
    listedUnder key (c.adjust key (Field.keepUsable usable)) = (listedUnder key c).filter usable := by
  unfold listedUnder
  rw [Data.Members.get?_adjust_self]
  cases Data.Members.get? key c with
  | none => rfl
  | some v => cases v <;> rfl

theorem listedUnder_adjust_of_ne {key other : String} (h : other ≠ key) (change : Data → Option Data)
    (c : Data.Members) : listedUnder other (c.adjust key change) = listedUnder other c := by
  unfold listedUnder
  rw [Data.Members.get?_adjust_of_ne h]

theorem filterMap_filter_usable {β : Type} {usable : Data → Bool} {read : Data → Option β}
    (h : ∀ d, usable d = false → read d = none) (items : List Data) :
    (items.filter usable).filterMap read = items.filterMap read := by
  rw [List.filterMap_filter]
  refine List.filterMap_congr fun d _ => ?_
  cases hd : usable d with
  | true => rfl
  | false => exact (h d hd).symm

namespace Field

/-- What one constraint lists as literals. -/
def literalsIn (c : Data.Members) : List Literal := (listedUnder "in" c).filterMap Literal.ofData?

/-- What one constraint lists as targets of a link. -/
def targetsIn (c : Data.Members) : List String := (listedUnder "linkContentType" c).filterMap identifier?

theorem literalsIn_cleanConstraint (c : Data.Members) : literalsIn (cleanConstraint c) = literalsIn c := by
  rw [literalsIn, cleanConstraint, listedUnder_adjust_of_ne (by decide), listedUnder_adjust_self]
  refine filterMap_filter_usable (fun d hd => ?_) _
  cases d with
  | text | int | double => cases hd
  | _ => rfl

theorem targetsIn_cleanConstraint (c : Data.Members) : targetsIn (cleanConstraint c) = targetsIn c := by
  rw [targetsIn, cleanConstraint, listedUnder_adjust_self, listedUnder_adjust_of_ne (by decide)]
  refine filterMap_filter_usable (fun d hd => ?_) _
  cases d with
  | text s => rw [identifier?, if_pos (by simpa [Data.isNonEmptyText] using hd)]
  | _ => rfl

theorem listedUnder_of_not_isRelated {c : Data.Members} (h : isRelated c = false) :
    listedUnder "in" c = [] ∧ listedUnder "linkContentType" c = [] := by
  rw [isRelated, Bool.or_eq_false_iff, Option.isSome_eq_false_iff, Option.isSome_eq_false_iff,
    Option.isNone_iff_eq_none, Option.isNone_iff_eq_none] at h
  unfold listedUnder
  rw [h.1, h.2]
  exact ⟨rfl, rfl⟩

theorem flatMap_constraints_clean {β : Type} {read : Data.Members → List β}
    (hclean : ∀ c, read (cleanConstraint c) = read c)
    (hunrelated : ∀ c, isRelated c = false → read c = []) (v : Option Data) :
    (constraints (v.bind cleanConstraints)).flatMap read = (constraints v).flatMap read := by
  cases v with
  | none => rfl
  | some d =>
    cases d with
    | list items =>
      rw [Option.bind_some, cleanConstraints, constraints, constraints]
      induction items with
      | nil => rfl
      | cons item rest ih =>
        cases item with
        | object c =>
          rw [List.filterMap_cons, cleanItem]
          cases hrelated : isRelated (cleanConstraint c) with
          | true => simp [ih, hclean]
          | false => simp [ih, ← hclean c, hunrelated _ hrelated]
        | _ => exact ih
    | _ => rfl

theorem literalsOf_constraints_clean (v : Option Data) :
    literalsOf (constraints (v.bind cleanConstraints)) = literalsOf (constraints v) :=
  flatMap_constraints_clean literalsIn_cleanConstraint
    (fun c hc => by rw [literalsIn, (listedUnder_of_not_isRelated hc).1]; rfl) v

theorem linkTargets_constraints_clean (v : Option Data) :
    linkTargets (constraints (v.bind cleanConstraints)) = linkTargets (constraints v) :=
  flatMap_constraints_clean targetsIn_cleanConstraint
    (fun c hc => by rw [targetsIn, (listedUnder_of_not_isRelated hc).2]; rfl) v

/-! ## Clean data have the same property -/

theorem text?_eq_of_known {members others : Data.Members}
    (h : ∀ key ∈ knownKeys, members.get? key = others.get? key) {key : String} (hkey : key ∈ knownKeys) :
    members.text? key = others.text? key := by
  unfold Data.Members.text? Data.Members.readOr
  rw [h key hkey]

theorem linkTypeKey_mem_knownKeys (members : Data.Members) : linkTypeKey members ∈ knownKeys := by
  unfold linkTypeKey
  split <;> decide

theorem eq_of_specOfMembers {members others : Data.Members}
    (hknown : ∀ key ∈ knownKeys, members.get? key = others.get? key) {s t : FieldSpec}
    (hs : specOfMembers members = .accepted s) (ht : specOfMembers others = .accepted t) :
    t = { s with validations := constraints (others.get? "validations") } := by
  have htext {key : String} (hkey : key ∈ knownKeys) {u v : Option String}
      (hu : members.text? key = .accepted u) (hv : others.text? key = .accepted v) : v = u := by
    rw [text?_eq_of_known hknown hkey, hv] at hu
    exact Checked.accepted.inj hu
  have hkey : linkTypeKey members = linkTypeKey others := by
    rw [linkTypeKey, linkTypeKey, hknown "linkType" (by decide)]
  obtain ⟨hid, hname, htype, hrequired, hnote, -, hlink⟩ := specOfMembers_eq_accepted_iff.mp hs
  obtain ⟨hid', hname', htype', hrequired', hnote', hvalidations', hlink'⟩ := specOfMembers_eq_accepted_iff.mp ht
  have hflag : t.required = s.required := by
    rw [Data.Members.readOr, hknown "required" (by decide)] at hrequired
    exact Checked.accepted.inj (hrequired'.symm.trans hrequired)
  rw [hkey] at hlink
  obtain ⟨id, name, type, required, note, validations, link⟩ := t
  simp only at *
  rw [htext (by decide) hid hid', htext (by decide) hname hname', htext (by decide) htype htype', hflag,
    htext (by decide) hnote hnote', htext (linkTypeKey_mem_knownKeys others) hlink hlink', hvalidations']

theorem typesAlike_of_clean {members : Data.Members} {s t : FieldSpec}
    (hs : specOfMembers members = .accepted s) (ht : specOfMembers (cleanMembers members) = .accepted t) :
    t.TypesAlike s ∧ t.id = s.id ∧ t.name = s.name ∧ t.required = s.required := by
  have hknown : ∀ key ∈ knownKeys, members.get? key = (cleanMembers members).get? key :=
    fun key hkey => (get?_cleanMembers_of_known hkey).symm
  obtain ⟨-, -, -, -, -, hvalidations, -⟩ := specOfMembers_eq_accepted_iff.mp hs
  rw [eq_of_specOfMembers hknown hs ht, get?_cleanMembers_validations]
  refine ⟨⟨rfl, rfl, ?_, ?_⟩, rfl, rfl, rfl⟩
  · rw [← hvalidations]
    exact literalsOf_constraints_clean _
  · rw [← hvalidations]
    exact linkTargets_constraints_clean _

theorem clean_eq_null_iff {d : Data} : clean d = .null ↔ d = .null := by
  cases d <;> simp [clean]

theorem typesAlike_specs_of_clean {d : Data} {f g : Field} (hf : ofData d = .accepted f)
    (hg : ofData (clean d) = .accepted g) : List.Forall₂ FieldSpec.TypesAlike g.specs f.specs := by
  induction d using data_induction generalizing f g with
  | other d h =>
    cases d with
    | object members => exact absurd rfl (h members)
    | _ => cases hf
  | object members ih =>
    rw [clean_object] at hg
    obtain ⟨hspec, hitems⟩ := ofData_object_eq_accepted_iff.mp hf
    obtain ⟨hspec', hitems'⟩ := ofData_object_eq_accepted_iff.mp hg
    refine .cons (typesAlike_of_clean hspec hspec').1 ?_
    have hget := get?_cleanMembers_items members
    rcases itemsOf_eq_accepted_iff.mp hitems with ⟨hnull, hnone⟩ | ⟨v, inner, hv, hne, hinner, hspecs⟩
    · rcases itemsOf_eq_accepted_iff.mp hitems' with ⟨-, hnone'⟩ | ⟨w, inner', hw, hne', -⟩
      · rw [hnone, hnone']
        exact .nil
      · rw [hget] at hw
        obtain ⟨v, hv, rfl⟩ := Option.map_eq_some_iff.mp hw
        exact absurd (clean_eq_null_iff.mpr (hnull v hv)) hne'
    · rw [hv, Option.map_some] at hget
      rcases itemsOf_eq_accepted_iff.mp hitems' with ⟨hnull', -⟩ | ⟨w, inner', hw, -, hinner', hspecs'⟩
      · exact absurd (clean_eq_null_iff.mp (hnull' _ hget)) hne
      · cases hget.symm.trans hw
        rw [hspecs, hspecs']
        exact ih v hv hinner hinner'

theorem property_of_clean (ids : List String) (o : RenderOptions) {d : Data} {f g : Field}
    (hf : ofData d = .accepted f) (hg : ofData (clean d) = .accepted g) : g.property ids o = f.property ids o := by
  have hspecs := typesAlike_specs_of_clean hf hg
  cases d with
  | object members =>
    rw [clean_object] at hg
    obtain ⟨hspec, -⟩ := ofData_object_eq_accepted_iff.mp hf
    obtain ⟨hspec', -⟩ := ofData_object_eq_accepted_iff.mp hg
    obtain ⟨-, hid, hname, hrequired⟩ := typesAlike_of_clean hspec hspec'
    exact property_of_typesAlike ids o hspecs hid hname hrequired
  | _ => cases hf

/-- Data that are a field still are one when they are clean, with the same property. So data that
differ only in what cleaning takes away are all fields, and have the same property. -/
theorem property_clean (ids : List String) (o : RenderOptions) {d : Data} {f : Field}
    (hf : ofData d = .accepted f) :
    (∃ g, ofData (clean d) = .accepted g ∧ g.property ids o = f.property ids o) ∧
      ∀ e, clean e = clean d → ∃ g, ofData e = .accepted g ∧ g.property ids o = f.property ids o := by
  obtain ⟨g, hg⟩ := (exists_accepted_clean_iff d).mpr ⟨f, hf⟩
  have hproperty := property_of_clean ids o hf hg
  refine ⟨⟨g, hg, hproperty⟩, fun e he => ?_⟩
  obtain ⟨f', hf'⟩ := (exists_accepted_clean_iff e).mp ⟨g, he ▸ hg⟩
  exact ⟨f', hf', (property_of_clean ids o hf' (he ▸ hg)).symm.trans hproperty⟩

/-- A list of links, with constraints that are no list, no object, no constraint on types, or list what
is no id. -/
def noisyLinks : Data := .object [
  ("id", .text "links"), ("type", .text "Array"), ("validations", .int 5),
  ("items", .object [("type", .text "Link"), ("linkType", .text "Entry"),
    ("validations", .list [.null, .object [("unique", .bool true)],
      .object [("in", .text "page"), ("linkContentType", .list [.text "", .text "page", .int 7])]])])]

/-- The same list with nothing but the one constraint. -/
def tidyLinks : Data := .object [
  ("id", .text "links"), ("type", .text "Array"),
  ("items", .object [("type", .text "Link"), ("linkType", .text "Entry"),
    ("validations", .list [.object [("linkContentType", .list [.text "page"])]])])]

theorem property_clean_links :
    clean noisyLinks = tidyLinks ∧ ∃ f g, ofData noisyLinks = .accepted f ∧ ofData tidyLinks = .accepted g ∧
      g.property ["page"] {} = f.property ["page"] {} ∧ (f.property ["page"] {}).type.render = "IPage[]" := by
  obtain ⟨f, hf⟩ : ∃ f, ofData noisyLinks = .accepted f := ⟨_, rfl⟩
  obtain ⟨⟨g, hg, hproperty⟩, hsame⟩ := property_clean ["page"] {} hf
  obtain ⟨g', hg', hproperty'⟩ := hsame tidyLinks rfl
  refine ⟨rfl, f, g', hf, hg', hproperty', ?_⟩
  rw [← hproperty]
  cases hg
  rfl

end Field

end Typings
