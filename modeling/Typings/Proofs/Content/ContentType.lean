import Typings.Content.ContentType
import Typings.Proofs.Content.Field

/-!
# Which data are content types

A content type is an object with a system part that has an id, and with a list of fields if it has
any. The data that are read as content types are told apart from the others here member by member,
and so are the faults that the others are reported with: each at its place, and no place twice.
-/

namespace Typings

/-! ## System parts -/

namespace SystemInfo

/-- Data that are a system part; the id must be there. -/
inductive Valid : Data → Prop
  | object {members : Data.Members} (id : ∃ v, members.get? "id" = some v ∧ v.IsText)
      (type : ∀ v, members.get? "type" = some v → v.IsText) : Valid (.object members)

/-- The faults of data as a system part, each with the place that it is at. -/
inductive Offends : Data → List Step → Fault → Prop
  | notObject {d : Data} (h : ∀ members, d ≠ .object members) : Offends d [] (.notObject modelName)
  | noId {members : Data.Members} (h : members.get? "id" = none) :
      Offends (.object members) [.key "id"] .missing
  | id {members : Data.Members} {v : Data} (hv : members.get? "id" = some v) (h : ¬ v.IsText) :
      Offends (.object members) [.key "id"] .notText
  | type {members : Data.Members} {v : Data} (hv : members.get? "type" = some v) (h : ¬ v.IsText) :
      Offends (.object members) [.key "type"] .notText

/-- The members that reading looks at, with what stands against each. -/
def parts (members : Data.Members) : Parts := [
  (.key "id", members.issuesAt [⟨[], .missing⟩] (fun v => (Scalar.asText v.scalar).issues) "id"),
  (.key "type", members.issuesAt [] (fun v => (Scalar.asText v.scalar).issues) "type")]

theorem issues_ofMembers (members : Data.Members) : (ofMembers members).issues = (parts members).issues := by
  have hid : (members.readOr (Checked.under (.key "id") (.fault .missing)) Scalar.asText "id").issues =
      (members.issuesAt [⟨[], .missing⟩] (fun v => (Scalar.asText v.scalar).issues) "id").map
        (Issue.below (.key "id")) :=
    members.issues_readOr _ _ _ "id" rfl
  have htype : (members.readOr (.accepted "ContentType") Scalar.asText "type").issues =
      (members.issuesAt [] (fun v => (Scalar.asText v.scalar).issues) "type").map
        (Issue.below (.key "type")) :=
    members.issues_readOr _ [] _ "type" rfl
  rw [ofMembers]
  simp only [Checked.issues_seq, Checked.issues_map, hid, htype]
  simp [Parts.issues, parts]

theorem founded_ofMembers (members : Data.Members) : (ofMembers members).Founded := by
  have hread (v : Data) : (Scalar.asText v.scalar).Founded := (Scalar.single_asText v).founded
  have hid := members.founded_readOr ((Checked.founded_fault .missing).under (.key "id")) hread "id"
  have htype := members.founded_readOr (Checked.founded_accepted "ContentType") hread "type"
  exact (hid.map _).seq htype

theorem nodup_places_part (members : Data.Members) :
    ∀ part ∈ parts members, (part.2.map Issue.place).Nodup := by
  simp only [parts, List.forall_mem_cons, List.not_mem_nil, false_imp_iff, implies_true, and_true]
  exact ⟨members.nodup_places_text (by simp) "id", members.nodup_places_text (by simp) "type"⟩

theorem exists_part_iff (members : Data.Members) (place : List Step) (fault : Fault) :
    (∃ step rest is, place = step :: rest ∧ (step, is) ∈ parts members ∧ ⟨rest, fault⟩ ∈ is) ↔
      Offends (.object members) place fault := by
  constructor
  · rintro ⟨step, rest, is, rfl, hpart, hissue⟩
    simp only [parts, List.mem_cons, Prod.mk.injEq, List.not_mem_nil, or_false] at hpart
    rcases hpart with ⟨rfl, rfl⟩ | ⟨rfl, rfl⟩
    · rcases Data.Members.mem_issuesAt_asText.mp hissue with ⟨v, hv, hnot, rfl, rfl⟩ | ⟨hnone, hmissing⟩
      · exact .id hv hnot
      · cases List.mem_singleton.mp hmissing
        exact .noId hnone
    · rcases Data.Members.mem_issuesAt_asText.mp hissue with ⟨v, hv, hnot, rfl, rfl⟩ | ⟨-, hnil⟩
      · exact .type hv hnot
      · cases hnil
  · intro hoff
    cases hoff with
    | notObject h => exact absurd rfl (h members)
    | noId h =>
      exact ⟨_, _, _, rfl, List.mem_cons_self,
        Data.Members.mem_issuesAt_asText.mpr (Or.inr ⟨h, List.mem_singleton_self _⟩)⟩
    | id hv hnot =>
      exact ⟨_, _, _, rfl, List.mem_cons_self,
        Data.Members.mem_issuesAt_asText.mpr (Or.inl ⟨_, hv, hnot, rfl, rfl⟩)⟩
    | type hv hnot =>
      exact ⟨_, _, _, rfl, List.mem_cons_of_mem _ List.mem_cons_self,
        Data.Members.mem_issuesAt_asText.mpr (Or.inl ⟨_, hv, hnot, rfl, rfl⟩)⟩

theorem offends_iff_of_ne {d : Data} (h : ∀ members, d ≠ .object members) (place : List Step) (fault : Fault) :
    Offends d place fault ↔ place = [] ∧ fault = .notObject modelName := by
  constructor
  · intro hoff
    cases hoff with
    | notObject => exact ⟨rfl, rfl⟩
    | _ => exact absurd rfl (h _)
  · rintro ⟨rfl, rfl⟩
    exact .notObject h

theorem reports_ofData (d : Data) : (ofData d).Reports (Offends d) := by
  cases d with
  | object members =>
    exact Checked.reports_of_parts (founded_ofMembers members) (issues_ofMembers members) (by simp [parts])
      (nodup_places_part members) (exists_part_iff members)
  | _ => exact Checked.reports_fault (offends_iff_of_ne nofun)

theorem valid_iff (d : Data) : Valid d ↔ ∀ place fault, ¬ Offends d place fault := by
  constructor
  · rintro ⟨⟨v, hv, htext⟩, htype⟩ place fault hoff
    cases hoff with
    | notObject h => exact h _ rfl
    | noId h => cases hv.symm.trans h
    | id hv' hnot =>
      cases hv.symm.trans hv'
      exact hnot htext
    | type hv' hnot => exact hnot (htype _ hv')
  · intro hnone
    cases d with
    | object members =>
      refine .object ?_ fun v hv => ?_
      · cases hget : Data.Members.get? "id" members with
        | none => exact absurd (.noId hget) (hnone _ _)
        | some v =>
          refine ⟨v, rfl, ?_⟩
          by_contra hnot
          exact hnone _ _ (.id hget hnot)
      · by_contra hnot
        exact hnone _ _ (.type hv hnot)
    | _ => exact absurd (.notObject nofun) (hnone _ _)

/-- Data that differ at most under keys that no system part has. -/
inductive Alike : Data → Data → Prop
  | refl (d : Data) : Alike d d
  | object {members others : Data.Members} (id : members.get? "id" = others.get? "id")
      (type : members.get? "type" = others.get? "type") : Alike (.object members) (.object others)

theorem Alike.issues_eq {d e : Data} (h : Alike d e) : (ofData d).issues = (ofData e).issues := by
  cases h with
  | refl => rfl
  | @object members others id type =>
    have hread (v : Data.Members) : (ofData (.object v)).issues = (parts v).issues := issues_ofMembers v
    rw [hread, hread, parts, parts, Data.Members.issuesAt_congr id, Data.Members.issuesAt_congr type]

end SystemInfo

/-! ## Content types -/

namespace ContentType

/-- Data that are a list of fields. -/
def AreFields (d : Data) : Prop := ∃ items, d = .list items ∧ ∀ item ∈ items, Field.Valid item

/-- Data that are a content type; the system part must be there. -/
inductive Valid : Data → Prop
  | object {members : Data.Members}
      (system : ∃ v, members.get? "sys" = some v ∧ SystemInfo.Valid v)
      (name : ∀ v, members.get? "name" = some v → v.IsText)
      (description : ∀ v, members.get? "description" = some v → v.IsTextOrNull)
      (fields : ∀ v, members.get? "fields" = some v → AreFields v) : Valid (.object members)

/-- The faults of data as a list of fields, each with the place that it is at. -/
inductive FieldsOffend : Data → List Step → Fault → Prop
  | notList {d : Data} (h : ∀ items, d ≠ .list items) : FieldsOffend d [] .notList
  | item {items : List Data} {i : Nat} {d : Data} {place : List Step} {f : Fault} (hd : items[i]? = some d)
      (h : Field.Offends d place f) : FieldsOffend (.list items) (.index i :: place) f

/-- The faults of data as a content type, each with the place that it is at. -/
inductive Offends : Data → List Step → Fault → Prop
  | notObject {d : Data} (h : ∀ members, d ≠ .object members) : Offends d [] (.notObject modelName)
  | noSystem {members : Data.Members} (h : members.get? "sys" = none) :
      Offends (.object members) [.key "sys"] .missing
  | system {members : Data.Members} {v : Data} {place : List Step} {f : Fault}
      (hv : members.get? "sys" = some v) (h : SystemInfo.Offends v place f) :
      Offends (.object members) (.key "sys" :: place) f
  | name {members : Data.Members} {v : Data} (hv : members.get? "name" = some v) (h : ¬ v.IsText) :
      Offends (.object members) [.key "name"] .notText
  | description {members : Data.Members} {v : Data} (hv : members.get? "description" = some v)
      (h : ¬ v.IsTextOrNull) : Offends (.object members) [.key "description"] .notText
  | fields {members : Data.Members} {v : Data} {place : List Step} {f : Fault}
      (hv : members.get? "fields" = some v) (h : FieldsOffend v place f) :
      Offends (.object members) (.key "fields" :: place) f

/-- What stands against the fields. -/
def fieldsIssues : Data → List Issue
  | .list items => (itemParts (fun item => (Field.ofData item).issues) 0 items).issues
  | _ => [⟨[], .notList⟩]

theorem mem_fieldsIssues_iff (d : Data) (place : List Step) (fault : Fault) :
    ⟨place, fault⟩ ∈ fieldsIssues d ↔ FieldsOffend d place fault := by
  by_cases h : ∃ items, d = .list items
  · obtain ⟨items, rfl⟩ := h
    rw [fieldsIssues, Parts.mem_issues_iff]
    constructor
    · rintro ⟨step, rest, is, rfl, hpart, hissue⟩
      obtain ⟨i, item, rfl, hget, rfl⟩ := mem_itemParts_iff.mp hpart
      exact .item hget (((Field.reports_ofData item).mem rest fault).mp hissue)
    · intro hoff
      cases hoff with
      | notList h => exact absurd rfl (h items)
      | item hget hoff =>
        exact ⟨_, _, _, rfl, mem_itemParts_iff.mpr ⟨_, _, rfl, hget, rfl⟩,
          ((Field.reports_ofData _).mem _ _).mpr hoff⟩
  · have hother : ∀ items, d ≠ .list items := fun items heq => h ⟨items, heq⟩
    have hissues : fieldsIssues d = [⟨[], .notList⟩] := by
      cases d with
      | list items => exact absurd rfl (hother items)
      | _ => rfl
    rw [hissues, List.mem_singleton]
    constructor
    · rintro ⟨⟩
      exact .notList hother
    · intro hoff
      cases hoff with
      | notList => rfl
      | item => exact absurd rfl (hother _)

theorem nodup_places_fieldsIssues (d : Data) : ((fieldsIssues d).map Issue.place).Nodup := by
  cases d with
  | list items =>
    refine Parts.nodup_places_issues (nodup_steps_itemParts _ 0 items) ?_
    rintro ⟨step, is⟩ hpart
    obtain ⟨i, item, rfl, -, rfl⟩ := mem_itemParts_iff.mp hpart
    exact (Field.reports_ofData item).nodup
  | _ => exact List.nodup_singleton _

theorem areFields_iff (d : Data) : AreFields d ↔ ∀ place fault, ¬ FieldsOffend d place fault := by
  constructor
  · rintro ⟨items, rfl, hvalid⟩ place fault hoff
    cases hoff with
    | notList h => exact h _ rfl
    | item hget hoff =>
      exact (Field.valid_iff _).mp (hvalid _ (List.mem_of_getElem? hget)) _ _ hoff
  · intro hnone
    by_cases h : ∃ items, d = .list items
    · obtain ⟨items, rfl⟩ := h
      refine ⟨items, rfl, fun item hitem => ?_⟩
      obtain ⟨i, hget⟩ := List.mem_iff_getElem?.mp hitem
      exact (Field.valid_iff item).mpr fun place fault hoff => hnone _ _ (.item hget hoff)
    · exact absurd (.notList fun items heq => h ⟨items, heq⟩) (hnone _ _)

/-- The members that reading looks at, with what stands against each. -/
def parts (members : Data.Members) : Parts := [
  (.key "sys", members.issuesAt [⟨[], .missing⟩] (fun v => (SystemInfo.ofData v).issues) "sys"),
  (.key "name", members.issuesAt [] (fun v => (Scalar.asText v.scalar).issues) "name"),
  (.key "description", members.issuesAt [] (fun v => (Scalar.asTextOrNull v.scalar).issues) "description"),
  (.key "fields", members.issuesAt [] fieldsIssues "fields")]

theorem issues_systemOf (members : Data.Members) :
    (systemOf members).issues =
      (members.issuesAt [⟨[], .missing⟩] (fun v => (SystemInfo.ofData v).issues) "sys").map
        (Issue.below (.key "sys")) := by
  rw [systemOf, Checked.issues_under, Data.Members.issuesAt]
  cases members.get? "sys" <;> rfl

theorem issues_fieldsOf (members : Data.Members) :
    (fieldsOf members).issues = (members.issuesAt [] fieldsIssues "fields").map (Issue.below (.key "fields")) := by
  rw [fieldsOf, Data.Members.issuesAt]
  cases members.get? "fields" with
  | none => rfl
  | some v =>
    cases v with
    | list items =>
      rw [Checked.issues_under, Checked.issues_each]
      rfl
    | _ => rfl

theorem issues_ofMembers (members : Data.Members) : (ofMembers members).issues = (parts members).issues := by
  have hname : (members.readOr (.accepted "") Scalar.asText "name").issues =
      (members.issuesAt [] (fun v => (Scalar.asText v.scalar).issues) "name").map
        (Issue.below (.key "name")) :=
    members.issues_readOr _ [] _ "name" rfl
  rw [ofMembers]
  simp only [Checked.issues_seq, Checked.issues_map, issues_systemOf, hname, Data.Members.issues_text?,
    issues_fieldsOf]
  simp [Parts.issues, parts]

theorem founded_systemOf (members : Data.Members) : (systemOf members).Founded := by
  unfold systemOf
  cases members.get? "sys" with
  | none => exact (Checked.founded_fault .missing).under _
  | some v => exact (SystemInfo.reports_ofData v).founded.under _

theorem founded_fieldsOf (members : Data.Members) : (fieldsOf members).Founded := by
  unfold fieldsOf
  cases members.get? "fields" with
  | none => exact Checked.founded_accepted []
  | some v =>
    cases v with
    | list items => exact (Checked.founded_each (fun item => (Field.reports_ofData item).founded) 0 items).under _
    | _ => exact (Checked.founded_fault .notList).under _

theorem founded_ofMembers (members : Data.Members) : (ofMembers members).Founded := by
  have hname := members.founded_readOr (Checked.founded_accepted "")
    (fun v => (Scalar.single_asText v).founded) "name"
  have hdescription := members.founded_text? "description"
  exact ((((founded_systemOf members).map _).seq hname).seq hdescription).seq (founded_fieldsOf members)

theorem nodup_places_part (members : Data.Members) :
    ∀ part ∈ parts members, (part.2.map Issue.place).Nodup := by
  simp only [parts, List.forall_mem_cons, List.not_mem_nil, false_imp_iff, implies_true, and_true]
  refine ⟨?_, ?_, ?_, ?_⟩
  · exact Data.Members.nodup_places_issuesAt (List.nodup_singleton _) fun v _ =>
      (SystemInfo.reports_ofData v).nodup
  · exact members.nodup_places_text (by simp) "name"
  · exact members.nodup_places_text? "description"
  · exact Data.Members.nodup_places_issuesAt List.nodup_nil fun v _ => nodup_places_fieldsIssues v

theorem exists_part_iff (members : Data.Members) (place : List Step) (fault : Fault) :
    (∃ step rest is, place = step :: rest ∧ (step, is) ∈ parts members ∧ ⟨rest, fault⟩ ∈ is) ↔
      Offends (.object members) place fault := by
  constructor
  · rintro ⟨step, rest, is, rfl, hpart, hissue⟩
    simp only [parts, List.mem_cons, Prod.mk.injEq, List.not_mem_nil, or_false] at hpart
    rcases hpart with ⟨rfl, rfl⟩ | ⟨rfl, rfl⟩ | ⟨rfl, rfl⟩ | ⟨rfl, rfl⟩
    · rcases Data.Members.mem_issuesAt_iff.mp hissue with ⟨v, hv, hmem⟩ | ⟨hnone, hmissing⟩
      · exact .system hv (((SystemInfo.reports_ofData v).mem rest fault).mp hmem)
      · cases List.mem_singleton.mp hmissing
        exact .noSystem hnone
    · rcases Data.Members.mem_issuesAt_asText.mp hissue with ⟨v, hv, hnot, rfl, rfl⟩ | ⟨-, hnil⟩
      · exact .name hv hnot
      · cases hnil
    · obtain ⟨v, hv, hnot, rfl, rfl⟩ := Data.Members.mem_issuesAt_asTextOrNull.mp hissue
      exact .description hv hnot
    · rcases Data.Members.mem_issuesAt_iff.mp hissue with ⟨v, hv, hmem⟩ | ⟨-, hnil⟩
      · exact .fields hv ((mem_fieldsIssues_iff v rest fault).mp hmem)
      · cases hnil
  · intro hoff
    cases hoff with
    | notObject h => exact absurd rfl (h members)
    | noSystem h =>
      exact ⟨_, _, _, rfl, List.mem_of_getElem? (i := 0) rfl,
        Data.Members.mem_issuesAt_iff.mpr (Or.inr ⟨h, List.mem_singleton_self _⟩)⟩
    | system hv h =>
      exact ⟨_, _, _, rfl, List.mem_of_getElem? (i := 0) rfl,
        Data.Members.mem_issuesAt_iff.mpr (Or.inl ⟨_, hv, ((SystemInfo.reports_ofData _).mem _ _).mpr h⟩)⟩
    | name hv hnot =>
      exact ⟨_, _, _, rfl, List.mem_of_getElem? (i := 1) rfl,
        Data.Members.mem_issuesAt_asText.mpr (Or.inl ⟨_, hv, hnot, rfl, rfl⟩)⟩
    | description hv hnot =>
      exact ⟨_, _, _, rfl, List.mem_of_getElem? (i := 2) rfl,
        Data.Members.mem_issuesAt_asTextOrNull.mpr ⟨_, hv, hnot, rfl, rfl⟩⟩
    | fields hv h =>
      exact ⟨_, _, _, rfl, List.mem_of_getElem? (i := 3) rfl,
        Data.Members.mem_issuesAt_iff.mpr (Or.inl ⟨_, hv, (mem_fieldsIssues_iff _ _ _).mpr h⟩)⟩

theorem reports_ofData (d : Data) : (ofData d).Reports (Offends d) := by
  have hother (h : ∀ members, d ≠ .object members) (place : List Step) (fault : Fault) :
      Offends d place fault ↔ place = [] ∧ fault = .notObject modelName := by
    constructor
    · intro hoff
      cases hoff with
      | notObject => exact ⟨rfl, rfl⟩
      | _ => exact absurd rfl (h _)
    · rintro ⟨rfl, rfl⟩
      exact .notObject h
  cases d with
  | object members =>
    exact Checked.reports_of_parts (founded_ofMembers members) (issues_ofMembers members) (by simp [parts])
      (nodup_places_part members) (exists_part_iff members)
  | _ => exact Checked.reports_fault (hother nofun)

theorem valid_iff (d : Data) : Valid d ↔ ∀ place fault, ¬ Offends d place fault := by
  constructor
  · rintro ⟨⟨v, hv, hsystem⟩, name, description, fields⟩ place fault hoff
    cases hoff with
    | notObject h => exact h _ rfl
    | noSystem h => cases hv.symm.trans h
    | system hv' h =>
      cases hv.symm.trans hv'
      exact (SystemInfo.valid_iff v).mp hsystem _ _ h
    | name hv' hnot => exact hnot (name _ hv')
    | description hv' hnot => exact hnot (description _ hv')
    | fields hv' h => exact (areFields_iff _).mp (fields _ hv') _ _ h
  · intro hnone
    cases d with
    | object members =>
      refine .object ?_ (fun v hv => ?_) (fun v hv => ?_) fun v hv => ?_
      · cases hget : Data.Members.get? "sys" members with
        | none => exact absurd (.noSystem hget) (hnone _ _)
        | some v =>
          exact ⟨v, rfl, (SystemInfo.valid_iff v).mpr fun place fault h => hnone _ _ (.system hget h)⟩
      · by_contra hnot
        exact hnone _ _ (.name hv hnot)
      · by_contra hnot
        exact hnone _ _ (.description hv hnot)
      · exact (areFields_iff v).mpr fun place fault h => hnone _ _ (.fields hv h)
    | _ => exact absurd (.notObject nofun) (hnone _ _)

/-! ## What makes no difference -/

/-- Lists of fields that differ at most in what fields make no use of. -/
inductive AlikeFields : Data → Data → Prop
  | refl (d : Data) : AlikeFields d d
  | list {items others : List Data} (h : List.Forall₂ Field.Alike items others) :
      AlikeFields (.list items) (.list others)

/-- Data that differ at most in the constraints of fields and under keys that nothing is read from,
at any depth. -/
inductive Alike : Data → Data → Prop
  | refl (d : Data) : Alike d d
  | object {members others : Data.Members}
      (system : Option.Rel SystemInfo.Alike (members.get? "sys") (others.get? "sys"))
      (name : members.get? "name" = others.get? "name")
      (description : members.get? "description" = others.get? "description")
      (fields : Option.Rel AlikeFields (members.get? "fields") (others.get? "fields")) :
      Alike (.object members) (.object others)

theorem itemParts_alike {items others : List Data} (h : List.Forall₂ Field.Alike items others) (start : Nat) :
    itemParts (fun item => (Field.ofData item).issues) start items =
      itemParts (fun item => (Field.ofData item).issues) start others := by
  induction h generalizing start with
  | nil => rfl
  | cons halike _ ih =>
    simp only [itemParts, List.zipIdx_cons, List.map_cons, halike.issues_eq] at ih ⊢
    rw [ih]

theorem AlikeFields.issues_eq {d e : Data} (h : AlikeFields d e) : fieldsIssues d = fieldsIssues e := by
  cases h with
  | refl => rfl
  | list h => rw [fieldsIssues, fieldsIssues, itemParts_alike h]

theorem Alike.issues_eq {d e : Data} (h : Alike d e) : (ofData d).issues = (ofData e).issues := by
  cases h with
  | refl => rfl
  | @object members others system name description fields =>
    have hread (v : Data.Members) : (ofData (.object v)).issues = (parts v).issues := issues_ofMembers v
    have hsystem := Data.Members.issuesAt_rel system (fun _ _ h => h.issues_eq) [⟨[], .missing⟩]
    have hfields := Data.Members.issuesAt_rel fields (fun _ _ h => h.issues_eq) []
    rw [hread, hread, parts, parts, hsystem, hfields, Data.Members.issuesAt_congr name,
      Data.Members.issuesAt_congr description]

/-! ## Acceptance -/

/-- Data are read as a content type if, and only if, they are one, and as a field if, and only if, they
are one. Data that are no content type are reported with their faults, each at its place and no place
twice. None of this depends on constraints, nor on what stands under keys that nothing is read from.
-/
theorem ofData_acceptance (d : Data) :
    ((∃ ct, ofData d = .accepted ct) ↔ Valid d) ∧
    ((∃ f, Field.ofData d = .accepted f) ↔ Field.Valid d) ∧
    (∀ issues, ofData d = .rejected issues →
      (issues.map Issue.place).Nodup ∧
      ∀ place fault, ⟨place, fault⟩ ∈ issues ↔ Offends d place fault) ∧
    (∀ e, Alike d e → (ofData d).issues = (ofData e).issues ∧
      ((∃ ct, ofData d = .accepted ct) ↔ ∃ ct, ofData e = .accepted ct)) ∧
    (∀ e, Field.Alike d e → ((∃ f, Field.ofData d = .accepted f) ↔ ∃ f, Field.ofData e = .accepted f)) := by
  have hreports := reports_ofData d
  refine ⟨hreports.exists_accepted_iff.trans (valid_iff d).symm, Field.exists_accepted_iff d, ?_, ?_, ?_⟩
  · intro issues hrejected
    have hissues : (ofData d).issues = issues := by rw [hrejected, Checked.issues_rejected]
    exact hissues ▸ ⟨hreports.nodup, hreports.mem⟩
  · intro e halike
    exact ⟨halike.issues_eq, hreports.accepted_congr (reports_ofData e) halike.issues_eq⟩
  · intro e halike
    exact (Field.reports_ofData d).accepted_congr (Field.reports_ofData e) halike.issues_eq

/-- Data that are no content type: the id is a number, and so are one of the fields and what is said
of the items of another one. -/
def misfit : Data := .object [
  ("sys", .object [("id", .int 5)]),
  ("description", .null),
  ("fields", .list [
    .object [("id", .text "tags"), ("items", .object [("required", .int 2), ("validations", .int 1)])],
    .int 3])]

/-- The same data, but for the constraints of the items. -/
def misfitOtherwise : Data := .object [
  ("sys", .object [("id", .int 5)]),
  ("description", .null),
  ("fields", .list [
    .object [("id", .text "tags"), ("items", .object [("required", .int 2), ("other", .bool true)])],
    .int 3])]

theorem alike_misfit : Alike misfit misfitOtherwise := by
  have hitems : Field.Alike (.object [("required", .int 2), ("validations", .int 1)])
      (.object [("required", .int 2), ("other", .bool true)]) := .bare (by simp [Field.knownKeys, Data.Members.get?]) rfl rfl
  have hfield : Field.Alike
      (.object [("id", .text "tags"), ("items", .object [("required", .int 2), ("validations", .int 1)])])
      (.object [("id", .text "tags"), ("items", .object [("required", .int 2), ("other", .bool true)])]) :=
    .items (by simp [Field.knownKeys, Data.Members.get?]) rfl rfl hitems
  exact .object (.some (.refl _)) rfl rfl (.some (.list (.cons hfield (.cons (.refl _) .nil))))

theorem ofData_acceptance_misfit :
    ¬ Valid misfit ∧
    (∀ place fault, Offends misfit place fault ↔ ⟨place, fault⟩ ∈ [
      (⟨[.key "sys", .key "id"], .notText⟩ : Issue),
      ⟨[.key "fields", .index 0, .key "items", .key "required"], .noBooleanSpelling⟩,
      ⟨[.key "fields", .index 1], .notObject "FieldDefinition"⟩]) ∧
    (ofData misfit).issues = (ofData misfitOtherwise).issues := by
  obtain ⟨haccepted, -, hrejected, halike, -⟩ := ofData_acceptance misfit
  have hread : ofData misfit = .rejected [
      ⟨[.key "sys", .key "id"], .notText⟩,
      ⟨[.key "fields", .index 0, .key "items", .key "required"], .noBooleanSpelling⟩,
      ⟨[.key "fields", .index 1], .notObject "FieldDefinition"⟩] := rfl
  refine ⟨fun hvalid => ?_, fun place fault => ((hrejected _ hread).2 place fault).symm, (halike _ alike_misfit).1⟩
  obtain ⟨ct, hct⟩ := haccepted.mpr hvalid
  rw [hread] at hct
  cases hct

end ContentType

end Typings
