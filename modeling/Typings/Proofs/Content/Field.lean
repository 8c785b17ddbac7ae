import Typings.Content.Field
import Typings.Proofs.Acceptance

/-!
# Which data are fields

A field is an object whose known members are of the right kind, and so are the members of its items,
to any depth. What stands against other data is listed here place by place, without reading them.
What constraints hold, and what stands under keys that no field has, makes no difference.
-/

namespace Typings.Field

/-! ## Fields as data -/

/-- The keys of the members that are texts or null. -/
def textKeys (members : Data.Members) : List String := ["id", "name", "type", "note", linkTypeKey members]

/-- Data that are a field: members may be absent, and items may be null. -/
inductive Valid : Data → Prop
  | object {members : Data.Members}
      (texts : ∀ key ∈ textKeys members, ∀ v, members.get? key = some v → v.IsTextOrNull)
      (required : ∀ v, members.get? "required" = some v → v = .null ∨ v.SpellsBoolean)
      (items : ∀ v, members.get? "items" = some v → v ≠ .null → Valid v) : Valid (.object members)

/-- The faults of data as a field, each with the place that it is at. -/
inductive Offends : Data → List Step → Fault → Prop
  | notObject {d : Data} (h : ∀ members, d ≠ .object members) : Offends d [] (.notObject modelName)
  | text {members : Data.Members} {key : String} {v : Data} (hkey : key ∈ textKeys members)
      (hv : members.get? key = some v) (h : ¬ v.IsTextOrNull) : Offends (.object members) [.key key] .notText
  | required {members : Data.Members} {v : Data} {f : Fault} (hv : members.get? "required" = some v)
      (hne : v ≠ .null) (h : v.BooleanFault f) : Offends (.object members) [.key "required"] f
  | items {members : Data.Members} {v : Data} {place : List Step} {f : Fault}
      (hv : members.get? "items" = some v) (hne : v ≠ .null) (h : Offends v place f) :
      Offends (.object members) (.key "items" :: place) f

/-! ## What reading reports -/

/-- What stands against the items under a key. -/
def itemsIssues (v : Data) : List Issue := if v.scalar = .null then [] else (ofData v).issues

/-- The members that reading looks at, with what stands against each. -/
def parts (members : Data.Members) : Parts :=
  let text (key : String) : Step × List Issue :=
    (.key key, members.issuesAt [] (fun v => (Scalar.asTextOrNull v.scalar).issues) key)
  [text "id", text "name", text "type",
    (.key "required", members.issuesAt [] (fun v => (requiredFlag v.scalar).issues) "required"),
    text "note", text (linkTypeKey members),
    (.key "items", members.issuesAt [] itemsIssues "items")]

theorem itemsOf_eq (members : Data.Members) :
    itemsOf members =
      match members.get? "items" with
      | some v => if v.scalar = .null then .accepted [] else (specs <$> ofData v).under (.key "items")
      | none => .accepted [] := by
  induction members with
  | nil => rfl
  | cons m rest ih =>
    obtain ⟨key, value⟩ := m
    rw [itemsOf, Data.Members.get?]
    by_cases hkey : key = "items"
    · rw [if_pos hkey, if_pos hkey]
    · rw [if_neg hkey, if_neg hkey, ih]

theorem issues_itemsOf (members : Data.Members) :
    (itemsOf members).issues = (members.issuesAt [] itemsIssues "items").map (Issue.below (.key "items")) := by
  rw [itemsOf_eq, Data.Members.issuesAt]
  cases members.get? "items" with
  | none => rfl
  | some v =>
    simp only [itemsIssues]
    split
    · rfl
    · rw [Checked.issues_under, Checked.issues_map]

theorem issues_ofData_object (members : Data.Members) :
    (ofData (.object members)).issues = (parts members).issues := by
  have hrequired : (members.readOr (.accepted false) requiredFlag "required").issues =
      (members.issuesAt [] (fun v => (requiredFlag v.scalar).issues) "required").map
        (Issue.below (.key "required")) :=
    members.issues_readOr _ [] _ "required" rfl
  rw [ofData, specOfMembers]
  simp only [Checked.issues_seq, Checked.issues_map, Checked.issues_pure, Data.Members.issues_text?, hrequired,
    issues_itemsOf]
  simp [Parts.issues, parts]

theorem requiredFlag_of_ne_null {d : Data} (h : d ≠ .null) : requiredFlag d.scalar = Scalar.asBoolean d.scalar := by
  cases d with
  | null => exact absurd rfl h
  | _ => rfl

theorem single_requiredFlag (d : Data) : (requiredFlag d.scalar).Single := by
  by_cases h : d = .null
  · subst h
    exact Or.inl ⟨false, rfl⟩
  · rw [requiredFlag_of_ne_null h]
    exact Scalar.single_asBoolean d

theorem mem_issues_requiredFlag (d : Data) (i : Issue) :
    i ∈ (requiredFlag d.scalar).issues ↔ d ≠ .null ∧ ∃ f, d.BooleanFault f ∧ i = ⟨[], f⟩ := by
  by_cases h : d = .null
  · subst h
    simp [requiredFlag, Data.scalar]
  · rw [requiredFlag_of_ne_null h, Scalar.mem_issues_asBoolean]
    simp [h]

theorem mem_itemsIssues {d : Data} {i : Issue} : i ∈ itemsIssues d ↔ d ≠ .null ∧ i ∈ (ofData d).issues := by
  unfold itemsIssues
  by_cases h : d = .null
  · simp [h, Data.scalar]
  · rw [if_neg (mt Data.scalar_eq_null_iff.mp h)]
    simp [h]

theorem mem_requiredIssues {members : Data.Members} {place : List Step} {f : Fault} :
    ⟨place, f⟩ ∈ members.issuesAt [] (fun v => (requiredFlag v.scalar).issues) "required" ↔
      ∃ v, members.get? "required" = some v ∧ v ≠ .null ∧ v.BooleanFault f ∧ place = [] := by
  simp [Data.Members.mem_issuesAt_iff, mem_issues_requiredFlag, and_comm]

theorem mem_itemsIssuesAt {members : Data.Members} {i : Issue} :
    i ∈ members.issuesAt [] itemsIssues "items" ↔
      ∃ v, members.get? "items" = some v ∧ v ≠ .null ∧ i ∈ (ofData v).issues := by
  simp [Data.Members.mem_issuesAt_iff, mem_itemsIssues]

/-- From a field, reading goes on to its items only. -/
theorem data_induction {P : Data → Prop} (other : ∀ d, (∀ members, d ≠ .object members) → P d)
    (object : ∀ members : Data.Members, (∀ v, members.get? "items" = some v → P v) → P (.object members))
    (d : Data) : P d := by
  cases d with
  | object members =>
    refine object members fun v hv => ?_
    have hlt := Data.Members.sizeOf_lt_of_get? hv
    exact data_induction other object v
  | _ => exact other _ nofun
termination_by sizeOf d

/-! ## The issues are the faults -/

theorem nodup_steps_parts (members : Data.Members) : ((parts members).map Prod.fst).Nodup := by
  unfold parts linkTypeKey
  simp only [List.map_cons, List.map_nil]
  split <;> decide

theorem founded_specOfMembers (members : Data.Members) : (specOfMembers members).Founded := by
  have htext (key : String) : (members.text? key).Founded := members.founded_text? key
  have hrequired : (members.readOr (.accepted false) requiredFlag "required").Founded :=
    members.founded_readOr (Checked.founded_accepted false) (fun v => (single_requiredFlag v).founded) _
  exact (((((((htext "id").map _).seq (htext "name")).seq (htext "type")).seq hrequired).seq
    (htext "note")).seq (Checked.founded_accepted _)).seq (htext _)

theorem founded_itemsOf {members : Data.Members}
    (h : ∀ v, members.get? "items" = some v → (ofData v).Founded) : (itemsOf members).Founded := by
  rw [itemsOf_eq]
  cases hget : members.get? "items" with
  | none => exact Checked.founded_accepted []
  | some v =>
    dsimp only
    split
    · exact Checked.founded_accepted []
    · exact ((h v hget).map specs).under _

theorem nodup_places_part {members : Data.Members}
    (h : ∀ v, members.get? "items" = some v → ((ofData v).issues.map Issue.place).Nodup) :
    ∀ part ∈ parts members, (part.2.map Issue.place).Nodup := by
  have htext (key : String) := members.nodup_places_text? key
  have hrequired :
      ((members.issuesAt [] (fun v => (requiredFlag v.scalar).issues) "required").map Issue.place).Nodup :=
    Data.Members.nodup_places_issuesAt List.nodup_nil fun v _ => (single_requiredFlag v).nodup_places
  have hitems : ((members.issuesAt [] itemsIssues "items").map Issue.place).Nodup := by
    refine Data.Members.nodup_places_issuesAt List.nodup_nil fun v hv => ?_
    unfold itemsIssues
    split
    · exact List.nodup_nil
    · exact h v hv
  simp only [parts, List.forall_mem_cons, List.not_mem_nil, false_imp_iff, implies_true, and_true]
  exact ⟨htext _, htext _, htext _, hrequired, htext _, htext _, hitems⟩

theorem exists_part_iff {members : Data.Members}
    (h : ∀ v, members.get? "items" = some v → ∀ place fault,
      ⟨place, fault⟩ ∈ (ofData v).issues ↔ Offends v place fault) (place : List Step) (fault : Fault) :
    (∃ step rest is, place = step :: rest ∧ (step, is) ∈ parts members ∧ ⟨rest, fault⟩ ∈ is) ↔
      Offends (.object members) place fault := by
  constructor
  · rintro ⟨step, rest, is, rfl, hpart, hissue⟩
    have htext (key : String) (hkey : key ∈ textKeys members)
        (h : ⟨rest, fault⟩ ∈ members.issuesAt [] (fun v => (Scalar.asTextOrNull v.scalar).issues) key) :
        Offends (.object members) (.key key :: rest) fault := by
      obtain ⟨v, hv, hnot, rfl, rfl⟩ := Data.Members.mem_issuesAt_asTextOrNull.mp h
      exact .text hkey hv hnot
    simp only [parts, List.mem_cons, Prod.mk.injEq, List.not_mem_nil, or_false] at hpart
    rcases hpart with ⟨rfl, rfl⟩ | ⟨rfl, rfl⟩ | ⟨rfl, rfl⟩ | ⟨rfl, rfl⟩ | ⟨rfl, rfl⟩ | ⟨rfl, rfl⟩ | ⟨rfl, rfl⟩
    · exact htext _ (by simp [textKeys]) hissue
    · exact htext _ (by simp [textKeys]) hissue
    · exact htext _ (by simp [textKeys]) hissue
    · obtain ⟨v, hv, hne, hfault, rfl⟩ := mem_requiredIssues.mp hissue
      exact .required hv hne hfault
    · exact htext _ (by simp [textKeys]) hissue
    · exact htext _ (by simp [textKeys]) hissue
    · obtain ⟨v, hv, hne, hmem⟩ := mem_itemsIssuesAt.mp hissue
      exact .items hv hne ((h v hv rest fault).mp hmem)
  · intro hoff
    cases hoff with
    | notObject h => exact absurd rfl (h members)
    | text hkey hv hnot =>
      refine ⟨_, _, _, rfl, ?_, Data.Members.mem_issuesAt_asTextOrNull.mpr ⟨_, hv, hnot, rfl, rfl⟩⟩
      simp only [textKeys, List.mem_cons, List.not_mem_nil, or_false] at hkey
      rcases hkey with rfl | rfl | rfl | rfl | rfl <;> simp [parts]
    | required hv hne hfault =>
      exact ⟨_, _, _, rfl, by simp [parts], mem_requiredIssues.mpr ⟨_, hv, hne, hfault, rfl⟩⟩
    | items hv hne hoff =>
      exact ⟨_, _, _, rfl, by simp [parts], mem_itemsIssuesAt.mpr ⟨_, hv, hne, (h _ hv _ _).mpr hoff⟩⟩

theorem reports_ofData (d : Data) : (ofData d).Reports (Offends d) := by
  induction d using data_induction with
  | other d h =>
    have hread : ofData d = .fault (.notObject modelName) := by
      cases d with
      | object members => exact absurd rfl (h members)
      | _ => rfl
    rw [hread]
    refine Checked.reports_fault fun place fault => ⟨fun hoff => ?_, ?_⟩
    · cases hoff with
      | notObject => exact ⟨rfl, rfl⟩
      | _ => exact absurd rfl (h _)
    · rintro ⟨rfl, rfl⟩
      exact .notObject h
  | object members ih =>
    have hfounded : (ofData (.object members)).Founded := by
      rw [ofData]
      exact ((founded_specOfMembers members).map _).seq (founded_itemsOf fun v hv => (ih v hv).founded)
    exact Checked.reports_of_parts hfounded (issues_ofData_object members) (nodup_steps_parts members)
      (nodup_places_part fun v hv => (ih v hv).nodup) (exists_part_iff fun v hv => (ih v hv).mem)

theorem valid_iff (d : Data) : Valid d ↔ ∀ place fault, ¬ Offends d place fault := by
  induction d using data_induction with
  | other d h =>
    refine iff_of_false ?_ fun hnone => hnone _ _ (.notObject h)
    rintro ⟨⟩
    exact h _ rfl
  | object members ih =>
    constructor
    · rintro ⟨texts, required, items⟩ place fault hoff
      cases hoff with
      | notObject h => exact h _ rfl
      | text hkey hv hnot => exact hnot (texts _ hkey _ hv)
      | required hv hne h => exact h.not_spells ((required _ hv).resolve_left hne)
      | items hv hne h => exact (ih _ hv).mp (items _ hv hne) _ _ h
    · intro hnone
      refine .object (fun key hkey v hv => ?_) (fun v hv => ?_) fun v hv hne => ?_
      · by_contra hnot
        exact hnone _ _ (.text hkey hv hnot)
      · by_contra hnot
        obtain ⟨hne, hspells⟩ := not_or.mp hnot
        obtain ⟨f, hf⟩ := Data.exists_booleanFault hspells
        exact hnone _ _ (.required hv hne hf)
      · exact (ih v hv).mpr fun place fault hoff => hnone _ _ (.items hv hne hoff)

theorem exists_accepted_iff (d : Data) : (∃ f, ofData d = .accepted f) ↔ Valid d :=
  (reports_ofData d).exists_accepted_iff.trans (valid_iff d).symm

/-! ## What a field is read from -/

theorem specOfMembers_eq_accepted_iff {members : Data.Members} {s : FieldSpec} :
    specOfMembers members = .accepted s ↔
      members.text? "id" = .accepted s.id ∧ members.text? "name" = .accepted s.name ∧
      members.text? "type" = .accepted s.type ∧
      members.readOr (.accepted false) requiredFlag "required" = .accepted s.required ∧
      members.text? "note" = .accepted s.note ∧ constraints (members.get? "validations") = s.validations ∧
      members.text? (linkTypeKey members) = .accepted s.linkType := by
  have hpure {c : List Data.Members} {v : List Data.Members} :
      (pure c : Checked (List Data.Members)) = .accepted v ↔ c = v :=
    ⟨Checked.accepted.inj, congrArg Checked.accepted⟩
  unfold specOfMembers
  simp only [Checked.seq_eq_accepted_iff, Checked.map_eq_accepted_iff, hpure]
  constructor
  · rintro ⟨-, ⟨-, ⟨-, ⟨-, ⟨-, ⟨-, ⟨id, hid, rfl⟩, name, hname, rfl⟩, type, htype, rfl⟩, required, hrequired, rfl⟩,
      note, hnote, rfl⟩, validations, hvalidations, rfl⟩, link, hlink, rfl⟩
    exact ⟨hid, hname, htype, hrequired, hnote, hvalidations, hlink⟩
  · rintro ⟨hid, hname, htype, hrequired, hnote, hvalidations, hlink⟩
    exact ⟨_, ⟨_, ⟨_, ⟨_, ⟨_, ⟨_, ⟨_, hid, rfl⟩, _, hname, rfl⟩, _, htype, rfl⟩, _, hrequired, rfl⟩,
      _, hnote, rfl⟩, _, hvalidations, rfl⟩, _, hlink, rfl⟩

theorem ofData_object_eq_accepted_iff {members : Data.Members} {f : Field} :
    ofData (.object members) = .accepted f ↔
      specOfMembers members = .accepted f.spec ∧ itemsOf members = .accepted f.items := by
  rw [ofData, Checked.seq_eq_accepted_iff]
  simp only [Checked.map_eq_accepted_iff]
  constructor
  · rintro ⟨-, ⟨spec, hspec, rfl⟩, items, hitems, rfl⟩
    exact ⟨hspec, hitems⟩
  · rintro ⟨hspec, hitems⟩
    exact ⟨_, ⟨_, hspec, rfl⟩, _, hitems, rfl⟩

theorem itemsOf_eq_accepted_iff {members : Data.Members} {items : List FieldSpec} :
    itemsOf members = .accepted items ↔
      ((∀ v, members.get? "items" = some v → v = .null) ∧ items = []) ∨
        ∃ v f, members.get? "items" = some v ∧ v ≠ .null ∧ ofData v = .accepted f ∧ items = f.specs := by
  rw [itemsOf_eq]
  cases members.get? "items" with
  | none => simp [eq_comm]
  | some v =>
    dsimp only
    by_cases hnull : v = .null
    · rw [if_pos (Data.scalar_eq_null_iff.mpr hnull)]
      simp [hnull, eq_comm]
    · rw [if_neg (mt Data.scalar_eq_null_iff.mp hnull), Checked.under_eq_accepted_iff, Checked.map_eq_accepted_iff]
      simp [hnull, eq_comm]

/-! ## What makes no difference -/

/-- The keys of the members that a field is read from, but for its items and its constraints. -/
def knownKeys : List String := ["id", "name", "type", "required", "note", "linkType", "link_type"]

/-- Data that differ at most in their constraints and under keys that no field has, at any depth. -/
inductive Alike : Data → Data → Prop
  | refl (d : Data) : Alike d d
  | bare {members others : Data.Members} (known : ∀ key ∈ knownKeys, members.get? key = others.get? key)
      (absent : members.get? "items" = none) (absent' : others.get? "items" = none) :
      Alike (.object members) (.object others)
  | items {members others : Data.Members} {v w : Data}
      (known : ∀ key ∈ knownKeys, members.get? key = others.get? key)
      (there : members.get? "items" = some v) (there' : others.get? "items" = some w) (alike : Alike v w) :
      Alike (.object members) (.object others)

theorem parts_congr {members others : Data.Members}
    (hknown : ∀ key ∈ knownKeys, members.get? key = others.get? key)
    (hitems : members.issuesAt [] itemsIssues "items" = others.issuesAt [] itemsIssues "items") :
    parts members = parts others := by
  have hread (key : String) (hkey : key ∈ knownKeys) (read : Data → List Issue) :
      members.issuesAt [] read key = others.issuesAt [] read key :=
    Data.Members.issuesAt_congr (hknown key hkey) [] read
  have hlink : linkTypeKey members = linkTypeKey others := by
    rw [linkTypeKey, linkTypeKey, hknown "linkType" (by decide)]
  have hlinkRead (read : Data → List Issue) :
      members.issuesAt [] read (linkTypeKey others) = others.issuesAt [] read (linkTypeKey others) := by
    refine hread _ ?_ read
    unfold linkTypeKey
    split <;> decide
  unfold parts
  simp only [hlink, hlinkRead, hitems, hread _ (show "id" ∈ knownKeys by decide),
    hread _ (show "name" ∈ knownKeys by decide), hread _ (show "type" ∈ knownKeys by decide),
    hread _ (show "required" ∈ knownKeys by decide), hread _ (show "note" ∈ knownKeys by decide)]

theorem Alike.issues_eq {d e : Data} (h : Alike d e) : (ofData d).issues = (ofData e).issues := by
  induction h with
  | refl d => rfl
  | bare known absent absent' =>
    rw [issues_ofData_object, issues_ofData_object, parts_congr known]
    rw [Data.Members.issuesAt, Data.Members.issuesAt, absent, absent']
  | @items members others v w known there there' alike ih =>
    rw [issues_ofData_object, issues_ofData_object, parts_congr known]
    have hnull : v.scalar = .null ↔ w.scalar = .null := by
      rw [Data.scalar_eq_null_iff, Data.scalar_eq_null_iff]
      cases alike with
      | refl => rfl
      | bare => simp
      | items => simp
    rw [Data.Members.issuesAt, Data.Members.issuesAt, there, there']
    simp only [itemsIssues, hnull, ih]

end Typings.Field
