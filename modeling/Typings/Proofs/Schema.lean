import Typings.Proofs.Content.ContentType
import Typings.Proofs.Settings.ProjectKeys
import Typings.RenderOptions

/-!
# What is written is read back

Fields, content types, render options and project files are written under their own names, with all
members and in one form for each value, whatever the data looked like that they were read from. What
is written is read as the same value.
-/

namespace Typings

/-! ## Schemas -/

/-- A kind of value that is read from data and written as data. -/
structure Schema (α : Type) where
  read : Data → Checked α
  write : α → Data
  /-- The keys of what is written. -/
  names : List String

namespace Schema

variable {α : Type} {schema : Schema α}

/-- Data in the form that they are written in. -/
def normalize (schema : Schema α) (d : Data) : Checked Data := schema.write <$> schema.read d

/-- Reading and writing are inverse to each other. -/
structure Lawful (schema : Schema α) : Prop where
  names : ∀ a, ∃ members, schema.write a = .object members ∧ members.map Prod.fst = schema.names
  read_write : ∀ a, schema.read (schema.write a) = .accepted a
  write_injective : ∀ a b, schema.write a = schema.write b → a = b
  /-- Normal data mean what the data meant that they were made from, and stay as they are. -/
  normalize : ∀ d a, schema.read d = .accepted a →
    ∃ e, schema.normalize d = .accepted e ∧ schema.read e = .accepted a ∧ schema.normalize e = .accepted e

theorem lawful_of_read_write (hread : ∀ a, schema.read (schema.write a) = .accepted a)
    (hnames : ∀ a, ∃ members, schema.write a = .object members ∧ members.map Prod.fst = schema.names) :
    schema.Lawful := by
  have hnormal {d : Data} {a : α} (h : schema.read d = .accepted a) :
      schema.normalize d = .accepted (schema.write a) := by
    unfold normalize
    rw [h, Checked.map_accepted]
  refine ⟨hnames, hread, ?_, ?_⟩
  · intro a b h
    have hsame := hread b
    rw [← h, hread a] at hsame
    exact Checked.accepted.inj hsame
  · intro d a h
    exact ⟨schema.write a, hnormal h, hread a, hnormal (hread a)⟩

end Schema

/-! ## Fields -/

namespace Field

theorem asTextOrNull_textOrNull (o : Option String) : (textOrNull o).scalar.asTextOrNull = .accepted o := by
  cases o <;> rfl

theorem text?_of_get? {members : Data.Members} {key : String} {o : Option String}
    (h : members.get? key = some (textOrNull o)) : members.text? key = .accepted o := by
  unfold Data.Members.text? Data.Members.readOr
  rw [h]
  exact Checked.under_eq_accepted_iff.mpr (asTextOrNull_textOrNull o)

theorem constraints_objects (validations : List Data.Members) :
    constraints (some (.list (validations.map .object))) = validations := by
  unfold constraints
  simp [List.filterMap_map]

theorem exists_members (spec : FieldSpec) (items : Data) :
    ∃ members : Data.Members, specToData spec items = .object members ∧ specOfMembers members = .accepted spec ∧
      members.get? "items" = some items := by
  refine ⟨_, rfl, ?_, rfl⟩
  rw [specOfMembers_eq_accepted_iff]
  -- Links are read under their other key, since only that one is written.
  have hlink : linkTypeKey [("id", textOrNull spec.id), ("name", textOrNull spec.name),
      ("type", textOrNull spec.type), ("required", .bool spec.required), ("note", textOrNull spec.note),
      ("validations", .list (spec.validations.map .object)), ("link_type", textOrNull spec.linkType),
      ("items", items)] = "link_type" := rfl
  refine ⟨?_, ?_, ?_, rfl, ?_, constraints_objects spec.validations, ?_⟩
  · exact text?_of_get? rfl
  · exact text?_of_get? rfl
  · exact text?_of_get? rfl
  · exact text?_of_get? rfl
  · rw [hlink]
    exact text?_of_get? rfl

theorem ofData_toData (f : Field) : ofData f.toData = .accepted f := by
  obtain ⟨spec, items⟩ := f
  induction items generalizing spec with
  | nil =>
    obtain ⟨members, hobject, hspec, hitems⟩ := exists_members spec .null
    have hwritten : toData ⟨spec, []⟩ = .object members := hobject
    rw [hwritten, ofData_object_eq_accepted_iff, itemsOf_eq_accepted_iff, hitems]
    refine ⟨hspec, Or.inl ⟨?_, rfl⟩⟩
    intro v hv
    exact (Option.some.inj hv).symm
  | cons item deeper ih =>
    obtain ⟨members, hobject, hspec, hitems⟩ := exists_members spec (toData ⟨item, deeper⟩)
    have hwritten : toData ⟨spec, item :: deeper⟩ = .object members := hobject
    rw [hwritten, ofData_object_eq_accepted_iff, itemsOf_eq_accepted_iff]
    have hne : toData ⟨item, deeper⟩ ≠ .null := by
      intro h
      cases h
    exact ⟨hspec, Or.inr ⟨toData ⟨item, deeper⟩, ⟨item, deeper⟩, hitems, hne, ih item, rfl⟩⟩

def schema : Schema Field where
  read := ofData
  write := toData
  names := ["id", "name", "type", "required", "note", "validations", "link_type", "items"]

theorem lawful_schema : schema.Lawful :=
  Schema.lawful_of_read_write ofData_toData fun _ => ⟨_, rfl, rfl⟩

end Field

/-! ## Content types -/

namespace SystemInfo

def schema : Schema SystemInfo where
  read := ofData
  write := toData
  names := ["id", "type"]

theorem ofData_toData (s : SystemInfo) : ofData s.toData = .accepted s := rfl

theorem lawful_schema : schema.Lawful :=
  Schema.lawful_of_read_write ofData_toData fun _ => ⟨_, rfl, rfl⟩

end SystemInfo

theorem Checked.each_map {α : Type} {read : Data → Checked α} {write : α → Data}
    (h : ∀ a, read (write a) = .accepted a) (start : Nat) (as : List α) :
    each read start (as.map write) = .accepted as := by
  induction as generalizing start with
  | nil => rfl
  | cons a rest ih =>
    rw [List.map_cons, each, h, ih]
    rfl

namespace ContentType

theorem ofData_toData (ct : ContentType) : ofData ct.toData = .accepted ct := by
  obtain ⟨system, name, description, fields⟩ := ct
  have hfields := Checked.each_map Field.ofData_toData 0 fields
  have hread : ∃ members : Data.Members, toData ⟨system, name, description, fields⟩ = .object members ∧
      systemOf members = .accepted system ∧ members.readOr (.accepted "") Scalar.asText "name" = .accepted name ∧
      members.text? "description" = .accepted description ∧ fieldsOf members = .accepted fields := by
    refine ⟨_, rfl, rfl, rfl, Field.text?_of_get? rfl, ?_⟩
    exact Checked.under_eq_accepted_iff.mpr hfields
  obtain ⟨members, hobject, hsystem, hname, hdescription, hfields⟩ := hread
  rw [hobject, ofData, ofMembers, hsystem, hname, hdescription, hfields]
  rfl

def schema : Schema ContentType where
  read := ofData
  write := toData
  names := ["sys", "name", "description", "fields"]

theorem lawful_schema : schema.Lawful :=
  Schema.lawful_of_read_write ofData_toData fun _ => ⟨_, rfl, rfl⟩

end ContentType

/-! ## Options and project files -/

namespace RenderOptions

def schema : Schema RenderOptions where
  read := ofData
  write := toData
  names := ["prefix", "include_undefined_on_optional", "arrays_readonly", "prefer_linked_aliases",
    "brand_content_type_id"]

theorem ofData_toData (o : RenderOptions) : ofData o.toData = .accepted o := rfl

theorem lawful_schema : schema.Lawful :=
  Schema.lawful_of_read_write ofData_toData fun _ => ⟨_, rfl, rfl⟩

end RenderOptions

namespace ProjectFile

def boolOrNull : Option Bool → Data
  | some b => .bool b
  | none => .null

theorem asBooleanOrNull_boolOrNull (o : Option Bool) : (boolOrNull o).scalar.asBooleanOrNull = .accepted o := by
  cases o <;> rfl

theorem ofData_toData (p : ProjectFile) : ofData p.toData = .accepted p := by
  obtain ⟨space, environment, out, namePrefix, undefinedOptionals, readonlyArrays, aliases, brand, format⟩ := p
  unfold toData ofData
  refine ofEntries_eq_accepted_iff.mpr ⟨?_, fun k key hkey => ?_⟩
  · simp [entriesOf, Entries.strayKey?, Entries.readKeys, Entries.spelling, Entries.get?]
  · cases k with
    | token => cases hkey
    | space | environment | outFile | namePrefix =>
      cases List.mem_singleton.mp hkey
      exact Checked.under_eq_accepted_iff.mpr (Field.asTextOrNull_textOrNull _)
    | _ =>
      cases List.mem_singleton.mp hkey
      exact Checked.under_eq_accepted_iff.mpr (asBooleanOrNull_boolOrNull _)

def schema : Schema ProjectFile where
  read := ofData
  write := toData
  names := ["space", "environment", "out", "prefix", "undefined_optionals", "readonly_arrays", "aliases",
    "brand", "format"]

theorem lawful_schema : schema.Lawful :=
  Schema.lawful_of_read_write ofData_toData fun _ => ⟨_, rfl, rfl⟩

end ProjectFile

/-- Whatever is accepted is written in a form that is accepted as the same value. Writing names every
part, drops none, and does not change what is already in that form. -/
theorem schemas_lawful :
    Field.schema.Lawful ∧ SystemInfo.schema.Lawful ∧ ContentType.schema.Lawful ∧ RenderOptions.schema.Lawful ∧
      ProjectFile.schema.Lawful :=
  ⟨Field.lawful_schema, SystemInfo.lawful_schema, ContentType.lawful_schema, RenderOptions.lawful_schema,
    ProjectFile.lawful_schema⟩

/-- A field of which one member is under its other name, one is null, and one is no object. -/
def looseField : Data :=
  .object [("linkType", .text "Entry"), ("required", .null), ("validations", .list [.int 1, .object []])]

theorem schemas_lawful_looseField :
    ∃ e f, Field.schema.read looseField = .accepted f ∧ Field.schema.normalize looseField = .accepted e ∧
      Field.schema.read e = .accepted f ∧ Field.schema.normalize e = .accepted e ∧
      e = .object [("id", .null), ("name", .null), ("type", .null), ("required", .bool false), ("note", .null),
        ("validations", .list [.object []]), ("link_type", .text "Entry"), ("items", .null)] := by
  obtain ⟨hfield, -⟩ := schemas_lawful
  have hread : Field.schema.read looseField =
      .accepted ⟨⟨none, none, none, false, none, [[]], some "Entry"⟩, []⟩ := rfl
  obtain ⟨e, hnormal, hsame, hagain⟩ := hfield.normalize _ _ hread
  refine ⟨e, _, hread, hnormal, hsame, hagain, ?_⟩
  cases hnormal
  rfl

end Typings
