import Typings.Acceptance

/-! # Fields

A field of a content type. An array field describes its items by a further definition, which may
describe items again: a field is the outermost definition together with the chain of item
definitions below it.
-/

namespace Typings

/-- One definition: what a field, or the items of an array field, are said to be. -/
structure FieldSpec where
  id : Option String
  name : Option String
  /-- The tag of the field's type; any text may occur. -/
  type : Option String
  required : Bool
  note : Option String
  /-- The constraints on the field's values, unread. -/
  validations : List Data.Members
  linkType : Option String
  deriving Repr

/-- A field: its definition and the item definitions below it, from the outside in. -/
structure Field where
  spec : FieldSpec
  items : List FieldSpec
  deriving Repr

namespace Field

/-- The name under which rejections mention fields. -/
def modelName : String := "FieldDefinition"

/-- The constraints in a value: what is no list counts as an empty one, and items that are no
objects are skipped. -/
def constraints : Option Data → List Data.Members
  | some (.list items) => items.filterMap fun item =>
    match item with
    | .object members => some members
    | _ => none
  | _ => []

/-- The key that gives the link type: the first of the two spellings that is present. -/
def linkTypeKey (members : Data.Members) : String :=
  if (members.get? "linkType").isSome then "linkType" else "link_type"

/-- Whether a field is required; absent and null mean that it is not. -/
def requiredFlag : Scalar → Checked Bool
  | .null => .accepted false
  | s => s.asBoolean

def specOfMembers (members : Data.Members) : Checked FieldSpec :=
  FieldSpec.mk <$> members.text? "id" <*> members.text? "name" <*> members.text? "type"
    <*> members.readOr (.accepted false) requiredFlag "required"
    <*> members.text? "note"
    <*> pure (constraints (members.get? "validations"))
    <*> members.text? (linkTypeKey members)

def specs (f : Field) : List FieldSpec := f.spec :: f.items

mutual

def ofData : Data → Checked Field
  | .object members => Field.mk <$> specOfMembers members <*> itemsOf members
  | _ => .fault (.notObject modelName)

def itemsOf : List (String × Data) → Checked (List FieldSpec)
  | [] => .accepted []
  | (key, value) :: rest =>
    if key = "items" then
      if value.scalar = .null then .accepted []
      else (specs <$> ofData value).under (.key "items")
    else itemsOf rest

end

/-! ## Writing -/

def textOrNull : Option String → Data
  | some s => .text s
  | none => .null

def specToData (spec : FieldSpec) (items : Data) : Data := .object [
  ("id", textOrNull spec.id),
  ("name", textOrNull spec.name),
  ("type", textOrNull spec.type),
  ("required", .bool spec.required),
  ("note", textOrNull spec.note),
  ("validations", .list (spec.validations.map .object)),
  ("link_type", textOrNull spec.linkType),
  ("items", items)]

/-- A field, written with all its members at every level. -/
def toData (f : Field) : Data := specToData f.spec (f.items.foldr specToData .null)

end Field

end Typings
