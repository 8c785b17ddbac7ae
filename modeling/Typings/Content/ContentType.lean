import Typings.Content.Field

/-! # Content types

A content type is a named kind of entry with fields in a fixed order.
-/

namespace Typings

structure SystemInfo where
  id : String
  type : String
  deriving DecidableEq, Repr

structure ContentType where
  system : SystemInfo
  name : String
  description : Option String
  fields : List Field
  deriving Repr

namespace SystemInfo

/-- The name under which rejections mention system parts. -/
def modelName : String := "ContentTypeSys"

def ofMembers (members : Data.Members) : Checked SystemInfo :=
  SystemInfo.mk <$> members.readOr (Checked.under (.key "id") (.fault .missing)) Scalar.asText "id"
    <*> members.readOr (.accepted "ContentType") Scalar.asText "type"

def ofData : Data → Checked SystemInfo
  | .object members => ofMembers members
  | _ => .fault (.notObject modelName)

def toData (s : SystemInfo) : Data := .object [("id", .text s.id), ("type", .text s.type)]

end SystemInfo

namespace ContentType

/-- The name under which rejections mention content types. -/
def modelName : String := "ContentTypeRecord"

def id (ct : ContentType) : String := ct.system.id

/-- The system part among the members; it must be there. -/
def systemOf (members : Data.Members) : Checked SystemInfo :=
  Checked.under (.key "sys") <|
    match members.get? "sys" with
    | some v => SystemInfo.ofData v
    | none => .fault .missing

def fieldsOf (members : Data.Members) : Checked (List Field) :=
  match members.get? "fields" with
  | some (.list items) => (Checked.each Field.ofData 0 items).under (.key "fields")
  | some _ => Checked.under (.key "fields") (.fault .notList)
  | none => .accepted []

def ofMembers (members : Data.Members) : Checked ContentType :=
  ContentType.mk <$> systemOf members
    <*> members.readOr (.accepted "") Scalar.asText "name"
    <*> members.text? "description"
    <*> fieldsOf members

def ofData : Data → Checked ContentType
  | .object members => ofMembers members
  | _ => .fault (.notObject modelName)

def toData (ct : ContentType) : Data := .object [
  ("sys", ct.system.toData),
  ("name", .text ct.name),
  ("description", Field.textOrNull ct.description),
  ("fields", .list (ct.fields.map Field.toData))]

end ContentType

end Typings
