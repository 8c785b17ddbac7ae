import Typings.Acceptance

/-! # Render options

The choices that shape the declarations: how names begin, and which of several equivalent forms is
printed.
-/

namespace Typings

structure RenderOptions where
  /-- What every generated name begins with. -/
  namePrefix : String := "I"
  /-- Whether an optional property may also hold `undefined` explicitly. -/
  undefinedOnOptional : Bool := true
  /-- Whether arrays are printed in their read-only form. -/
  readonlyArrays : Bool := false
  /-- Whether a link names the entry type rather than its container form. -/
  linkAliases : Bool := true
  /-- Whether an entry type carries the literal id of its content type. -/
  brandEntries : Bool := true
  deriving DecidableEq, Repr

namespace RenderOptions

/-- The name under which rejections mention render options. -/
def modelName : String := "RenderOptions"

/-- The options that the members of an object give; an absent one has its default. -/
def ofMembers (members : Data.Members) : Checked RenderOptions :=
  let flag (key : String) (default : Bool) : Checked Bool :=
    members.readOr (.accepted default) Scalar.asBoolean key
  Checked.withIssues
    (members.unknownKeys ["prefix", "include_undefined_on_optional", "arrays_readonly",
      "prefer_linked_aliases", "brand_content_type_id"])
    (RenderOptions.mk <$> members.readOr (.accepted "I") Scalar.asText "prefix"
      <*> flag "include_undefined_on_optional" true
      <*> flag "arrays_readonly" false
      <*> flag "prefer_linked_aliases" true
      <*> flag "brand_content_type_id" true)

def ofData : Data → Checked RenderOptions
  | .object members => ofMembers members
  | _ => .fault (.notObject modelName)

def toData (o : RenderOptions) : Data := .object [
  ("prefix", .text o.namePrefix),
  ("include_undefined_on_optional", .bool o.undefinedOnOptional),
  ("arrays_readonly", .bool o.readonlyArrays),
  ("prefer_linked_aliases", .bool o.linkAliases),
  ("brand_content_type_id", .bool o.brandEntries)]

end RenderOptions

end Typings
