import Typings.TypeExpr
import Typings.Naming
import Typings.RenderOptions
import Typings.Content.Field

/-! # The type of a field

What a field is declared as: a union of literals if its constraints list any, and otherwise what its
type tag says. Links to entries name the content types of the run that they may point to; arrays
wrap the type of their items. What is malformed or unheard of is `unknown`, never an error.
-/

namespace Typings

/-! ## Type tags -/

/-- What the mapping knows of type tags. -/
inductive FieldKind where
  | text
  | number
  | boolean
  | dictionary
  | location
  | richText
  | link
  | array
  | other
  deriving DecidableEq, Repr

def FieldKind.ofTag : Option String → FieldKind
  | some "Symbol" | some "Text" | some "Slug" | some "Date" => .text
  | some "Integer" | some "Number" => .number
  | some "Boolean" => .boolean
  | some "Object" => .dictionary
  | some "Location" => .location
  | some "RichText" => .richText
  | some "Link" => .link
  | some "Array" => .array
  | _ => .other

inductive LinkKind where
  | asset
  | entry
  | other
  deriving DecidableEq, Repr

def LinkKind.ofTag : Option String → LinkKind
  | some "Asset" => .asset
  | some "Entry" => .entry
  | _ => .other

/-! ## Constraints -/

/-- A value that may stand as a literal type: texts and numbers, but no booleans. -/
def Literal.ofData? : Data → Option Literal
  | .text s => some (.text s)
  | .int n => some (.int n)
  | .double x => some (.double x)
  | _ => none

/-- The items that one constraint lists under a key; what is no list has none. -/
def listedUnder (key : String) (constraint : Data.Members) : List Data :=
  match constraint.get? key with
  | some (.list items) => items
  | _ => []

def literalsOf (constraints : List Data.Members) : List Literal :=
  constraints.flatMap fun c => (listedUnder "in" c).filterMap Literal.ofData?

def literalUnion (constraints : List Data.Members) : Option TypeExpr :=
  match literalsOf constraints with
  | [] => none
  | first :: others => some (.oneOf (.literal first) (others.map .literal))

def identifier? : Data → Option String
  | .text s => if s = "" then none else some s
  | _ => none

/-- The content types that a link may point to, in the order of its constraints. -/
def linkTargets (constraints : List Data.Members) : List String :=
  constraints.flatMap fun c => (listedUnder "linkContentType" c).filterMap identifier?

/-! ## Names -/

def RenderOptions.entryName (o : RenderOptions) (id : String) : String :=
  o.namePrefix ++ Naming.typeName id

def fieldsName (entryName : String) : String := entryName ++ "Fields"

def RenderOptions.arrayForm (o : RenderOptions) : ArrayForm :=
  if o.readonlyArrays then .readonly else .mutable

def RenderOptions.linkType (o : RenderOptions) (target : String) : SimpleType :=
  if o.linkAliases then .named (o.entryName target) else .entryOf (fieldsName (o.entryName target))

/-! ## The mapping -/

namespace Field

/-- How many levels of items are looked into below a field. -/
def nestingLimit : Nat := 32

/-- The type of a link to entries: its targets among the content types of the run. -/
def entryLinkType (ids : List String) (o : RenderOptions) (constraints : List Data.Members) : TypeExpr :=
  match (linkTargets constraints).filter ids.contains with
  | [] => .oneOf .unknownEntry []
  | first :: others => .oneOf (o.linkType first) (others.map o.linkType)

def linkedType (ids : List String) (o : RenderOptions) (spec : FieldSpec) : TypeExpr :=
  match LinkKind.ofTag spec.linkType with
  | .asset => .oneOf .asset []
  | .entry => entryLinkType ids o spec.validations
  | .other => .oneOf .unknown []

def taggedType (ids : List String) (o : RenderOptions) (spec : FieldSpec) (element : TypeExpr) : TypeExpr :=
  match FieldKind.ofTag spec.type with
  | .text => .oneOf .text []
  | .number => .oneOf .number []
  | .boolean => .oneOf .boolean []
  | .dictionary => .oneOf .dictionary []
  | .location => .oneOf .location []
  | .richText => .oneOf .document []
  | .link => linkedType ids o spec
  | .array => .array o.arrayForm element
  | .other => .oneOf .unknown []

/-- The type of a definition: the union of its literals, or else the type of its kind. -/
def levelType (ids : List String) (o : RenderOptions) (spec : FieldSpec) (element : TypeExpr) : TypeExpr :=
  (literalUnion spec.validations).getD (taggedType ids o spec element)

/-- The type of a definition and the items below it, looking no further down than `room` levels. -/
def chainType (ids : List String) (o : RenderOptions) : Nat → FieldSpec → List FieldSpec → TypeExpr
  | room + 1, spec, item :: deeper => levelType ids o spec (chainType ids o room item deeper)
  | _, spec, _ => levelType ids o spec (.oneOf .unknown [])

/-- The type that a field is declared with, without any mark of optionality. -/
def typeExpr (ids : List String) (o : RenderOptions) (f : Field) : TypeExpr :=
  chainType ids o nestingLimit f.spec f.items

/-- The key that a field is declared under: its id, or its name if it has no id. -/
def propertyKey (f : Field) : String :=
  Naming.propertyKey <|
    match f.spec.id with
    | some id => if id = "" then f.spec.name else some id
    | none => f.spec.name

end Field

structure Property where
  name : String
  type : TypeExpr
  required : Bool
  deriving DecidableEq, Repr

def Field.property (ids : List String) (o : RenderOptions) (f : Field) : Property :=
  ⟨f.propertyKey, f.typeExpr ids o, f.spec.required⟩

end Typings
