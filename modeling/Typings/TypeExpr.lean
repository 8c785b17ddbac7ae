import Typings.Decimal.Shortest
import Typings.Text.Quoted

/-! # Type expressions

The types that properties are declared with, and their text. Alternatives are joined by ` | `; an
array of several alternatives puts them in parentheses.
-/

namespace Typings

/-- A literal that is a type of its own. -/
inductive Literal where
  | text (value : String)
  | int (value : Int)
  | double (value : Double)
  deriving DecidableEq, Repr

/-- A type without parts that could need parentheses. -/
inductive SimpleType where
  | text
  | number
  | boolean
  | unknown
  /-- An object of any shape. -/
  | dictionary
  /-- A pair of coordinates. -/
  | location
  | document
  | asset
  | literal (value : Literal)
  /-- The declared type of the given name. -/
  | named (name : String)
  /-- An entry whose fields have the given type. -/
  | entryOf (fields : String)
  | unknownEntry
  deriving DecidableEq, Repr

inductive ArrayForm where
  | mutable
  | readonly
  deriving DecidableEq, Repr

/-- A type: one or more alternatives, or an array. -/
inductive TypeExpr where
  | oneOf (first : SimpleType) (others : List SimpleType)
  | array (form : ArrayForm) (element : TypeExpr)
  deriving DecidableEq, Repr

/-- The text of a literal. A double that is whole is written as that integer. -/
def Literal.render : Literal → String
  | .text s => Text.quote s
  | .int n => toString n
  | .double x =>
    match x.toInt? with
    | some n => toString n
    | none => x.text

def SimpleType.render : SimpleType → String
  | .text => "string"
  | .number => "number"
  | .boolean => "boolean"
  | .unknown => "unknown"
  | .dictionary => "Record<string, unknown>"
  | .location => "\x7b lat: number; lon: number \x7d"
  | .document => "Document"
  | .asset => "Asset"
  | .literal l => l.render
  | .named name => name
  | .entryOf fields => "Entry<" ++ fields ++ ">"
  | .unknownEntry => "Entry<unknown>"

def joinAlternatives (texts : List String) : String := " | ".intercalate texts

/-- Whether an element's text needs parentheses before `[]`. -/
def needsParens (inner : String) : Bool := inner.toList.any fun c => c == '|' || c == '&'

def ArrayForm.wrap : ArrayForm → String → String
  | .readonly, inner => "ReadonlyArray<" ++ inner ++ ">"
  | .mutable, inner => if needsParens inner then "(" ++ inner ++ ")[]" else inner ++ "[]"

def TypeExpr.render : TypeExpr → String
  | .oneOf first others => joinAlternatives (first.render :: others.map SimpleType.render)
  | .array form element => form.wrap element.render

example : (TypeExpr.array .mutable (.oneOf (.literal (.text "a|b")) [])).render = "(\"a|b\")[]" := by
  decide +kernel

end Typings
