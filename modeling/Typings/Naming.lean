/-! # Naming

Names that may stand in a declaration, made from arbitrary identifiers. Word characters are the
letters and digits of ASCII and the underscore; all others separate words.
-/

namespace Typings.Naming

def isWord (c : Char) : Bool := c.isAlphanum || c == '_'

/-! ## Type names -/

/-- Keeps the word characters and puts the first of each run of them into upper case. -/
def capitalize (atStart : Bool) : List Char → List Char
  | [] => []
  | c :: rest =>
    if isWord c then (if atStart then c.toUpper else c) :: capitalize false rest
    else capitalize true rest

/-- The type name of an identifier: its words joined, each with its first letter in upper case. -/
def typeName (identifier : String) : String := String.ofList (capitalize true identifier.toList)

/-! ## Property keys -/

/-- The identifier that stands in for a missing or empty one. -/
def missingKey : String := "field"

def isNameStart (c : Char) : Bool := c.isAlpha || c == '_'

/-- Every character that is no word character becomes an underscore. -/
def wordsOnly (cs : List Char) : List Char := cs.map fun c => if isWord c then c else '_'

/-- An underscore goes before a name that may not start as it does. -/
def mendStart : List Char → List Char
  | [] => ['_']
  | c :: rest => if isNameStart c then c :: rest else '_' :: c :: rest

def propertyKey (identifier : Option String) : String :=
  let base := match identifier with
    | some s => if s = "" then missingKey else s
    | none => missingKey
  String.ofList (mendStart (wordsOnly base.toList))

/-! ## Small laws -/

@[simp] theorem capitalize_nil (atStart : Bool) : capitalize atStart [] = [] := rfl

end Typings.Naming
