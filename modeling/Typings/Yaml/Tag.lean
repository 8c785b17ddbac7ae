import Typings.Yaml.Moment

/-! # Tags

What kind of value a node is. A plain text without a tag is taken for a boolean, a number, a date or
nothing if it is spelled like one, and for a text otherwise.
-/

namespace Typings.Yaml

inductive Tag where
  | null
  | boolean
  | int
  | float
  | moment
  | text
  | bytes
  | sequence
  | mapping
  | set
  | orderedPairs
  | pairs
  /-- The mark of a mapping to be merged into another. -/
  | merge
  /-- The mark of a mapping's default value. -/
  | value
  | unknown
  deriving DecidableEq, Repr

namespace Tag

def standard : String := "tag:yaml.org,2002:"

def standardTags : List (String × Tag) := [
  ("null", .null), ("bool", .boolean), ("int", .int), ("float", .float), ("timestamp", .moment),
  ("str", .text), ("binary", .bytes), ("seq", .sequence), ("map", .mapping), ("set", .set),
  ("omap", .orderedPairs), ("pairs", .pairs), ("merge", .merge), ("value", .value)]

def ofAddress (address : String) : Tag :=
  ((standardTags.map fun (name, tag) => (standard ++ name, tag)).lookup address).getD .unknown

/-! ## Plain texts -/

def booleanWords : List (String × Bool) := [("yes", true), ("no", false), ("true", true), ("false", false),
  ("on", true), ("off", false)]

/-- A word in lower case, with a capital, or in upper case. -/
def spellings (word : String) : List String := [word, word.capitalize, word.toUpper]

def isBooleanWord (s : String) : Bool := booleanWords.any fun (word, _) => (spellings word).contains s

def isNullWord (s : String) : Bool := s == "" || s == "~" || (spellings "null").contains s

def isDigitOrLine (c : Char) : Bool := c.isDigit || c == '_'

def dropSign : List Char → List Char
  | '+' :: rest => rest
  | '-' :: rest => rest
  | cs => cs

/-- Whether characters are parts of base sixty: one or two digits each, after a colon. -/
def isSexagesimal : List Char → Bool
  | [':', a] => a.isDigit
  | [':', a, b] => '0' ≤ a && a ≤ '5' && b.isDigit
  | ':' :: a :: ':' :: rest => a.isDigit && isSexagesimal (':' :: rest)
  | ':' :: a :: b :: ':' :: rest => '0' ≤ a && a ≤ '5' && b.isDigit && isSexagesimal (':' :: rest)
  | _ => false

/-- Whether characters are an integer without its sign: binary, octal, sixteen or ten to the digit,
or base sixty. -/
def isUnsignedInt : List Char → Bool
  | '0' :: 'b' :: rest => !rest.isEmpty && rest.all fun c => c == '0' || c == '1' || c == '_'
  | '0' :: 'x' :: rest => !rest.isEmpty && rest.all fun c => (Data.Reader.hexValue? c).isSome || c == '_'
  | '0' :: rest => rest.all fun c => ('0' ≤ c && c ≤ '7') || c == '_'
  | c :: rest =>
    c.isDigit &&
      (let (_, after) := rest.span isDigitOrLine
       after.isEmpty || isSexagesimal after)
  | [] => false

/-- Whether characters are nothing, or the exponent of a number: its sign may not be left out. -/
def isExponent : List Char → Bool
  | [] => true
  | e :: s :: rest => (e == 'e' || e == 'E') && (s == '+' || s == '-') && !rest.isEmpty && rest.all Char.isDigit
  | _ => false

def isUnsignedFloat (cs : List Char) : Bool :=
  match cs with
  | c :: rest =>
    c.isDigit &&
      match rest.span isDigitOrLine with
      | (_, '.' :: after) => isExponent (after.dropWhile isDigitOrLine)
      | (_, ':' :: after) =>
        let (parts, tail) := (':' :: after).span fun c => c.isDigit || c == ':'
        isSexagesimal parts && tail.head? == some '.' && (tail.drop 1).all isDigitOrLine
      | _ => false
  | [] => false

/-- Whether characters are a number that starts with its point, which has no sign. -/
def isPointFloat : List Char → Bool
  | '.' :: d :: rest => d.isDigit && isExponent (rest.dropWhile isDigitOrLine)
  | _ => false

def isInfinity (cs : List Char) : Bool := [".inf", ".Inf", ".INF"].contains (String.ofList cs)

def isNan (cs : List Char) : Bool := [".nan", ".NaN", ".NAN"].contains (String.ofList cs)

def isFloat (cs : List Char) : Bool :=
  isUnsignedFloat (dropSign cs) || isPointFloat cs || isInfinity (dropSign cs) || isNan cs

def ofPlain (s : String) : Tag :=
  let cs := s.toList
  if isBooleanWord s then .boolean
  else if isFloat cs then .float
  else if isUnsignedInt (dropSign cs) then .int
  else if s == "<<" then .merge
  else if isNullWord s then .null
  else if Moment.isPlainMoment cs then .moment
  else if s == "=" then .value
  else .text

end Tag

end Typings.Yaml
