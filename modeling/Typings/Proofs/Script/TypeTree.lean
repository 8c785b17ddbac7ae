import Typings.Proofs.Script.Quotation
import Typings.Proofs.Script.Token

/-!
# Type expressions read from tokens

`[]` and `["key"]` bind tightest, then `&`, then `|`; parentheses only group. The reader goes from
left to right and keeps the brackets that are open.
-/

namespace Typings.Script

/-- The number that a literal type holds: a whole number as its value, any other as it is written.
-/
inductive Quantity where
  | whole (value : Int)
  | decimal (text : String)
  deriving DecidableEq, Repr

structure Label where
  name : String
  optional : Bool
  deriving DecidableEq, Repr

inductive TypeTree where
  | named (name : String) (arguments : List TypeTree)
  | text (value : String)
  | number (value : Quantity)
  | object (members : List (Label × TypeTree))
  | array (element : TypeTree)
  /-- The type that another one has under a key. -/
  | part (whole : TypeTree) (key : String)
  | oneOf (alternatives : List TypeTree)
  | allOf (parts : List TypeTree)
  deriving Repr

namespace TypeTree

/-- A node over several types; one alone stands for itself. -/
def joined (node : List TypeTree → TypeTree) (before : List TypeTree) (last : TypeTree) : TypeTree :=
  match before with
  | [] => last
  | _ => node (before ++ [last])

/-- A union of types; one alone stands for itself. -/
def union : List TypeTree → TypeTree
  | [t] => t
  | ts => .oneOf ts

/-- The alternatives of a union, in order; any other type is its own alternative. -/
def alternatives : TypeTree → List TypeTree
  | .oneOf ts => ts
  | t => [t]

mutual

/-- The type names that a type mentions. Keys and literals are none. -/
def names : TypeTree → List String
  | .named name arguments => name :: namesOfAll arguments
  | .text _ => []
  | .number _ => []
  | .object members => namesOfMembers members
  | .array element => element.names
  | .part whole _ => whole.names
  | .oneOf ts => namesOfAll ts
  | .allOf ts => namesOfAll ts

def namesOfAll : List TypeTree → List String
  | [] => []
  | t :: rest => t.names ++ namesOfAll rest

def namesOfMembers : List (Label × TypeTree) → List String
  | [] => []
  | (_, t) :: rest => t.names ++ namesOfMembers rest

end

end TypeTree

/-! ## The reader -/

/-- What stands before an operand on its level: whole alternatives, and parts of the alternative
that is being read. -/
structure Level where
  alternatives : List TypeTree
  parts : List TypeTree
  deriving Repr

def Level.empty : Level := ⟨[], []⟩

/-- The last alternative, once an operand ends it. -/
def Level.alternative (l : Level) (t : TypeTree) : TypeTree := TypeTree.joined .allOf l.parts t

def Level.all (l : Level) (t : TypeTree) : List TypeTree := l.alternatives ++ [l.alternative t]

def Level.close (l : Level) (t : TypeTree) : TypeTree :=
  TypeTree.joined .oneOf l.alternatives (l.alternative t)

inductive Opening where
  | group
  | arguments (name : String) (before : List TypeTree)
  | member (before : List (Label × TypeTree)) (label : Label)
  deriving Repr

/-- The open brackets, the innermost first, each with the level it stands on. -/
abbrev Stack := List (Level × Opening)

inductive Reading where
  /-- A type must follow. -/
  | operand (level : Level) (stack : Stack)
  | minus (level : Level) (stack : Stack)
  /-- A type has been read, which an operator or a bracket may follow. -/
  | operator (level : Level) (type : TypeTree) (stack : Stack)
  | bracket (level : Level) (type : TypeTree) (stack : Stack)
  | keyed (level : Level) (type : TypeTree) (key : String) (stack : Stack)
  /-- The name of a member or the end of an object must follow. -/
  | member (before : List (Label × TypeTree)) (level : Level) (stack : Stack)
  | labelled (before : List (Label × TypeTree)) (label : Label) (level : Level) (stack : Stack)
  deriving Repr

def quantity (negative : Bool) (text : String) : Quantity :=
  if text.toList.all Char.isDigit then
    let n := Nat.ofDigitChars 10 text.toList 0
    .whole (if negative then -(n : Int) else n)
  else .decimal (if negative then "-" ++ text else text)

/-- A closing bracket or a separator ends the type of its level. -/
def Reading.close (c : Char) (type : TypeTree) : Stack → Option Reading
  | (outer, .group) :: rest => if c = ')' then some (.operator outer type rest) else none
  | (outer, .arguments name before) :: rest =>
    if c = ',' then some (.operand .empty ((outer, .arguments name (before ++ [type])) :: rest))
    else if c = '>' then some (.operator outer (.named name (before ++ [type])) rest)
    else none
  | (outer, .member before label) :: rest =>
    if c = ';' then some (.member (before ++ [(label, type)]) outer rest)
    else if c = '\x7d' then some (.operator outer (.object (before ++ [(label, type)])) rest)
    else none
  | [] => none

def Reading.step : Reading → Token → Option Reading
  | .operand level stack, .word name => some (.operator level (.named name []) stack)
  | .operand level stack, .number text => some (.operator level (.number (quantity false text)) stack)
  | .operand level stack, .quoted _ body =>
    (valueOf body).map fun value => .operator level (.text value) stack
  | .operand level stack, .punct c =>
    if c = '-' then some (.minus level stack)
    else if c = '(' then some (.operand .empty ((level, .group) :: stack))
    else if c = '\x7b' then some (.member [] level stack)
    else none
  | .minus level stack, .number text => some (.operator level (.number (quantity true text)) stack)
  | .operator level type stack, .punct c =>
    if c = '[' then some (.bracket level type stack)
    else if c = '&' then some (.operand { level with parts := level.parts ++ [type] } stack)
    else if c = '|' then some (.operand ⟨level.alternatives ++ [level.alternative type], []⟩ stack)
    else if c = '<' then
      match type with
      | .named name [] => some (.operand .empty ((level, .arguments name []) :: stack))
      | _ => none
    else Reading.close c (level.close type) stack
  | .bracket level type stack, .punct c =>
    if c = ']' then some (.operator level (.array type) stack) else none
  | .bracket level type stack, .quoted _ body =>
    (valueOf body).map fun key => .keyed level type key stack
  | .keyed level type key stack, .punct c =>
    if c = ']' then some (.operator level (.part type key) stack) else none
  | .member before level stack, .word name => some (.labelled before ⟨name, false⟩ level stack)
  | .member before level stack, .punct c =>
    if c = '\x7d' then some (.operator level (.object before) stack) else none
  | .labelled before label level stack, .punct c =>
    if c = '?' && !label.optional then some (.labelled before ⟨label.name, true⟩ level stack)
    else if c = ':' then some (.operand .empty ((level, .member before label) :: stack))
    else none
  | _, _ => none

def Reading.run : Reading → List Token → Option Reading
  | r, [] => some r
  | r, t :: rest => (r.step t).bind fun r' => r'.run rest

def readType (ts : List Token) : Option TypeTree :=
  match (Reading.operand .empty []).run ts with
  | some (.operator level type []) => some (level.close type)
  | _ => none

def typeOf (text : String) : Option TypeTree := (scan text).bind fun ts => readType (code ts)

example : typeOf "a | b[]" = some (.oneOf [.named "a" [], .array (.named "b" [])]) := by rfl
example : typeOf "(a | b)[]" = some (.array (.oneOf [.named "a" [], .named "b" []])) := by rfl

/-! ## Small laws -/

@[simp] theorem Reading.run_nil (r : Reading) : r.run [] = some r := rfl

@[simp] theorem Reading.run_cons (r : Reading) (t : Token) (ts : List Token) :
    r.run (t :: ts) = (r.step t).bind fun r' => r'.run ts := rfl

theorem Reading.run_append (r : Reading) (ts us : List Token) :
    r.run (ts ++ us) = (r.run ts).bind fun r' => r'.run us := by
  induction ts generalizing r with
  | nil => rfl
  | cons t rest ih =>
    rw [List.cons_append, Reading.run_cons, Reading.run_cons]
    cases r.step t with
    | none => rfl
    | some r' => exact ih r'

@[simp] theorem TypeTree.namesOfAll_append (ts us : List TypeTree) :
    TypeTree.namesOfAll (ts ++ us) = TypeTree.namesOfAll ts ++ TypeTree.namesOfAll us := by
  induction ts with
  | nil => rfl
  | cons t rest ih => simp [TypeTree.namesOfAll, ih]

/-! ## Unions -/

theorem Level.close_eq_union (l : Level) (t : TypeTree) : l.close t = TypeTree.union (l.all t) := by
  unfold close all
  cases l.alternatives with
  | nil => rfl
  | cons first rest => cases rest <;> rfl

theorem TypeTree.alternatives_union {ts : List TypeTree} (hne : ts ≠ [])
    (h : ∀ t ∈ ts, t.alternatives = [t]) : (union ts).alternatives = ts := by
  match ts with
  | [] => contradiction
  | [t] => exact h t List.mem_cons_self
  | _ :: _ :: _ => rfl

theorem TypeTree.names_union (ts : List TypeTree) : (union ts).names = namesOfAll ts := by
  match ts with
  | [] => rfl
  | [t] => simp [union, namesOfAll]
  | _ :: _ :: _ => rfl

theorem TypeTree.mem_namesOfAll {name : String} {ts : List TypeTree} :
    name ∈ namesOfAll ts ↔ ∃ t ∈ ts, name ∈ t.names := by
  induction ts with
  | nil => simp [namesOfAll]
  | cons t rest ih => simp [namesOfAll, ih]

theorem TypeTree.namesOfAll_alternatives (t : TypeTree) : namesOfAll t.alternatives = t.names := by
  cases t <;> simp [alternatives, namesOfAll, names]

end Typings.Script
