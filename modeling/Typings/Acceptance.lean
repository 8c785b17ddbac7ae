import Typings.Data
import Typings.Text.Utf8

/-! # Acceptance

Reading untyped values as typed ones. Nothing is guessed: a value that does not fit is a fault,
reported with its place, and a reading collects all faults instead of stopping at the first.
-/

namespace Typings

/-! ## Faults -/

inductive Fault where
  /-- A required member is absent. -/
  | missing
  | notText
  /-- The value is bytes, but those of no text. -/
  | notUnicode
  /-- The value is of a kind that can spell a boolean, but does not. -/
  | noBooleanSpelling
  | notBoolean
  | notList
  | notObject (model : String)
  | unknownKey
  | keyNotText
  deriving DecidableEq, Repr

def Fault.code : Fault → String
  | .missing => "missing"
  | .notText => "string_type"
  | .notUnicode => "string_unicode"
  | .noBooleanSpelling => "bool_parsing"
  | .notBoolean => "bool_type"
  | .notList => "list_type"
  | .notObject _ => "model_type"
  | .unknownKey => "extra_forbidden"
  | .keyNotText => "invalid_key"

def Fault.message : Fault → String
  | .missing => "Field required"
  | .notText => "Input should be a valid string"
  | .notUnicode => "Input should be a valid string, unable to parse raw data as a unicode string"
  | .noBooleanSpelling => "Input should be a valid boolean, unable to interpret input"
  | .notBoolean => "Input should be a valid boolean"
  | .notList => "Input should be a valid list"
  | .notObject model => "Input should be a valid dictionary or instance of " ++ model
  | .unknownKey => "Extra inputs are not permitted"
  | .keyNotText => "Keys should be strings"

inductive Step where
  | key (name : String)
  | index (position : Nat)
  deriving DecidableEq, Repr

def Step.text : Step → String
  | .key name => name
  | .index position => toString position

/-- A fault and the steps from the value that was read to the place of the fault. -/
structure Issue where
  place : List Step
  fault : Fault
  deriving DecidableEq, Repr

def Issue.placeText (i : Issue) : String := ".".intercalate (i.place.map Step.text)

/-! ## Readings -/

/-- The outcome of a reading: a value, or all the issues that stand against it. -/
inductive Checked (α : Type) where
  | accepted (value : α)
  | rejected (issues : List Issue)
  deriving Repr

namespace Checked

variable {α β : Type}

def fault (f : Fault) : Checked α := .rejected [⟨[], f⟩]

def map (f : α → β) : Checked α → Checked β
  | .accepted a => .accepted (f a)
  | .rejected issues => .rejected issues

def apply : Checked (α → β) → Checked α → Checked β
  | .accepted f, .accepted a => .accepted (f a)
  | .accepted _, .rejected issues => .rejected issues
  | .rejected issues, .accepted _ => .rejected issues
  | .rejected issues, .rejected more => .rejected (issues ++ more)

instance : Functor Checked where
  map := map

instance : Pure Checked where
  pure := .accepted

instance : Seq Checked where
  seq f a := apply f (a ())

/-- The reading of a part, seen from the whole: its issues lie one step further away. -/
def under (step : Step) : Checked α → Checked α
  | .accepted a => .accepted a
  | .rejected issues => .rejected (issues.map fun i => ⟨step :: i.place, i.fault⟩)

def withIssues (issues : List Issue) (c : Checked α) : Checked α :=
  match issues, c with
  | [], c => c
  | issues, .accepted _ => .rejected issues
  | issues, .rejected more => .rejected (more ++ issues)

/-- Reads every item of a list, each at its index from `start` on. -/
def each (read : α → Checked β) : Nat → List α → Checked (List β)
  | _, [] => .accepted []
  | start, a :: rest => apply (map List.cons (under (.index start) (read a))) (each read (start + 1) rest)

@[simp] theorem map_accepted (f : α → β) (a : α) : f <$> (accepted a) = accepted (f a) := rfl

@[simp] theorem map_rejected (f : α → β) (issues : List Issue) :
    f <$> (rejected issues : Checked α) = rejected issues := rfl

end Checked

/-! ## Single values -/

/-- What the reader of a single value sees: lists, objects and the like are no single values. -/
inductive Scalar where
  | null
  | bool (value : Bool)
  | int (value : Int)
  | double (value : Double)
  | text (value : String)
  | bytes (content : List UInt8)
  | composite
  deriving DecidableEq, Repr

def Data.scalar : Data → Scalar
  | .null => .null
  | .bool b => .bool b
  | .int n => .int n
  | .double x => .double x
  | .text s => .text s
  | .list _ => .composite
  | .object _ => .composite

namespace Scalar

/-- A text, given as such or by its bytes; no other kind of value is turned into one. -/
def asText : Scalar → Checked String
  | .text s => .accepted s
  | .bytes content =>
    match Text.Utf8.decodeFrom 0 content with
    | .ok cs => .accepted (String.ofList cs)
    | .error _ => .fault .notUnicode
  | _ => .fault .notText

def asTextOrNull : Scalar → Checked (Option String)
  | .null => .accepted none
  | s => some <$> s.asText

/-- The spellings of a boolean, in any case. -/
def boolean? (s : String) : Option Bool :=
  let word := s.toLower
  if ["0", "off", "f", "false", "n", "no"].contains word then some false
  else if ["1", "on", "t", "true", "y", "yes"].contains word then some true
  else none

/-- The integers that a machine word of 64 bits holds. -/
def fitsWord (n : Int) : Bool := -(Nat.pow 2 63 : Int) ≤ n && n < Nat.pow 2 63

/-- A boolean written as an integer. -/
def ofInt (n : Int) : Checked Bool :=
  if n = 0 then .accepted false
  else if n = 1 then .accepted true
  else if fitsWord n then .fault .noBooleanSpelling
  else .fault .notBoolean

/-- A boolean by its spelling. -/
def ofSpelling (s : String) : Checked Bool :=
  match boolean? s with
  | some b => .accepted b
  | none => .fault .noBooleanSpelling

/-- A boolean, or a spelling of one: a word, a number that is zero or one. -/
def asBoolean : Scalar → Checked Bool
  | .bool b => .accepted b
  | .int n => ofInt n
  | .double x =>
    match x.toInt? with
    | some n => if n = -(Nat.pow 2 63 : Int) then .fault .notBoolean else ofInt n
    | none => .fault .notBoolean
  | .text s => ofSpelling s
  | .bytes content =>
    match Text.Utf8.decodeFrom 0 content with
    | .ok cs => ofSpelling (String.ofList cs)
    | .error _ => .fault .noBooleanSpelling
  | .null => .fault .notBoolean
  | .composite => .fault .notBoolean

def asBooleanOrNull : Scalar → Checked (Option Bool)
  | .null => .accepted none
  | s => some <$> s.asBoolean

end Scalar

/-! ## Members of an object -/

namespace Data.Members

variable {α : Type}

/-- Reads the member under a key; an absent member has the given value. -/
def readOr (absent : Checked α) (read : Scalar → Checked α) (key : String) (members : Members) : Checked α :=
  match members.get? key with
  | some v => (read v.scalar).under (.key key)
  | none => absent

/-- An optional text: absent and null are the same. -/
def text? (key : String) (members : Members) : Checked (Option String) :=
  members.readOr (.accepted none) Scalar.asTextOrNull key

/-- One issue for each key that is not among the known ones. -/
def unknownKeys (known : List String) (members : Members) : List Issue :=
  (members.filter fun m => !known.contains m.1).map fun m => ⟨[.key m.1], .unknownKey⟩

end Data.Members

end Typings
