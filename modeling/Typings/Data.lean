import Typings.Decimal.Shortest

/-! # Data

Untyped values, as a data file or a server's answer holds them. An object keeps its members in the
order in which their keys first occurred, and has each key once.
-/

namespace Typings

inductive Data where
  | null
  | bool (value : Bool)
  | int (value : Int)
  | double (value : Double)
  | text (value : String)
  | list (items : List Data)
  | object (members : List (String × Data))
  deriving BEq, Repr, Inhabited

namespace Data

/-- The members of an object: its keys with their values. -/
abbrev Members := List (String × Data)

def Members.get? (key : String) : Members → Option Data
  | [] => none
  | (k, v) :: rest => if k = key then some v else get? key rest

/-- Puts a value under a key: a key that is there keeps its place and takes the new value. -/
def Members.put (key : String) (value : Data) : Members → Members
  | [] => [(key, value)]
  | (k, v) :: rest => if k = key then (k, value) :: rest else (k, v) :: put key value rest

def get? (key : String) : Data → Option Data
  | .object members => Members.get? key members
  | _ => none

/-- Whether a condition given as data holds: nothing, zero and what is empty count as false. -/
def holds : Data → Bool
  | .null => false
  | .bool b => b
  | .int n => n != 0
  | .double (.finite _ significand _) => significand != 0
  | .double _ => true
  | .text s => s != ""
  | .list items => !items.isEmpty
  | .object members => !members.isEmpty

/-! ## Small laws -/

@[simp] theorem Members.get?_put_self (key : String) (value : Data) (members : Members) :
    Members.get? key (Members.put key value members) = some value := by
  induction members with
  | nil => simp [Members.put, Members.get?]
  | cons m rest ih =>
    obtain ⟨k, v⟩ := m
    by_cases h : k = key <;> simp [Members.put, Members.get?, h, ih]

theorem Members.get?_put_of_ne {key other : String} (h : other ≠ key) (value : Data) (members : Members) :
    Members.get? other (Members.put key value members) = Members.get? other members := by
  induction members with
  | nil => simp [Members.put, Members.get?, Ne.symm h]
  | cons m rest ih =>
    obtain ⟨k, v⟩ := m
    by_cases hk : k = key
    · subst hk; simp [Members.put, Members.get?, Ne.symm h]
    · simp [Members.put, Members.get?, hk, ih]

end Data

end Typings
