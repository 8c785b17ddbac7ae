/-! # Blocks of declarations

Interfaces whose members lie on lines of their own, indented by two spaces for each level.
-/

namespace Typings

/-- The type of a member, laid out: on the member's line, or as an indented block after a lead. -/
inductive Layout where
  | line (type : String)
  | block (lead : String) (members : List (String × Layout))

namespace Layout

def spaces (n : Nat) : String := String.ofList (List.replicate n ' ')

mutual

/-- One member and the line end after it, at the given indentation. -/
def member (indent : Nat) (name : String) : Layout → String
  | .line type => spaces indent ++ name ++ ": " ++ type ++ ";\n"
  | .block lead members =>
    spaces indent ++ name ++ ": " ++ lead ++ "\x7b\n" ++ memberLines (indent + 2) members
      ++ spaces indent ++ "\x7d;\n"

def memberLines (indent : Nat) : List (String × Layout) → String
  | [] => ""
  | (name, layout) :: rest => member indent name layout ++ memberLines indent rest

end

end Layout

/-- An exported interface: what stands between the keyword and the brace, and its members. -/
structure Interface where
  head : String
  members : List (String × Layout)

/-- The interface without a line end after it. -/
def Interface.render (i : Interface) : String :=
  "export interface " ++ i.head ++ " \x7b\n" ++ Layout.memberLines 2 i.members ++ "\x7d"

end Typings
