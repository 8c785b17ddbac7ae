/-! # Paths

Paths by their components. Repeated and trailing slashes and the component `.` carry no meaning and
are dropped; `..` is kept, since what it leads to depends on the tree.
-/

namespace Typings

inductive Anchor where
  /-- The folder that a run is in. -/
  | here
  | root
  /-- A root written with exactly two slashes, which stays apart. -/
  | doubleRoot
  /-- The folder that holds the whole work tree. Its place is not known, and texts write it as
  `<CWD>`. -/
  | workplace
  deriving DecidableEq, Repr

structure Path where
  anchor : Anchor
  parts : List String
  deriving DecidableEq, Repr

namespace Path

def components : List Char → List Char → List (List Char)
  | current, [] => [current.reverse]
  | current, c :: rest =>
    if c = '/' then current.reverse :: components [] rest else components (c :: current) rest

def isPart (s : String) : Bool := s != "" && s != "."

/-- The anchor that leading slashes mean: two of them are special, three or more are one. -/
def anchorOf (cs : List Char) : Anchor :=
  match (cs.takeWhile (· == '/')).length with
  | 0 => .here
  | 2 => .doubleRoot
  | _ => .root

def ofText (s : String) : Path :=
  ⟨anchorOf s.toList, ((components [] s.toList).map String.ofList).filter isPart⟩

def Anchor.text : Anchor → String
  | .here => ""
  | .root => "/"
  | .doubleRoot => "//"
  | .workplace => "<CWD>/"

/-- The text of a path; the folder of the run itself is a point. -/
def text (p : Path) : String :=
  match p.anchor, p.parts with
  | .here, [] => "."
  | .workplace, [] => "<CWD>"
  | anchor, parts => Anchor.text anchor ++ "/".intercalate parts

/-- The path without its last component; a path without components is its own parent. -/
def parent (p : Path) : Path := ⟨p.anchor, p.parts.dropLast⟩

def child (p : Path) (name : String) : Path := ⟨p.anchor, p.parts ++ [name]⟩

example : (ofText "./a//b/../c.d.ts").text = "a/b/../c.d.ts" := by decide +kernel
example : (ofText "").text = "." := by decide +kernel
example : (ofText "//abs/x").text = "//abs/x" := by decide +kernel
example : (ofText "///abs/x/").text = "/abs/x" := by decide +kernel

end Path

end Typings
