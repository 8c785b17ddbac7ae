/-! # Expansion

A value may refer to variables: `$` and a name in braces stand for the value of that variable, or
for a default behind `:-` if there is no such variable.
-/

namespace Typings.EnvFile

inductive Piece where
  | plain (c : Char)
  | reference (name : String) (default : Option String)
  deriving DecidableEq, Repr

/-- A reference after its opening brace, and what follows it. -/
def reference? (cs : List Char) : Option (Piece × List Char) :=
  match cs.span fun c => c != '}' && c != ':' with
  | (name, '}' :: rest) => some (.reference (String.ofList name) none, rest)
  | (name, ':' :: '-' :: rest) =>
    match rest.span (· != '}') with
    | (default, '}' :: rest) => some (.reference (String.ofList name) (some (String.ofList default)), rest)
    | _ => none
  | _ => none

def piecesFrom : Nat → List Char → List Piece
  | 0, _ => []
  | _, [] => []
  | fuel + 1, c :: rest =>
    match c, rest with
    | '$', '{' :: inner =>
      match reference? inner with
      | some (piece, after) => piece :: piecesFrom fuel after
      | none => .plain c :: piecesFrom fuel rest
    | _, _ => .plain c :: piecesFrom fuel rest

def pieces (s : String) : List Piece := piecesFrom s.length s.toList

/-- What a piece stands for. A variable that is known to have no value is empty, whatever the
default. -/
def Piece.expand (look : String → Option (Option String)) : Piece → String
  | .plain c => String.ofList [c]
  | .reference name default =>
    match look name with
    | some v => v.getD ""
    | none => default.getD ""

def expand (look : String → Option (Option String)) (s : String) : String :=
  String.join ((pieces s).map (Piece.expand look))

end Typings.EnvFile
