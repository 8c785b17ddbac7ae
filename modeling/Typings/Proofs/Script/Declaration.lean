import Typings.Proofs.Script.Token

/-!
# Declarations read from tokens

A file is read as a sequence of exported interfaces and type aliases. The types in them are kept as
their tokens: a type goes on up to the token that ends it outside all brackets.
-/

namespace Typings.Script

structure Member where
  name : String
  optional : Bool
  type : List Token
  deriving DecidableEq, Repr

/-- A type parameter, and the type after its `extends`, if there is one. -/
structure Parameter where
  name : String
  bound : List Token
  deriving DecidableEq, Repr

inductive Declaration.Body where
  | interface (parent : List Token) (members : List Member)
  | alias (type : List Token)
  deriving DecidableEq, Repr

structure Declaration where
  name : String
  parameters : List Parameter
  body : Declaration.Body
  deriving DecidableEq, Repr

/-- The types that are written in a declaration: what bounds its parameters, its parent, the types
of its members, and what an alias stands for. -/
def Declaration.types (d : Declaration) : List (List Token) :=
  (d.parameters.map Parameter.bound).filter (· ≠ []) ++
    match d.body with
    | .interface parent members => [parent].filter (· ≠ []) ++ members.map Member.type
    | .alias type => [type]

/-! ## Brackets -/

def closing (c : Char) : Option Char :=
  if c = '<' then some '>' else if c = '(' then some ')' else if c = '[' then some ']'
  else if c = '\x7b' then some '\x7d' else none

def isClosing (c : Char) : Bool := c = '>' || c = ')' || c = ']' || c = '\x7d'

/-- The closing brackets that are due, the innermost first, after one more token. -/
def nest (due : List Char) : Token → Option (List Char)
  | .punct c =>
    match closing c with
    | some d => some (d :: due)
    | none =>
      if isClosing c then
        match due with
        | d :: rest => if c = d then some rest else none
        | [] => none
      else some due
  | _ => some due

/-! ## The reader -/

inductive Form where
  | interface
  | alias
  deriving DecidableEq, Repr

/-- What has been read of a declaration before its body. -/
structure Header where
  form : Form
  name : String
  parameters : List Parameter

def Header.with (h : Header) (p : Parameter) : Header := { h with parameters := h.parameters ++ [p] }

/-- An interface that is being read: its header, its parent and its members so far. -/
structure Unfinished where
  header : Header
  parent : List Token
  members : List Member

def Unfinished.finish (u : Unfinished) : Declaration :=
  ⟨u.header.name, u.header.parameters, .interface u.parent u.members⟩

def Unfinished.with (u : Unfinished) (m : Member) : Unfinished := { u with members := u.members ++ [m] }

/-- Where the reader stands. A type that is being read comes with the closing brackets that are due
in it. -/
inductive Place where
  | outside
  | exported
  | keyword (form : Form)
  | header (h : Header)
  | parameter (h : Header)
  | parameterName (h : Header) (name : String)
  | bound (h : Header) (name : String) (due : List Char) (type : List Token)
  | parent (h : Header) (due : List Char) (type : List Token)
  | body (u : Unfinished)
  | label (u : Unfinished) (name : String)
  | optionalLabel (u : Unfinished) (name : String)
  | memberType (u : Unfinished) (name : String) (optional : Bool) (due : List Char) (type : List Token)
  | aliasType (h : Header) (due : List Char) (type : List Token)

def Place.step (p : Place) (t : Token) : Option (Reached Place Declaration) :=
  match p with
  | .outside => if t = .word "export" then some (.exported, []) else none
  | .exported =>
    if t = .word "interface" then some (.keyword .interface, [])
    else if t = .word "type" then some (.keyword .alias, [])
    else none
  | .keyword form =>
    match t with
    | .word name => some (.header ⟨form, name, []⟩, [])
    | _ => none
  | .header h =>
    if t = .punct '<' ∧ h.parameters = [] then some (.parameter h, [])
    else
      match h.form with
      | .interface =>
        if t = .punct '\x7b' then some (.body ⟨h, [], []⟩, [])
        else if t = .word "extends" then some (.parent h [] [], [])
        else none
      | .alias => if t = .punct '=' then some (.aliasType h [] [], []) else none
  | .parameter h =>
    match t with
    | .word name => some (.parameterName h name, [])
    | _ => none
  | .parameterName h name =>
    if t = .punct ',' then some (.parameter (h.with ⟨name, []⟩), [])
    else if t = .punct '>' then some (.header (h.with ⟨name, []⟩), [])
    else if t = .word "extends" then some (.bound h name [] [], [])
    else none
  | .bound h name due type =>
    if t = .punct ',' ∧ due = [] then some (.parameter (h.with ⟨name, type⟩), [])
    else if t = .punct '>' ∧ due = [] then some (.header (h.with ⟨name, type⟩), [])
    else (nest due t).map fun due' => (.bound h name due' (type ++ [t]), [])
  | .parent h due type =>
    if t = .punct '\x7b' ∧ due = [] then some (.body ⟨h, type, []⟩, [])
    else (nest due t).map fun due' => (.parent h due' (type ++ [t]), [])
  | .body u =>
    match t with
    | .word name => some (.label u name, [])
    | .punct c => if c = '\x7d' then some (.outside, [u.finish]) else none
    | _ => none
  | .label u name =>
    if t = .punct '?' then some (.optionalLabel u name, [])
    else if t = .punct ':' then some (.memberType u name false [] [], [])
    else none
  | .optionalLabel u name => if t = .punct ':' then some (.memberType u name true [] [], []) else none
  | .memberType u name optional due type =>
    if t = .punct ';' ∧ due = [] then some (.body (u.with ⟨name, optional, type⟩), [])
    else (nest due t).map fun due' => (.memberType u name optional due' (type ++ [t]), [])
  | .aliasType h due type =>
    if t = .punct ';' ∧ due = [] then some (.outside, [⟨h.name, h.parameters, .alias type⟩])
    else (nest due t).map fun due' => (.aliasType h due' (type ++ [t]), [])

def readDeclarations (ts : List Token) : Option (List Declaration) :=
  match runWith Place.step .outside ts with
  | some (.outside, ds) => some ds
  | _ => none

def declarations (text : String) : Option (List Declaration) :=
  (scan text).bind fun ts => readDeclarations (code ts)

/-! ## Declarations one after the other -/

def Declares (ts : List Token) (ds : List Declaration) : Prop :=
  runWith Place.step .outside ts = some (.outside, ds)

theorem Declares.append {ts us : List Token} {ds es : List Declaration} (h : Declares ts ds)
    (h' : Declares us es) : Declares (ts ++ us) (ds ++ es) := by
  unfold Declares at *
  rw [runWith_append_of_eq h, h']
  rfl

theorem Declares.readDeclarations {ts : List Token} {ds : List Declaration} (h : Declares ts ds) :
    readDeclarations ts = some ds := by
  unfold Script.readDeclarations
  rw [h]

theorem declares_of_readDeclarations {ts : List Token} {ds : List Declaration}
    (h : readDeclarations ts = some ds) : Declares ts ds := by
  unfold Script.readDeclarations at h
  split at h
  · rename_i hrun
    rw [Option.some.inj h] at hrun
    exact hrun
  · contradiction

theorem declares_flatMap {α : Type} {tokens : α → List Token} {expected : α → List Declaration}
    (xs : List α) (h : ∀ x ∈ xs, Declares (tokens x) (expected x)) :
    Declares (xs.flatMap tokens) (xs.flatMap expected) := by
  induction xs with
  | nil => rfl
  | cons x rest ih =>
    rw [List.flatMap_cons, List.flatMap_cons]
    exact (h x List.mem_cons_self).append (ih fun y hy => h y (List.mem_cons_of_mem _ hy))

/-! ## Types in declarations -/

/-- The closing brackets that are due after some tokens of a type, unless a semicolon ends the type
among them. -/
def dueAfter (due : List Char) : List Token → Option (List Char)
  | [] => some due
  | t :: rest =>
    if t = .punct ';' ∧ due = [] then none else (nest due t).bind fun due' => dueAfter due' rest

/-- Every bracket is closed in its place, and no semicolon is outside all brackets. -/
def Enclosed (ts : List Token) : Prop := ∀ due, dueAfter due ts = some due

theorem dueAfter_append (due : List Char) (ts us : List Token) :
    dueAfter due (ts ++ us) = (dueAfter due ts).bind fun due' => dueAfter due' us := by
  induction ts generalizing due with
  | nil => rfl
  | cons t rest ih =>
    rw [List.cons_append, dueAfter, dueAfter]
    split
    · rfl
    · cases nest due t with
      | none => rfl
      | some due' => exact ih due'

theorem Enclosed.append {ts us : List Token} (h : Enclosed ts) (h' : Enclosed us) :
    Enclosed (ts ++ us) := by
  intro due
  rw [dueAfter_append, h due]
  exact h' due

theorem enclosed_angle {ts : List Token} (h : Enclosed ts) :
    Enclosed (Token.punct '<' :: (ts ++ [Token.punct '>'])) := by
  intro due
  have hin : dueAfter ('>' :: due) (ts ++ [Token.punct '>']) = some due := by
    rw [dueAfter_append, h]
    rfl
  exact hin

theorem enclosed_group {ts : List Token} (h : Enclosed ts) :
    Enclosed (Token.punct '(' :: (ts ++ [Token.punct ')'])) := by
  intro due
  have hin : dueAfter (')' :: due) (ts ++ [Token.punct ')']) = some due := by
    rw [dueAfter_append, h]
    rfl
  exact hin

theorem run_memberType (u : Unfinished) (name : String) (optional : Bool) {due due' : List Char}
    {ts : List Token} (h : dueAfter due ts = some due') (type : List Token) :
    runWith Place.step (.memberType u name optional due type) ts =
      some (.memberType u name optional due' (type ++ ts), []) := by
  induction ts generalizing due type with
  | nil =>
    rw [Option.some.inj h, List.append_nil]
    rfl
  | cons t rest ih =>
    rw [dueAfter] at h
    split at h
    · contradiction
    · rename_i hsemi
      obtain ⟨next, hnest, hrest⟩ := Option.bind_eq_some_iff.mp h
      rw [runWith, Place.step]
      simp only [hsemi, if_false, hnest, Option.map_some, Option.bind_some]
      rw [ih hrest]
      simp

theorem run_member (u : Unfinished) (name : String) (optional : Bool) {ts : List Token}
    (h : Enclosed ts) :
    runWith Place.step (.body u)
        (Token.word name :: (if optional then [Token.punct '?'] else []) ++ Token.punct ':' :: ts ++
          [Token.punct ';']) =
      some (.body (u.with ⟨name, optional, ts⟩), []) := by
  have hlabel : runWith Place.step (.body u)
      (Token.word name :: (if optional then [Token.punct '?'] else []) ++ [Token.punct ':']) =
      some (.memberType u name optional [] [], []) := by
    cases optional <;> rfl
  have htype := run_memberType u name optional (h []) []
  have hparts :
      Token.word name :: (if optional then [Token.punct '?'] else []) ++ Token.punct ':' :: ts ++
          [Token.punct ';'] =
        (Token.word name :: (if optional then [Token.punct '?'] else []) ++ [Token.punct ':']) ++
          (ts ++ [Token.punct ';']) := by
    simp
  rw [hparts, runWith_append_of_eq hlabel, runWith_append_of_eq htype]
  rfl

end Typings.Script
