import Typings.WorkTree.Path
import Typings.Text.Shown
import Typings.Text.Surrogates

/-! # The work tree

The files and folders that a run can see, and the few operations that it needs: reading a file,
making folders, writing a file. Places are given by the names that lead to them from the root. A
refused operation says why, and which path it was asked for.
-/

namespace Typings

/-- The names that lead from the root to a place. -/
abbrev Location := List String

inductive Node where
  | folder
  | file (content : ByteArray)

instance : DecidableEq Node
  | .folder, .folder => isTrue rfl
  | .folder, .file _ | .file _, .folder => isFalse nofun
  | .file a, .file b =>
    match ByteArray.instDecidableEq a b with
    | isTrue h => isTrue (congrArg Node.file h)
    | isFalse h => isFalse fun e => h (Node.file.inj e)

structure WorkTree where
  /-- What is at each place. The root is a folder and needs no entry. -/
  entries : List (Location × Node)
  /-- The folder that relative paths start from. -/
  current : Location

/-! ## Refusals -/

inductive SystemError where
  | noEntry
  | entryExists
  | notFolder
  | isFolder
  | nameTooLong
  deriving DecidableEq, Repr

def SystemError.code : SystemError → Nat
  | .noEntry => 2
  | .entryExists => 17
  | .notFolder => 20
  | .isFolder => 21
  | .nameTooLong => 36

def SystemError.text : SystemError → String
  | .noEntry => "No such file or directory"
  | .entryExists => "File exists"
  | .notFolder => "Not a directory"
  | .isFolder => "Is a directory"
  | .nameTooLong => "File name too long"

inductive PathFault where
  | system (error : SystemError) (path : Path)
  | embeddedNull
  /-- The text of the path has no bytes. -/
  | unencodable (fault : Text.EncodeFault)
  deriving DecidableEq, Repr

def PathFault.message : PathFault → String
  | .system e p => "[Errno " ++ toString e.code ++ "] " ++ e.text ++ ": " ++ Text.shown p.text
  | .embeddedNull => "embedded null byte"
  | .unencodable f => f.message

namespace WorkTree

def workplace : Location := ["<CWD>"]

def empty : WorkTree := ⟨[(workplace, .folder)], workplace⟩

def node? (t : WorkTree) (place : Location) : Option Node :=
  if place = [] then some .folder else t.entries.lookup place

/-! ## Following paths -/

/-- The longest name, and the longest path, in bytes. -/
def nameLimit : Nat := 255
def pathLimit : Nat := 4095

/-- One component further: up, or to a member of the folder at the place, whether or not it is
there. -/
def follow (t : WorkTree) (place : Location) (name : String) : Except SystemError Location :=
  match t.node? place with
  | none => .error .noEntry
  | some (.file _) => .error .notFolder
  | some .folder =>
    if name = ".." then .ok place.dropLast
    else if nameLimit < name.utf8ByteSize then .error .nameTooLong
    else .ok (place ++ [name])

def followAll (t : WorkTree) : Location → List String → Except SystemError Location
  | place, [] => .ok place
  | place, name :: rest => do t.followAll (← t.follow place name) rest

def start (t : WorkTree) : Anchor → Location
  | .here => t.current
  | .root => []
  | .doubleRoot => []
  | .workplace => workplace

def locate [LoneSurrogates] (t : WorkTree) (p : Path) : Except PathFault Location :=
  if let some f := Text.encodeFault? Text.standsForByte 0 p.text.toList then .error (.unencodable f)
  else if p.text.toList.contains '\x00' then .error .embeddedNull
  else if pathLimit < p.text.utf8ByteSize then .error (.system .nameTooLong p)
  else
    match t.followAll (t.start p.anchor) p.parts with
    | .ok place => .ok place
    | .error e => .error (.system e p)

def at? [LoneSurrogates] (t : WorkTree) (p : Path) : Option Node :=
  match t.locate p with
  | .ok place => t.node? place
  | .error _ => none

def isFolder [LoneSurrogates] (t : WorkTree) (p : Path) : Bool := t.at? p = some .folder

def isThere [LoneSurrogates] (t : WorkTree) (p : Path) : Bool := (t.at? p).isSome

/-! ## Operations -/

def read [LoneSurrogates] (t : WorkTree) (p : Path) : Except PathFault ByteArray := do
  match t.node? (← t.locate p) with
  | none => .error (.system .noEntry p)
  | some .folder => .error (.system .isFolder p)
  | some (.file content) => .ok content

/-- Puts a node at a place, in the place of what was there. -/
def put (t : WorkTree) (place : Location) (node : Node) : WorkTree :=
  { t with entries := (place, node) :: t.entries.filter fun e => e.1 ≠ place }

theorem node?_put_self {place : Location} (h : place ≠ []) (t : WorkTree) (node : Node) :
    (t.put place node).node? place = some node := by
  simp [put, node?, h]

theorem node?_put_of_ne {place other : Location} (h : other ≠ place) (t : WorkTree) (node : Node) :
    (t.put place node).node? other = t.node? other := by
  have away : (other == place) = false := by simpa using h
  have kept (entries : List (Location × Node)) :
      (entries.filter fun e => e.1 ≠ place).lookup other = entries.lookup other := by
    induction entries with
    | nil => rfl
    | cons e rest ih =>
      obtain ⟨at_, _⟩ := e
      by_cases same : at_ = place
      · simpa [List.lookup_cons, same, away] using ih
      · cases found : other == at_ <;> simp_all [List.lookup_cons]
  by_cases top : other = []
  · simp [node?, top]
  · simp only [put, node?, top, if_false, List.lookup_cons, away, kept]

/-- Makes one folder; nothing may be there yet. -/
def makeFolder [LoneSurrogates] (t : WorkTree) (p : Path) : Except PathFault WorkTree := do
  let place ← t.locate p
  if p.parts.getLast?.all (· == "..") || (t.node? place).isSome then .error (.system .entryExists p)
  else .ok (t.put place .folder)

/-- The tree that an operation leaves, and why it failed, if it did. -/
abbrev Left := WorkTree × Option PathFault

/-- A folder that is already there counts as made. -/
def settle [LoneSurrogates] (t : WorkTree) (p : Path) : Except PathFault WorkTree → Left
  | .ok t => (t, none)
  | .error f => if t.isFolder p then (t, none) else (t, some f)

/-- Makes the folder whose components, last one first, are given, and before it, if it lacks one,
the folder around it. -/
def makeChain [LoneSurrogates] (t : WorkTree) (anchor : Anchor) : List String → Left
  | [] => t.settle ⟨anchor, []⟩ (t.makeFolder ⟨anchor, []⟩)
  | name :: outer =>
    let p : Path := ⟨anchor, (name :: outer).reverse⟩
    match t.makeFolder p with
    | .error (.system .noEntry _) =>
      match t.makeChain anchor outer with
      | (t, none) => t.settle p (t.makeFolder p)
      | failed => failed
    | made => t.settle p made

def makeFolders [LoneSurrogates] (t : WorkTree) (p : Path) : Left := t.makeChain p.anchor p.parts.reverse

/-- Writes a file, in the place of one that is there. -/
def write [LoneSurrogates] (t : WorkTree) (p : Path) (content : ByteArray) : Except PathFault WorkTree := do
  let place ← t.locate p
  if p.parts.getLast?.all (· == "..") || t.node? place = some .folder then .error (.system .isFolder p)
  else .ok (t.put place (.file content))

/-- Writes a file into its folder, which is made first. -/
def writeInto [LoneSurrogates] (t : WorkTree) (p : Path) (content : ByteArray) : Left :=
  match t.makeFolders p.parent with
  | (t, none) =>
    match t.write p content with
    | .ok t => (t, none)
    | .error f => (t, some f)
  | failed => failed

/-- Why a text was not written. -/
inductive WriteFault where
  | path (fault : PathFault)
  | text (fault : Text.EncodeFault)
  deriving DecidableEq, Repr

/-- Writes a text into its folder. That a text has no bytes shows only when its file is open, which
is left empty then. -/
def writeText [LoneSurrogates] (t : WorkTree) (p : Path) (text : String) : WorkTree × Option WriteFault :=
  match Text.writeUtf8 text with
  | .ok content =>
    let (t, fault) := t.writeInto p content
    (t, fault.map .path)
  | .error f =>
    match t.writeInto p .empty with
    | (t, some fault) => (t, some (.path fault))
    | (t, none) => (t, some (.text f))

/-! ## Setting up and listing -/

def addFolders (t : WorkTree) : Location → List String → WorkTree
  | _, [] => t
  | place, name :: rest =>
    let inner := place ++ [name]
    let t := if (t.node? inner).isSome then t else t.put inner .folder
    t.addFolders inner rest

/-- Adds a folder below the workplace. -/
def withFolder (t : WorkTree) (p : Path) : WorkTree := t.addFolders workplace p.parts

/-- Adds a file below the workplace, with the folders around it. -/
def withFile (t : WorkTree) (p : Path) (content : ByteArray) : WorkTree :=
  (t.addFolders workplace p.parts.dropLast).put (workplace ++ p.parts) (.file content)

def enter (t : WorkTree) (p : Path) : WorkTree := { t with current := workplace ++ p.parts }

def isBelow (outer inner : Location) : Bool := outer.isPrefixOf inner && outer != inner

/-- The files below the workplace with their contents, and the folders with nothing in them. -/
def listing (t : WorkTree) : List (String × Node) :=
  t.entries.filterMap fun (place, node) =>
    if !isBelow workplace place then none
    else
      let name := "/".intercalate (place.drop workplace.length)
      match node with
      | .file _ => some (name, node)
      | .folder => if t.entries.any fun e => isBelow place e.1 then none else some (name ++ "/", node)

end WorkTree

end Typings
