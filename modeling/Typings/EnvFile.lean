import Typings.Crash
import Typings.EnvFile.Expansion
import Typings.EnvFile.Statement
import Typings.Settings
import Typings.WorkTree

/-! # Environment files

Variables can be kept in a file next to a project, or in a folder around it. They never change a
variable that the environment has already; in references within the file, too, the environment comes
first.
-/

namespace Typings.EnvFile

def fileName : String := ".env"

/-- The variable that turns environment files off, and the values with which it does. -/
def offSwitch : String := "PYTHON_DOTENV_DISABLED"
def offValues : List String := ["1", "true", "t", "yes", "y"]

def isOff (env : Environment) : Bool := (env.get? offSwitch).any fun v => offValues.contains v.toLower

/-! ## Finding the file -/

/-- The content of the nearest file of that name: in a folder, given by its names from the inside
out, or around it. -/
def findFrom (t : WorkTree) : List String → Option ByteArray
  | [] =>
    match t.node? [fileName] with
    | some (.file content) => some content
    | _ => none
  | name :: outer =>
    match t.node? ((name :: outer).reverse ++ [fileName]) with
    | some (.file content) => some content
    | _ => findFrom t outer

def find (t : WorkTree) : Option ByteArray := findFrom t t.current.reverse

/-! ## Reading it -/

/-- The text of the file, without the mark of its byte order. -/
def text (content : ByteArray) : Except Crash (List Char) :=
  match Text.readUtf8 content with
  | .error f => .error (.ofUtf8 f)
  | .ok s =>
    match Text.unifyLineEnds s.toList with
    | '\ufeff' :: rest => .ok rest
    | cs => .ok cs

/-- Variables of the file: a name may be known to have no value. -/
abbrev Variables := List (String × Option String)

def Variables.put (key : String) (value : Option String) : Variables → Variables
  | [] => [(key, value)]
  | (k, v) :: rest => if k = key then (k, value) :: rest else (k, v) :: put key value rest

/-- What a reference finds: the environment first, and then the file up to there. -/
def look (env : Environment) (known : Variables) (name : String) : Option (Option String) :=
  match env.get? name with
  | some v => some (some v)
  | none => known.lookup name

def bindings (env : Environment) : List Statement → Variables → Variables
  | [], done => done
  | ⟨_, .assignment key value⟩ :: rest, done =>
    bindings env rest (done.put key (value.map (expand (look env done))))
  | _ :: rest, done => bindings env rest done

def complaint (line : Nat) : String :=
  "python-dotenv could not parse statement starting at line " ++ toString line

def complaints (ss : List Statement) : List String :=
  ss.filterMap fun s => if s.content = .unreadable then some (complaint s.line) else none

/-! ## Setting variables -/

def hasNull (s : String) : Bool := s.toList.contains '\x00'

/-- Adds a variable, unless it is there or has no value. A name with an equals sign can be no
variable. -/
def addVariable (env : Environment) (key : String) (value : Option String) : Except Crash Environment :=
  match env.get? key, value with
  | none, some v =>
    if hasNull key || hasNull v then .error ⟨.value, "embedded null byte"⟩
    else if key.toList.contains '=' then .error ⟨.value, "illegal environment variable name"⟩
    else .ok (env ++ [(key, v)])
  | _, _ => .ok env

def addVariables (env : Environment) : Variables → Except Crash Environment
  | [] => .ok env
  | (key, value) :: rest => do addVariables (← addVariable env key value) rest

/-- What loading gives: the environment or the crash that ends the run, and complaints. -/
structure Loaded where
  environment : Except Crash Environment
  complaints : List String

def load (t : WorkTree) (env : Environment) : Loaded :=
  match if isOff env then none else find t with
  | none => ⟨.ok env, []⟩
  | some content =>
    match text content with
    | .error crash => ⟨.error crash, []⟩
    | .ok cs =>
      let ss := statements cs
      ⟨addVariables env (bindings env ss []), complaints ss⟩

end Typings.EnvFile
