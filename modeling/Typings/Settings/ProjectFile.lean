import Typings.Acceptance

/-! # The project file

The settings that a project keeps in a file of its own. Each is optional, unknown keys are refused,
and a setting with a dash in its name may also be written with an underscore.
-/

namespace Typings

/-- A key of a settings mapping: a text, or something else with the text that reports it. -/
inductive SettingKey where
  | name (text : String)
  | other (report : String)
  deriving DecidableEq, Repr

structure ProjectFile where
  space : Option String := none
  environment : Option String := none
  out : Option String := none
  namePrefix : Option String := none
  undefinedOptionals : Option Bool := none
  readonlyArrays : Option Bool := none
  aliases : Option Bool := none
  brand : Option Bool := none
  format : Option Bool := none
  deriving DecidableEq, Repr

namespace ProjectFile

def modelName : String := "ProjectFile"

/-- A mapping of settings, before it is accepted. -/
abbrev Entries := List (SettingKey × Scalar)

def Entries.get? (key : String) (entries : Entries) : Option Scalar :=
  (entries.find? fun e => e.1 = .name key).map Prod.snd

/-- Reads the setting under a key; an absent one is not given. -/
def Entries.readUnder {α : Type} (entries : Entries) (read : Scalar → Checked (Option α)) (key : String) :
    Checked (Option α) :=
  match entries.get? key with
  | some v => (read v).under (.key key)
  | none => .accepted none

/-- The key that gives a setting with two spellings: the dashed one if it is present. -/
def Entries.spelling (entries : Entries) (dashed plain : String) : String :=
  if (entries.get? dashed).isSome then dashed else plain

def Entries.readKeys (entries : Entries) : List String :=
  ["space", "environment", "out", "prefix",
    entries.spelling "undefined-optionals" "undefined_optionals",
    entries.spelling "readonly-arrays" "readonly_arrays",
    "aliases", "brand", "format"]

/-- The issue with a key that gives no setting. -/
def Entries.strayKey? (entries : Entries) : SettingKey → Option Issue
  | .name key => if entries.readKeys.contains key then none else some ⟨[.key key], .unknownKey⟩
  | .other report => some ⟨[.key report], .keyNotText⟩

def ofEntries (entries : Entries) : Checked ProjectFile :=
  let text (key : String) := entries.readUnder Scalar.asTextOrNull key
  let flag (key : String) := entries.readUnder Scalar.asBooleanOrNull key
  Checked.withIssues (entries.filterMap fun e => entries.strayKey? e.1)
    (ProjectFile.mk <$> text "space" <*> text "environment" <*> text "out" <*> text "prefix"
      <*> flag (entries.spelling "undefined-optionals" "undefined_optionals")
      <*> flag (entries.spelling "readonly-arrays" "readonly_arrays")
      <*> flag "aliases" <*> flag "brand" <*> flag "format")

def entriesOf (members : Data.Members) : Entries := members.map fun m => (.name m.1, m.2.scalar)

def ofData : Data → Checked ProjectFile
  | .object members => ofEntries (entriesOf members)
  | _ => .fault (.notObject modelName)

/-- Settings, written with all their members under the underscore spelling. -/
def toData (p : ProjectFile) : Data :=
  let text : Option String → Data
    | some s => .text s
    | none => .null
  let flag : Option Bool → Data
    | some b => .bool b
    | none => .null
  .object [
    ("space", text p.space),
    ("environment", text p.environment),
    ("out", text p.out),
    ("prefix", text p.namePrefix),
    ("undefined_optionals", flag p.undefinedOptionals),
    ("readonly_arrays", flag p.readonlyArrays),
    ("aliases", flag p.aliases),
    ("brand", flag p.brand),
    ("format", flag p.format)]

end ProjectFile

end Typings
