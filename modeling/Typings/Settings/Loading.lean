import Typings.Settings.ProjectFile
import Typings.WorkTree
import Typings.Yaml.Document

/-! # Loading the project file

The project file is a document with one mapping in it. An empty document gives no settings.
-/

namespace Typings

inductive LoadFault where
  | notFound (path : Path)
  | unreadable (fault : PathFault)
  | malformed (path : Path)
  | notMapping (path : Path)
  | badSettings (path : Path) (issues : List Issue)
  | crashed (crash : Crash)
  deriving DecidableEq, Repr

def LoadFault.message : LoadFault → String
  | .notFound p => "Config file not found: " ++ p.text
  | .unreadable f => "Cannot read config file: " ++ f.message
  | .malformed p => "Invalid YAML in " ++ p.text ++ ": <yaml>"
  | .notMapping p => p.text ++ ": config must be a YAML mapping"
  | .badSettings p _ => "Invalid config file '" ++ p.text ++ "': <validation>"
  | .crashed c => c.text

namespace ProjectFile

/-- The name of the project file that is looked for if none is named. -/
def defaultName : String := ".contentful-typegen.yaml"

/-- A fault of reading a file, as a fault of loading it. -/
def ofPathFault : PathFault → LoadFault
  | .system .noEntry p => .notFound p
  | .system e p => .unreadable (.system e p)
  | .embeddedNull => .crashed ⟨.value, PathFault.message .embeddedNull⟩
  | .unencodable f => .crashed (.ofEncoding f)

def readText [LoneSurrogates] (t : WorkTree) (p : Path) : Except LoadFault String :=
  match t.read p with
  | .error f => .error (ofPathFault f)
  | .ok bytes =>
    match Text.readUtf8 bytes with
    | .error f => .error (.crashed (.ofUtf8 f))
    | .ok s => .ok (String.ofList (Text.unifyLineEnds s.toList))

def keyOf : Yaml.Value → SettingKey
  | .text s => .name s
  | v => .other v.report

def entriesOfDocument (p : Path) : Yaml.Document → Except LoadFault Entries
  | .nothing => .ok []
  | .mapping pairs => .ok (pairs.map fun (k, v) => (keyOf k, v.scalar))
  | .other => .error (.notMapping p)

/-- What reads the text of a project file as a document. -/
abbrev DocumentReader := String → Except Yaml.Fault Yaml.Document

def ofText (read : DocumentReader) (p : Path) (s : String) : Except LoadFault ProjectFile := do
  match read s with
  | .error .malformed => .error (.malformed p)
  | .error (.crashed c) => .error (.crashed c)
  | .ok document =>
    match ofEntries (← entriesOfDocument p document) with
    | .accepted project => .ok project
    | .rejected issues => .error (.badSettings p issues)

def loadBy [LoneSurrogates] (read : DocumentReader) (t : WorkTree) (p : Path) : Except LoadFault ProjectFile := do
  ofText read p (← readText t p)

def load [LoneSurrogates] (t : WorkTree) (p : Path) : Except LoadFault ProjectFile :=
  loadBy Yaml.Document.ofText t p

end ProjectFile

end Typings
