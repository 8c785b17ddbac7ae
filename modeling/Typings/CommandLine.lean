import Typings.CommandLine.Arguments
import Typings.CommandLine.Help
import Typings.EnvFile
import Typings.Generation
import Typings.Settings.Loading

/-! # The command line

From the words of a command line to the exit status and everything that is printed. Failures in the
settings and in the run are reported and end with status 1, misuse with status 2; what goes wrong
while the settings are gathered, other than a fault in them, is not handled at all.
-/

namespace Typings.CommandLine

structure World where
  environment : Environment
  tree : WorkTree
  replies : List Reply
  formatter : Formatter
  /-- Which headers can be sent. -/
  check : HeaderCheck := .passing
  /-- How the text of a project file is read. -/
  read : ProjectFile.DocumentReader := Yaml.Document.ofText

/-- What ends a run without being handled. -/
inductive Unhandled where
  | crashed (crash : Crash)
  | badOptions (issues : List Issue)
  deriving DecidableEq, Repr

structure Outcome where
  status : Except Unhandled Nat
  output : String := ""
  complaints : String := ""
  requests : List Request := []
  sessions : List Session := []
  calls : List ProgramCall := []
  tree : WorkTree
  left : List Reply

/-- A run that ends before anything is asked for. -/
def World.ended (w : World) (status : Except Unhandled Nat) (output complaints : String) : Outcome :=
  { status, output, complaints, tree := w.tree, left := w.replies }

def errorLine (message : String) : String := lines ["Error: " ++ message]

/-! ## Gathering the settings -/

/-- Why there are no settings: a fault to report, or one that is not handled. -/
inductive SetupFault where
  | reported (message : String)
  | unhandled (fault : Unhandled)
  deriving DecidableEq, Repr

def SetupFault.ofLoad : LoadFault → SetupFault
  | .crashed c => .unhandled (.crashed c)
  | f => .reported f.message

def SetupFault.ofSettings : SettingsFault → SetupFault
  | .missingInputs => .reported Settings.missingMessage
  | .badOptions issues => .unhandled (.badOptions issues)

/-- The path of the project file that is looked for in the folder of the run. -/
def defaultConfig (t : WorkTree) : Path :=
  Path.child ⟨.workplace, t.current.drop WorkTree.workplace.length⟩ ProjectFile.defaultName

/-- The project file that is named, or else the one in the folder of the run, if there is one. -/
def World.projectFile [LoneSurrogates] (w : World) (config : Option String) : Except LoadFault ProjectFile :=
  match config with
  | some p => ProjectFile.loadBy w.read w.tree (Path.ofText p)
  | none =>
    if w.tree.isThere (defaultConfig w.tree) then ProjectFile.loadBy w.read w.tree (defaultConfig w.tree)
    else .ok {}

def World.settings [LoneSurrogates] (w : World) (env : Environment) (a : Arguments) :
    Except SetupFault Settings := do
  let project ← (w.projectFile a.config).mapError SetupFault.ofLoad
  (Settings.resolve a.overrides env project).mapError SetupFault.ofSettings

/-! ## Running -/

def faultReport : GenerationFault → String
  | .crashed c => errorLine "contentful-typegen failed" ++ errorLine ("unexpected " ++ c.kind.name ++ ": " ++ c.text)
  | f => errorLine "contentful-typegen failed" ++ errorLine f.message

def successReport (r : Report) : String :=
  (match r.formatFault with
    | some f => lines ["Warning: output was not formatted: " ++ f.message]
    | none => "") ++
  lines ["Generated " ++ toString r.count ++ " type(s) -> " ++ r.outFile.text]

def ofGeneration (warnings : String) (g : Generation) : Outcome :=
  let (status, output, complaints) : Nat × String × String :=
    match g.outcome with
    | .ok r => (0, successReport r, "")
    | .error f => (1, "", faultReport f)
  { status := .ok status, output, complaints := warnings ++ complaints, requests := g.requests,
    sessions := g.sessions, calls := g.calls, tree := g.tree, left := g.left }

/-- Runs what the arguments ask for, in an environment that is complete. -/
def World.execute [LoneSurrogates] (w : World) (env : Environment) (warnings : String) (a : Arguments) : Outcome :=
  match w.settings env a with
  | .error (.reported message) => w.ended (.ok 1) "" (warnings ++ errorLine message)
  | .error (.unhandled f) => w.ended (.error f) "" warnings
  | .ok s => ofGeneration warnings (generate s w.formatter w.tree w.replies w.check)

/-- Adds the variables of the environment file, and runs. -/
def World.perform [LoneSurrogates] (w : World) (a : Arguments) : Outcome :=
  let loaded := EnvFile.load w.tree w.environment
  let warnings := lines loaded.complaints
  match loaded.environment with
  | .error crash => w.ended (.error (.crashed crash)) "" warnings
  | .ok env => w.execute env warnings a

def run [LoneSurrogates] (words : List String) (w : World) : Outcome :=
  match Command.ofWords words with
  | .error f => w.ended (.ok 2) "" (usage ++ lines [programName ++ ": error: " ++ f.message])
  | .ok .help => w.ended (.ok 0) help ""
  | .ok (.run a) => w.perform a

end Typings.CommandLine
