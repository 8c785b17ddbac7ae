import Typings.Crash
import Typings.Data
import Typings.Text.Blank
import Typings.WorkTree.Path

/-! # The formatter

The declaration file is passed through an external formatter, which runs as a process of its own.
Whatever that process does short of a crash, the outcome is either a formatted text or a reason why
there is none.
-/

namespace Typings

/-! ## The process -/

inductive StartFailure where
  | notFound
  | timedOut
  | refused (text : String)
  /-- What it wrote was no text. -/
  | notText (text : String)
  | crashed (crash : Crash)
  deriving DecidableEq, Repr

/-- How a process ends, as the call that runs it tells: with a code and the texts of what it wrote, in
which every line end has become a line feed, or by a failure. -/
inductive ProgramEnd where
  | exited (code : Int) (output : String) (complaint : String)
  | failed (failure : StartFailure)
  deriving DecidableEq, Repr

abbrev Program := String → ProgramEnd

structure ProgramCall where
  args : List String
  input : String
  timeout : Data

/-! ## Formatting -/

inductive FormatFault where
  | notFound (program : String)
  | timedOut (args : List String)
  | cannotRun (text : String)
  | notText (text : String)
  /-- It exited with a code other than zero. -/
  | complained (args : List String) (complaint : String)
  | noOutput (args : List String)
  /-- A formatter other than the usual one gave its own reason. -/
  | other (text : String)
  deriving DecidableEq, Repr

def commandLine (args : List String) : String := " ".intercalate args

def FormatFault.message : FormatFault → String
  | .notFound program => program ++ " executable not found on PATH"
  | .timedOut args => "Formatter timed out: " ++ commandLine args
  | .cannotRun text => "Cannot run formatter: " ++ text
  | .notText text => "Formatter output is not valid UTF-8: " ++ text
  | .complained args complaint => commandLine args ++ ": " ++ Text.trim complaint
  | .noOutput args => commandLine args ++ ": produced no output"
  | .other text => text

/-- What formatting gives: a text, a reason why there is none, or a crash. -/
inductive Formatted where
  | text (value : String)
  | fault (reason : FormatFault)
  | crashed (crash : Crash)
  deriving DecidableEq, Repr

/-- A formatter: from a text and the path it is for, the outcome and the process starts. -/
abbrev Formatter := String → Path → Formatted × List ProgramCall

namespace Formatter

def defaultCommand : List String := ["npx", "--no-install", "prettier"]

/-- The seconds that it is given. -/
def defaultTimeout : Data := .int 60

/-- The arguments: the command, and the path that the text is for. -/
def arguments (command : List String) (p : Path) : List String := command ++ ["--stdin-filepath", p.text]

def judge (command args : List String) : ProgramEnd → Formatted
  | .failed .notFound => .fault (.notFound (command.headD ""))
  | .failed .timedOut => .fault (.timedOut args)
  | .failed (.refused text) => .fault (.cannotRun text)
  | .failed (.notText text) => .fault (.notText text)
  | .failed (.crashed crash) => .crashed crash
  | .exited code output complaint =>
    if code ≠ 0 then .fault (.complained args complaint)
    else if Text.allBlank output then .fault (.noOutput args)
    else .text output

def running (command : List String) (timeout : Data) (program : Program) : Formatter := fun text p =>
  let args := arguments command p
  (judge command args (program text), [⟨args, text, timeout⟩])

def usual (program : Program) : Formatter := running defaultCommand defaultTimeout program

end Formatter

end Typings
