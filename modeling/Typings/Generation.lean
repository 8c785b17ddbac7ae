import Typings.ContentApi.Fetch
import Typings.Declaration.File
import Typings.Formatter
import Typings.Settings
import Typings.WorkTree

/-! # Generation

One run: the content model is fetched, printed, formatted if that is wanted, and written. A fault in
fetching or writing ends the run; a fault of the formatter does not, and the file is written as it
was printed.
-/

namespace Typings

structure Report where
  count : Nat
  outFile : Path
  formatted : Bool
  formatFault : Option FormatFault

inductive GenerationFault where
  | fetch (fault : FetchFault)
  | cannotWrite (outFile : Path) (fault : PathFault)
  | crashed (crash : Crash)
  deriving DecidableEq, Repr

def GenerationFault.message : GenerationFault → String
  | .fetch f => f.message
  | .cannotWrite p f => "Cannot write '" ++ p.text ++ "': " ++ f.message
  | .crashed c => c.text

/-- A run: its outcome, what it asked the server and the formatter, and the tree and the replies it
left. -/
structure Generation where
  outcome : Except GenerationFault Report
  requests : List Request
  sessions : List Session
  calls : List ProgramCall
  tree : WorkTree
  left : List Reply

namespace Generation

/-- A fault of fetching; a crash stays a crash. -/
def ofFetchFault (f : FetchFault) : GenerationFault :=
  match f.fault with
  | .crashed crash => .crashed crash
  | _ => .fetch f

/-- A fault of writing. A path that can be no path is a crash, and so is a text without bytes. -/
def ofWriteFault (outFile : Path) : WorkTree.WriteFault → GenerationFault
  | .path .embeddedNull => .crashed ⟨.value, PathFault.message .embeddedNull⟩
  | .path (.unencodable f) => .crashed (.ofEncoding f)
  | .path f => .cannotWrite outFile f
  | .text f => .crashed (.ofEncoding f)

/-- The text to write and the fault of the formatter, or the crash that ends the run. -/
structure Prepared where
  text : String
  formatted : Bool
  fault : Option FormatFault

def prepare (wanted : Bool) (formatter : Formatter) (outFile : Path) (raw : String) :
    Except Crash Prepared × List ProgramCall :=
  if wanted then
    match formatter raw outFile with
    | (.text text, calls) => (.ok ⟨text, true, none⟩, calls)
    | (.fault fault, calls) => (.ok ⟨raw, false, some fault⟩, calls)
    | (.crashed crash, calls) => (.error crash, calls)
  else (.ok ⟨raw, false, none⟩, [])

/-- A run that ends before anything is written. -/
def stopped (fault : GenerationFault) (fetch : Fetch) (session : Session) (calls : List ProgramCall)
    (tree : WorkTree) : Generation :=
  ⟨.error fault, fetch.requests, [session], calls, tree, fetch.left⟩

def finish [LoneSurrogates] (s : Settings) (formatter : Formatter) (tree : WorkTree) (session : Session) (fetch : Fetch)
    (cts : List ContentType) : Generation :=
  match prepare s.formatOutput.holds formatter s.outFile (declarationFile s.renderOptions cts) with
  | (.error crash, calls) => stopped (.crashed crash) fetch session calls tree
  | (.ok prepared, calls) =>
    match tree.writeText s.outFile prepared.text with
    | (tree, some fault) => stopped (ofWriteFault s.outFile fault) fetch session calls tree
    | (tree, none) =>
      ⟨.ok ⟨cts.length, s.outFile, prepared.formatted, prepared.fault⟩, fetch.requests, [session], calls,
        tree, fetch.left⟩

end Generation

/-- Runs over a session, given as the fetch leaves it, and what its requests get. -/
def Generation.over [LoneSurrogates] (session : Session) (s : Settings) (formatter : Formatter) (tree : WorkTree)
    (replies : List Reply) : Generation :=
  let fetch := ({} : Client).fetch s.spaceId s.environmentId replies
  match fetch.result with
  | .error fault => stopped (ofFetchFault fault) fetch session [] tree
  | .ok cts => finish s formatter tree session fetch cts

/-- The session that a run opens. -/
def Settings.session (s : Settings) : Session := ⟨s.managementToken, 0⟩

/-- Runs with a session of its own, which is closed after the fetch, whether or not that succeeds.
-/
def generate [LoneSurrogates] (s : Settings) (formatter : Formatter) (tree : WorkTree) (replies : List Reply)
    (check : HeaderCheck := .passing) : Generation :=
  Generation.over s.session.close s formatter tree (s.session.receives check replies)

end Typings
