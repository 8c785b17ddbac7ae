import Typings.CommandLine

/-! # The program

Carries a run out in the real world. The pages of the content model are read from standard input,
one body a line; the files that a run can read are looked up before it, and what it wrote is put on
disk after it. There is no formatter at hand, so the output is written as it was printed.
-/

namespace Typings.Program

/-- A variable as the system lists it: its name, an equals sign and its value. -/
def binding? (s : String) : Option (String × String) :=
  match s.toList.span (· != '=') with
  | (name, '=' :: value) => some (String.ofList name, String.ofList value)
  | _ => none

def content? (path : String) : IO (Option ByteArray) := do
  try
    return some (← IO.FS.readBinFile path)
  catch _ =>
    return none

/-- The environment, as the system lists it for the running program. -/
def environment : IO Environment := do
  match (← content? "/proc/self/environ").map Text.readUtf8 with
  | some (.ok s) => return (s.splitOn "\x00").filterMap binding?
  | _ => return []

/-- The tree with the files that a run may read. -/
def readable (config : Option String) : IO WorkTree := do
  let mut tree := WorkTree.empty
  for name in [EnvFile.fileName, ProjectFile.defaultName] ++ config.toList do
    if let some content ← content? name then
      match tree.locate (Path.ofText name) with
      | .ok place => tree := tree.put place (.file content)
      | .error _ => tree := tree.withFile (Path.ofText name) content
  return tree

/-- The bodies on standard input, one a line. -/
partial def bodies (input : IO.FS.Stream) : IO (List String) := do
  let line ← input.getLine
  if line.isEmpty then return []
  return line :: (← bodies input)

def diskPath (place : Location) : String :=
  if place.take WorkTree.workplace.length = WorkTree.workplace then
    "/".intercalate (place.drop WorkTree.workplace.length)
  else "/" ++ "/".intercalate place

/-- Puts on disk what a run added to the tree. -/
def store (before after : WorkTree) : IO Unit := do
  for (place, node) in after.entries.reverse do
    unless before.node? place = some node do
      match node with
      | .folder => IO.FS.createDirAll (diskPath place)
      | .file content => IO.FS.writeBinFile (diskPath place) content

/-- Prints what a run printed, and gives its status. -/
def finish (before : WorkTree) (o : CommandLine.Outcome) : IO UInt32 := do
  store before o.tree
  IO.print o.output
  IO.eprint o.complaints
  match o.status with
  | .ok status => return UInt32.ofNat status
  | .error (.crashed c) =>
    IO.eprintln (c.kind.name ++ ": " ++ c.text)
    return 1
  | .error (.badOptions issues) =>
    for i in issues do
      IO.eprintln (i.placeText ++ ": " ++ i.fault.message)
    return 1

def world (words : List String) : IO CommandLine.World := do
  let formatter := Formatter.usual fun _ => .failed .notFound
  match CommandLine.Command.ofWords words with
  | .ok (.run a) =>
    let replies := (← bodies (← IO.getStdin)).map (Reply.answered 200 (some "OK"))
    return { environment := ← environment, tree := ← readable a.config, replies, formatter }
  | _ => return { environment := [], tree := .empty, replies := [], formatter }

end Typings.Program

def main (words : List String) : IO UInt32 := do
  let world ← Typings.Program.world words
  Typings.Program.finish world.tree (Typings.CommandLine.run words world)
