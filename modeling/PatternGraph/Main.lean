import PatternGraph.CommandLine.Run

/-!
# The program

The files that the command names are read, `runProgram` says what comes of it, and that is carried
out: a file is written if the command writes one, and the two outputs are printed.
-/

namespace PatternGraph

/-- The files and directories on the paths of a command, as they are on the disk. -/
def readDisk (command : Command) : IO Files := do
  let places := (command.reads ++ command.writes.toList).flatMap Path.passed
  let here ← IO.currentDir
  let onDisk (place : Place) := here / "/".intercalate place
  let directories ← places.filterM fun place => (onDisk place).isDir
  let entries ← places.filterMapM fun place => do
    return (← (IO.FS.readFile (onDisk place)).toBaseIO).toOption.map fun text => (place, text)
  return { entries, directories }

/-- Writes the file that a command writes. -/
def writeDisk (command : Command) (outcome : Outcome) : IO Unit :=
  match command.writes with
  | none => return
  | some path =>
    match outcome.status, outcome.files.read path with
    | 0, .ok text => IO.FS.writeFile path text
    | _, _ => return

end PatternGraph

open PatternGraph in
/-- The program. Its result is its exit status. -/
def main (args : List String) : IO UInt32 := do
  let command := (Command.ofArguments args).toOption
  let files ← (command.map readDisk).getD (pure {})
  let outcome := runProgram files args
  if let some command := command then writeDisk command outcome
  IO.print outcome.stdout
  IO.eprint outcome.stderr
  if outcome.stderr ≠ "" && !outcome.stderr.endsWith "\n" then IO.eprintln ""
  return outcome.status.toUInt32
