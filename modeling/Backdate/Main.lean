import Backdate.Command.Run

/-!
# The program

Takes a picture of the files that the arguments name, asks for the answer, and
writes it out. No processes are started from here, so a replay finds no git; a
dry run, a check and a look at a time need none. Names are read as texts here.
-/

namespace Backdate

/-- The content of a file, if there is one to be read. -/
def content? (name : String) : IO (Option (List UInt8)) := do
  try return some (← IO.FS.readBinFile name).toList catch _ => return none

def isDirectory (name : String) : IO Bool := do
  try (← IO.FS.realPath name).isDir catch _ => return false

/-- The working directory, unless it is gone. -/
def workingDirectory? : IO (Option String) := do
  try return some (← IO.currentDir).toString catch _ => return none

/-- The part of the file system that a path leads through, added to a tree. -/
def snapshot (t : FileTree) (path : String) : IO FileTree := do
  let mut t := t
  let mut here : List String := []
  for part in pathParts path do
    if part = ".." then here := here.dropLast
    else if part ≠ "" ∧ part ≠ "." then here := here ++ [part]
    let name := "/" ++ String.intercalate "/" here
    if ← isDirectory name then t := t.makeDirectory (here.map Text.encode)
    else if let some content ← content? name then
      t := FileTree.put (.file content) (here.map Text.encode) t
  return t

end Backdate

open Backdate in
def main (args : List String) : IO UInt32 := do
  let directory? ← workingDirectory?
  let seen (path : String) : Option String :=
    if isAbsolutePath path then some path else directory?.map (· ++ "/" ++ path)
  let files ← (directory?.toList ++ args.filterMap seen).foldlM snapshot (.directory [])
  let stdout ← IO.getStdout
  let setting : Setting :=
    -- a name that no picture was taken of leads nowhere
    { files := files, directory := directory?.getD "/gone", hasGit := false, colour := ← stdout.isTty,
      log := (← IO.getEnv "HISTORY_REPLAY_LOG").isSome }
  let a := answer setting args
  IO.print a.stdout
  IO.eprint a.stderr
  return UInt32.ofNat a.exit
