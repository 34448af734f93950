import Carta.Command.Run

/-!
# The program

Runs the command on the files of the machine. The input, the output directory and what is above it
are read into a tree, the run is made on the tree, and what it created or changed there is written
back. Files are opened by texts here, so only those are seen whose names spell one.
-/

namespace Carta.Program

open Carta (Path Storage)
open Carta.Storage (Entries Location Node)

/-- What is told to someone whose command line asks for no run. -/
def usage : String :=
  "Usage: carta [OPTIONS] --output <DIR> <INPUT>\n"

/-- The location that steps lead to from another one, with no regard to what is there. -/
def lexicalLocation (location : Location) : List Storage.Step → Location
  | [] => location
  | .stay :: rest => lexicalLocation location rest
  | .up :: rest => lexicalLocation location.dropLast rest
  | .enter name :: rest => lexicalLocation (location ++ [name]) rest

/-- The location that a path means. -/
def locationOf (storage : Storage) (path : Path) : Location :=
  lexicalLocation (storage.start path) (Storage.stepsOf path)

/-- The absolute text of a location. -/
def textOf (location : Location) : String :=
  Name.shown ([Name.slash] ++ [Name.slash].intercalate location)

/-- The file or directory at a location, with all that is in it. -/
partial def readNode (location : Location) : IO Node := do
  let real ← IO.FS.realPath (textOf location)
  if ← real.isDir then
    let mut entries : Entries := []
    for entry in ← real.readDir do
      let name : Name := entry.fileName
      let node ← readNode (location ++ [name])
      entries := Entries.set name node entries
    return .directory entries
  else
    return .file (← IO.FS.readBinFile (textOf location)).toList

/-- The tree with all that is at a location, if anything is there. -/
def readInto (storage : Storage) (location : Location) : IO Storage := do
  try
    let node ← readNode location
    return { storage with root := storage.root.plant location node }
  catch _ => return storage

/-- The tree with an empty file or directory for what is at a location, if anything is there. -/
def outlineInto (storage : Storage) (location : Location) : IO (Option Storage) := do
  try
    let real ← IO.FS.realPath (textOf location)
    let node : Node := if ← real.isDir then .directory [] else .file []
    return some { storage with root := storage.root.plant location node }
  catch _ => return none

/-- The tree with the outlines of what is on the way from one location to another, as far as it is
there and not in the tree. -/
def outlineAlong (storage : Storage) (above : Location) : Location → IO Storage
  | [] => return storage
  | name :: rest => do
    let next := above ++ [name]
    if (storage.root.at? next).isSome then outlineAlong storage next rest
    else
      match ← outlineInto storage next with
      | none => return storage
      | some storage => outlineAlong storage next rest

/-- The tree around the current directory. -/
def currentStorage : IO Storage := do
  let real ← IO.FS.realPath "."
  let here := lexicalLocation [] (Storage.stepsOf ⟨real.toString⟩)
  return { root := (Node.directory []).plant here (.directory []), here }

/-- Writes what a tree has that another one has not. -/
def writeBack (before after : Storage) : IO Unit := do
  for (location, node) in after.root.listing [] do
    match node, before.root.at? location with
    | .directory _, some _ => pure ()
    | .directory _, none => IO.FS.createDirAll (textOf location)
    | .file content, old =>
      if old != some (.file content) then
        IO.FS.writeBinFile (textOf location) ⟨content.toArray⟩

/-- The mapfiles that a run is going to make. -/
def plannedFiles (arguments : Command.Arguments) (storage : Storage) : List Path :=
  let projects :=
    if storage.isDirectory arguments.input then
      (Command.collectProjects storage arguments.input).toOption.getD []
    else [arguments.input]
  let root : Path := if storage.isDirectory arguments.input then arguments.input else ⟨[]⟩
  projects.filterMap fun project => (Command.mapFileFor root project arguments.output).toOption

/-- The tree that a run with the given words works on. -/
def storageFor (words : List Name) : IO Storage := do
  let mut storage ← currentStorage
  match Command.Arguments.ofWords words with
  | .error _ => return storage
  | .ok arguments =>
    let input := locationOf storage arguments.input
    storage ← outlineAlong storage [] input
    storage ← readInto storage input
    for path in arguments.output :: plannedFiles arguments storage do
      storage ← outlineAlong storage [] (locationOf storage path)
    return storage

end Carta.Program

open Carta.Program in
/-- Runs the command and ends with its exit code. -/
def main (words : List String) : IO UInt32 := do
  let words := words.map Carta.Text.Utf8.encode
  let before ← storageFor words
  let (outcome, after) := Carta.Command.run words before
  writeBack before after
  match outcome with
  | .success => pure ()
  | .failure report => (← IO.getStderr).putStr report.text
  | .refused refusal =>
    if refusal.isFault then (← IO.getStderr).putStr usage else (← IO.getStdout).putStr usage
  return UInt32.ofNat outcome.exitCode
