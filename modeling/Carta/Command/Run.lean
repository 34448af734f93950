import Carta.Command.Arguments
import Carta.Command.Plan
import Carta.Convert

/-!
# A run of the command

A run creates the output directory and converts the input, or all projects below it when it is a
directory. Every project below a directory is tried, whatever becomes of the others; in the end the
run fails if one of them did, and tells how many. In which order they are tried is a matter of the
schedule.
-/

namespace Carta.Command

open Carta (Path Storage)

/-- What is told about a failure: a message, and its causes, the nearest first. -/
structure Report where
  message : String
  causes : List String := []
  deriving Repr, DecidableEq

namespace Report

/-- The text with an indent after each of its line breaks. -/
def indentLines (indent text : String) : String :=
  String.ofList (text.toList.flatMap fun c => if c = '\n' then '\n' :: indent.toList else [c])

/-- The lines of causes, numbered from an index on. -/
def numbered (index : Nat) : List String → String
  | [] => ""
  | cause :: rest =>
    let number := toString index
    let padding := String.ofList (List.replicate (5 - number.length) ' ')
    padding ++ number ++ ": " ++ indentLines "       " cause ++ "\n" ++ numbered (index + 1) rest

/-- The text of a report. A single cause has no number. -/
def text (report : Report) : String :=
  "Error: " ++ report.message ++ "\n" ++
    match report.causes with
    | [] => ""
    | [cause] => "\nCaused by:\n    " ++ indentLines "    " cause ++ "\n"
    | causes => "\nCaused by:\n" ++ numbered 0 causes

/-- The report of an error that nothing is said about. -/
def ofFault (fault : Storage.Fault) : Report where
  message := fault.message

/-- The report of an error that became of something else. -/
def wrapping (message : String) (error : Error) : Report where
  message
  causes := error.message :: error.causes

end Report

/-- Creates the directory of a mapfile and converts a project into it. -/
def perform (arguments : Arguments) (storage : Storage) (task : Task) :
    Except Report Unit × Storage :=
  let (made, storage) :=
    match task.mapFile.parent? with
    | some parent => storage.makeDirectories parent
    | none => (.ok (), storage)
  match made with
  | .error fault => (.error (.ofFault fault), storage)
  | .ok () =>
    match storage.convert (arguments.optionsFor task.project) task.project task.mapFile with
    | (.error error, storage) =>
      (.error (.wrapping ("Failed to convert " ++ Text.quoted task.project.text) error), storage)
    | (.ok _, storage) => (.ok (), storage)

/-- Performs tasks one after the other, and tells which of them failed. -/
def performAll (arguments : Arguments) (storage : Storage) : List Task → List Task × Storage
  | [] => ([], storage)
  | task :: rest =>
    let (result, storage) := perform arguments storage task
    let (failed, storage) := performAll arguments storage rest
    match result with
    | .ok () => (failed, storage)
    | .error _ => (task :: failed, storage)

/-- In which order the tasks of a run are performed. Each of them is performed once. -/
structure Schedule where
  order : List Task → List Task
  perm : ∀ tasks, (order tasks).Perm tasks

/-- The tasks one after the other as they are planned. -/
def Schedule.asPlanned : Schedule where
  order := id
  perm := List.Perm.refl

/-- Converts a single file. -/
def runFile (arguments : Arguments) (storage : Storage) : Except Report Unit × Storage :=
  if !isProjectFile arguments.input then
    (.error { message := "Input file must be .qgs or .qgz" }, storage)
  else
    match mapFileFor ⟨[]⟩ arguments.input arguments.output with
    | .error fault => (.error { message := fault.message }, storage)
    | .ok mapFile => perform arguments storage ⟨arguments.input, mapFile⟩

/-- Converts all projects below a directory. -/
def runDirectory (schedule : Schedule) (arguments : Arguments) (storage : Storage) :
    Except Report Unit × Storage :=
  match collectProjects storage arguments.input with
  | .error fault => (.error (.ofFault fault), storage)
  | .ok projects =>
    match planOutputs arguments.input projects arguments.output with
    | .error fault => (.error { message := fault.message }, storage)
    | .ok tasks =>
      let (failed, storage) := performAll arguments storage (schedule.order tasks)
      if failed.isEmpty then (.ok (), storage)
      else
        (.error { message := toString failed.length ++ " projects failed to convert" }, storage)

/-- Does what the arguments ask for. The workers that convert a directory at the same time are not
modelled: in what order the tasks are done is up to the schedule, the number of threads is read from
the command line and has no effect here, and there is no failure to start that many of them
(`Failed to build thread pool`). -/
def runArguments (schedule : Schedule) (arguments : Arguments) (storage : Storage) :
    Except Report Unit × Storage :=
  match storage.makeDirectories arguments.output with
  | (.error fault, storage) =>
    (.error {
      message := "Failed to create output directory " ++ Text.quoted arguments.output.text
      causes := [fault.message] }, storage)
  | (.ok (), storage) =>
    if storage.isFile arguments.input then runFile arguments storage
    else if storage.isDirectory arguments.input then runDirectory schedule arguments storage
    else (.error { message := "Input path must be a file or directory" }, storage)

/-- How a run ends. -/
inductive Outcome
  | success
  | failure (report : Report)
  | refused (refusal : Refusal)
  deriving Repr, DecidableEq

/-- The exit code of an outcome. -/
def Outcome.exitCode : Outcome → Nat
  | .success => 0
  | .failure _ => 1
  | .refused refusal => if refusal.isFault then 2 else 0

/-- A run on a schedule with the given words after the name of the command. -/
def runOn (schedule : Schedule) (words : List Name) (storage : Storage) : Outcome × Storage :=
  match Arguments.ofWords words with
  | .error refusal => (.refused refusal, storage)
  | .ok arguments =>
    match runArguments schedule arguments storage with
    | (.error report, storage) => (.failure report, storage)
    | (.ok (), storage) => (.success, storage)

/-- A run that performs its tasks as they are planned. -/
def run (words : List Name) (storage : Storage) : Outcome × Storage :=
  runOn .asPlanned words storage

end Carta.Command
