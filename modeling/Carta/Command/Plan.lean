import Carta.Storage.Basic

/-!
# Which projects are converted to which mapfiles

A run converts the project files below a directory, in the order of their paths. The mapfile of a
project is found below the output directory where the project is found below the root of the run,
with another extension. A project whose name spells no text has no mapfile, and two projects with the
same mapfile cannot be converted in one run.
-/

namespace Carta.Command

open Carta (Path Storage)

/-- Whether a path is that of a project file. -/
def isProjectFile (path : Path) : Bool :=
  path.extension?.any fun extension =>
    Name.lowerAscii extension = "qgs" || Name.lowerAscii extension = "qgz"

/-- Why a run cannot be planned. -/
inductive PlanFault
  | namelessProject (path : Path)
  | collision (earlier later mapFile : Path)
  deriving Repr, DecidableEq

/-- The wording of a fault. -/
def PlanFault.message : PlanFault → String
  | .namelessProject path =>
    "Project file name is not valid UTF-8: " ++ Text.quoted path.text
  | .collision earlier later mapFile =>
    earlier.shown ++ " and " ++ later.shown ++ " would both be written to " ++ mapFile.shown

/-- The directory of a project as seen from the root of a run. A run without a root, and a project
that is not below the root, have none. -/
def relativeDirectory (root path : Path) : Path :=
  if root.text.isEmpty then ⟨[]⟩
  else ((path.parent?.bind (·.relativeTo? root)).getD ⟨[]⟩)

/-- The mapfile of a project. The stem of the project has to be a text. -/
def mapFileFor (root path output : Path) : Except PlanFault Path :=
  match path.fileStem?.bind Name.text? with
  | none => .error (.namelessProject path)
  | some stem =>
    .ok ((output.join (relativeDirectory root path)).join ⟨Text.Utf8.encode (stem ++ ".map")⟩)

/-- A project and its mapfile. -/
structure Task where
  project : Path
  mapFile : Path
  deriving Repr, DecidableEq

/-- The tasks of projects, after the ones that are planned already. -/
def planAfter (root output : Path) (planned : List Task) : List Path → Except PlanFault (List Task)
  | [] => .ok planned
  | project :: rest =>
    match mapFileFor root project output with
    | .error fault => .error fault
    | .ok mapFile =>
      match planned.find? (·.mapFile.same mapFile) with
      | some earlier => .error (.collision earlier.project project mapFile)
      | none => planAfter root output (planned ++ [⟨project, mapFile⟩]) rest

/-- The tasks of a run, in the order of the projects. -/
def planOutputs (root : Path) (projects : List Path) (output : Path) :
    Except PlanFault (List Task) :=
  planAfter root output [] projects

/-- Paths in their order. -/
def sortPaths (paths : List Path) : List Path :=
  paths.mergeSort Path.le

mutual

/-- The project files below a node that a path leads to. -/
def projectsBelow (path : Path) : Storage.Node → List Path
  | .file _ => []
  | .directory entries => sortPaths (projectsAmong path entries)

/-- The project files among the entries of a directory that a path leads to, and below them. An
entry whose path is too long to be looked at counts as a file. -/
def projectsAmong (path : Path) : List (Name × Storage.Node) → List Path
  | [] => []
  | (name, node) :: rest =>
    let here := path.join ⟨name⟩
    (if node.isDirectory && (Storage.pathFault? here).isNone then projectsBelow here node
      else if isProjectFile here then [here] else []) ++
      projectsAmong path rest

end

/-- The project files below the directory that a path leads to. -/
def collectProjects (storage : Storage) (path : Path) : Except Storage.Fault (List Path) := do
  let entries ← storage.entries path
  return sortPaths (projectsAmong path entries)

end Carta.Command
