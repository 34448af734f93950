import Carta.Path
import Carta.Storage.Fault
import Carta.Storage.Node

/-!
# Operations on files and directories

Paths lead to nodes of one tree: absolute paths from its top, relative ones from the current
directory. Every name on the way has to be that of a directory, also where two dots lead back out of
it, and a path that ends with a slash means a directory. The size of a path is limited, and so is
that of a name. An operation either fails for one reason or changes the tree; creating a directory
with all above it and writing a file are the ones that can do both.
-/

namespace Carta

/-- The six letters or digits at the end of the name of a temporary file. -/
structure Storage.Suffix where
  text : Name
  size : text.length = 6
  plain : text.all Name.isLetterOrDigit = true

instance : Inhabited Storage.Suffix where
  default := ⟨"000000", by decide, by decide⟩

/-- A tree of files and directories, and the current directory in it. -/
structure Storage where
  root : Storage.Node := .directory []
  here : Storage.Location := []
  /-- After how many bytes and why the writing of a content fails, if it does. -/
  writeFault? : List UInt8 → Option (Nat × Storage.Fault) := fun _ => none
  /-- How the temporary file is called by way of which a file is put in its place. It is a matter of
  chance: one draws until there is no file with that name. -/
  draw : Path → Storage.Suffix := fun _ => default

namespace Storage

/-- A step on the way along a path. -/
inductive Step
  | stay
  | up
  | enter (name : Name)
  deriving Repr, DecidableEq

/-- The step that a part of a path asks for. -/
def Step.ofText : Name → Step
  | [] => .stay
  | [Name.dot] => .stay
  | [Name.dot, Name.dot] => .up
  | name => .enter name

/-- The steps along a path: one for each of its parts. -/
def stepsOf (path : Path) : List Step :=
  path.parts.map fun part => Step.ofText part.text

/-- Where a path begins. -/
def start (storage : Storage) (path : Path) : Location :=
  if path.isAbsolute then [] else storage.here

/-- The most bytes that a path has. -/
def maxPathSize : Nat := 4095

/-- The most bytes that a name has. -/
def maxNameSize : Nat := 255

/-- What makes bytes unfit for a path. -/
def pathFault? (path : Path) : Option Fault :=
  if path.text.any (· = 0) then some .invalidName
  else if path.text.isEmpty then some .notFound
  else if maxPathSize < path.text.length then some .nameTooLong
  else none

/-- Where steps lead from a node that is under the given names, the last one first, and below the
given nodes, the nearest first. Only directories can be stepped on from. -/
def walkFrom (names : List Name) (node : Node) (above : List Node) :
    List Step → Except Fault Location
  | [] => .ok names.reverse
  | step :: rest =>
    match node with
    | .file _ => .error .notADirectory
    | .directory entries =>
      match step with
      | .stay => walkFrom names node above rest
      | .up =>
        match above with
        | [] => walkFrom names node above rest
        | parent :: above => walkFrom names.tail parent above rest
      | .enter name =>
        if maxNameSize < name.length then .error .nameTooLong
        else
          match Entries.get? name entries with
          | some child => walkFrom (name :: names) child (node :: above) rest
          | none => .error .notFound

/-- Where steps lead from a location. -/
def walk (root : Node) (location : Location) (steps : List Step) : Except Fault Location :=
  match root.way? location with
  | some (node :: above) => walkFrom location.reverse node above steps
  | _ => .error .notADirectory

/-- The location of the node that a path leads to. -/
def locate (storage : Storage) (path : Path) : Except Fault Location :=
  match pathFault? path with
  | some fault => .error fault
  | none => walk storage.root (storage.start path) (stepsOf path)

/-- The node that a path leads to. -/
def open? (storage : Storage) (path : Path) : Except Fault Node :=
  match storage.locate path with
  | .error fault => .error fault
  | .ok location =>
    match storage.root.at? location with
    | some node => .ok node
    | none => .error .notFound

/-- Whether a path leads to a file. -/
def isFile (storage : Storage) (path : Path) : Bool :=
  match storage.open? path with
  | .ok (.file _) => true
  | _ => false

/-- Whether a path leads to a directory. -/
def isDirectory (storage : Storage) (path : Path) : Bool :=
  match storage.open? path with
  | .ok (.directory _) => true
  | _ => false

/-- The entries of the directory that a path leads to. -/
def entries (storage : Storage) (path : Path) : Except Fault Entries :=
  match storage.open? path with
  | .error fault => .error fault
  | .ok (.file _) => .error .notADirectory
  | .ok (.directory entries) => .ok entries

/-- A place for a node: a directory, and the name in it, or none where the path leads to a directory
by dots or by nothing but slashes. -/
structure Place where
  directory : Location
  name : Option Name
  /-- Whether a slash follows the name. -/
  slash : Bool

/-- The steps without the slashes at the end. -/
def withoutSlashes (parts : List PathPart) : List PathPart :=
  (parts.reverse.dropWhile (·.text.isEmpty)).reverse

/-- The place that a path means. The directory has to exist, the name in it need not. -/
def place (storage : Storage) (path : Path) : Except Fault Place :=
  match pathFault? path with
  | some fault => .error fault
  | none =>
    let parts := withoutSlashes path.parts
    match walk storage.root (storage.start path)
        (parts.dropLast.map fun part => Step.ofText part.text) with
    | .error fault => .error fault
    | .ok directory =>
      match storage.root.at? directory with
      | some (.directory _) =>
        match (parts.getLast?).map fun part => Step.ofText part.text with
        | some (.enter name) =>
          if maxNameSize < name.length then .error .nameTooLong
          else .ok ⟨directory, some name, parts.length < path.parts.length⟩
        | _ => .ok ⟨directory, none, false⟩
      | _ => .error .notADirectory

/-- The tree with a node at a location. -/
def set (storage : Storage) (location : Location) (node : Node) : Storage :=
  { storage with root := storage.root.set location node }

/-- The tree without the node at a location. -/
def erase (storage : Storage) (location : Location) : Storage :=
  { storage with root := storage.root.erase location }

/-- Creates a directory. -/
def makeDirectory (storage : Storage) (path : Path) : Except Fault Storage :=
  match storage.place path with
  | .error fault => .error fault
  | .ok ⟨_, none, _⟩ => .error .alreadyExists
  | .ok ⟨directory, some name, _⟩ =>
    if (storage.root.at? (directory ++ [name])).isSome then .error .alreadyExists
    else .ok (storage.set (directory ++ [name]) (.directory []))

/-- Creates the first of the directories, and before it those of the others, which are above it,
that do not exist yet. -/
def makeDirectoriesOf (storage : Storage) : List Path → Except Fault Unit × Storage
  | [] => (.ok (), storage)
  | path :: above =>
    if path.text.isEmpty then (.ok (), storage)
    else
      match storage.makeDirectory path with
      | .ok storage => (.ok (), storage)
      | .error .notFound =>
        match makeDirectoriesOf storage above with
        | (.error fault, storage) => (.error fault, storage)
        | (.ok (), storage) =>
          match storage.makeDirectory path with
          | .ok storage => (.ok (), storage)
          | .error fault =>
            if storage.isDirectory path then (.ok (), storage) else (.error fault, storage)
      | .error fault =>
        if storage.isDirectory path then (.ok (), storage) else (.error fault, storage)

/-- Creates a directory and all above it. -/
def makeDirectories (storage : Storage) (path : Path) : Except Fault Unit × Storage :=
  storage.makeDirectoriesOf (path :: path.parents)

/-- The length of the longest name among entries. -/
def longestName (entries : Entries) : Nat :=
  entries.foldr (fun entry longest => max entry.1.length longest) 0

/-- The name that a suffix makes for a temporary file. -/
def Suffix.name (suffix : Suffix) : Name :=
  ".tmp" ++ suffix.text

/-- The name of a temporary file among entries. None of them has the name that is drawn; should one
have it all the same, the name goes on until it is longer than theirs. -/
def unusedName (suffix : Suffix) (entries : Entries) : Name :=
  if (Entries.get? suffix.name entries).isNone then suffix.name
  else suffix.name ++ List.replicate (longestName entries) 0x30

/-- The path of a temporary file in a directory, from the top of the tree. -/
def temporaryPath (storage : Storage) (directory : Path) (suffix : Suffix) : Path :=
  let current : Path := ⟨[Name.slash] ++ [Name.slash].intercalate storage.here⟩
  (current.join directory).join ⟨suffix.name⟩

/-- Creates an empty file with the name of a temporary one in a directory, and tells its location. -/
def makeTemporary (storage : Storage) (directory : Path) (suffix : Suffix) :
    Except Fault (Location × Storage) :=
  let path := storage.temporaryPath directory suffix
  match (pathFault? path).elim (storage.locate directory) .error with
  | .error fault => .error (.ofFile path fault)
  | .ok location =>
    match storage.root.at? location with
    | some (.directory entries) =>
      let temporary := location ++ [unusedName suffix entries]
      .ok (temporary, storage.set temporary (.file []))
    | _ => .error (.ofFile path .notADirectory)

/-- Writes a content into the file at a location. Where that fails, what was written is there. -/
def writeFile (storage : Storage) (location : Location) (content : List UInt8) :
    Except Fault Unit × Storage :=
  match storage.writeFault? content with
  | none => (.ok (), storage.set location (.file content))
  | some (written, fault) => (.error fault, storage.set location (.file (content.take written)))

/-- Moves the file at a location to where a path means, in place of a file that is there. -/
def moveFile (storage : Storage) (location : Location) (path : Path) : Except Fault Storage :=
  match storage.place path with
  | .error fault => .error fault
  | .ok ⟨_, none, _⟩ => .error .resourceBusy
  | .ok ⟨directory, some name, slash⟩ =>
    if slash then .error .notADirectory
    else
      match storage.root.at? (directory ++ [name]), storage.root.at? location with
      | some (.directory _), _ => .error .isADirectory
      | _, none => .error .notFound
      | _, some node => .ok ((storage.erase location).set (directory ++ [name]) node)

/-- Puts a file with a content where a path means, creating the directories above it. -/
def put (storage : Storage) (path : Path) (content : List UInt8) : Except Fault Unit × Storage :=
  match storage.makeDirectoriesOf path.parents with
  | (.error fault, storage) => (.error fault, storage)
  | (.ok (), storage) =>
    match storage.place path with
    | .error fault => (.error fault, storage)
    | .ok ⟨_, none, _⟩ => (.error .isADirectory, storage)
    | .ok ⟨directory, some name, slash⟩ =>
      match storage.root.at? (directory ++ [name]) with
      | some (.directory _) => (.error .isADirectory, storage)
      | some (.file _) =>
        if slash then (.error .notADirectory, storage)
        else storage.writeFile (directory ++ [name]) content
      | none =>
        if slash then (.error .isADirectory, storage)
        else storage.writeFile (directory ++ [name]) content

end Storage

end Carta
