import Carta.Archive.Content
import Carta.Mapfile.Render
import Carta.Storage.Basic

/-!
# Converting a project file into a mapfile

A project is a file of its own, or the first project in an archive; the extension of the path
decides which. The mapfile is written under an unused name beside its place and moved there when it
is complete, so a conversion that fails leaves everything as it was.
-/

namespace Carta

open Carta.Project (Document)

/-- Whether a path is that of an archive. -/
def Path.isArchive (path : Path) : Bool :=
  path.extension?.any fun extension => Name.lowerAscii extension = "qgz"

/-- What reading a node as a document comes to. A directory can be opened, but not read. -/
def Storage.Node.source : Storage.Node → Xml.Source
  | .file content => { bytes := content }
  | .directory _ => {
      bytes := []
      failure := some Storage.Fault.isADirectory.message }

/-- What reading the project in a node as an archive comes to. -/
def Storage.Node.archivedSource (path : Path) : Storage.Node → Except Error Xml.Source
  | .directory _ => .error (.archive (.unreadable Storage.Fault.isADirectory.message))
  | .file content =>
    match Archive.projectSource content with
    | .error fault => .error (.archive fault)
    | .ok none => .error (.noProjectInArchive path.shown)
    | .ok (some source) => .ok source

namespace Storage

/-- Loads the project in the archive that a path leads to. -/
def loadArchive (storage : Storage) (path : Path) : Except Error Document := do
  let node ← (storage.open? path).mapError .storage
  let source ← node.archivedSource path
  Document.ofSource source (some path.shown)

/-- Loads the project that a path leads to. -/
def load (storage : Storage) (path : Path) : Except Error Document :=
  if path.isArchive then storage.loadArchive path
  else do
    let node ← (storage.open? path).mapError .storage
    Document.ofSource node.source (some path.shown)

/-- The mapfile of the project that a path leads to. -/
def mapfileOf (storage : Storage) (options : Mapfile.Options) (project : Path) :
    Except Error String := do
  let document ← storage.load project
  Mapfile.render options document

/-- The directory that a path has its place in: the one above it, or the current one. -/
def directoryOf (path : Path) : Path :=
  match path.parent? with
  | some parent => if parent.text.isEmpty then ⟨"."⟩ else parent
  | none => ⟨"."⟩

/-- Puts a file with a content in its place at once, by way of a temporary file beside it. A fault of
the temporary file is told with its path. -/
def replaceFile (storage : Storage) (path : Path) (content : List UInt8) :
    Except Fault Unit × Storage :=
  match storage.makeTemporary (directoryOf path) (storage.draw path) with
  | .error fault => (.error fault, storage)
  | .ok (temporary, created) =>
    match created.writeFile temporary content with
    | (.error fault, written) =>
      (.error (.ofFile (storage.temporaryPath (directoryOf path) (storage.draw path)) fault),
        written.erase temporary)
    | (.ok (), written) =>
      match written.moveFile temporary path with
      | .error fault => (.error fault, written.erase temporary)
      | .ok moved => (.ok (), moved)

/-- Converts a project into a mapfile, and tells so in a line. -/
def convert (storage : Storage) (options : Mapfile.Options) (project mapFile : Path) :
    Except Error String × Storage :=
  match storage.mapfileOf options project with
  | .error error => (.error error, storage)
  | .ok mapfile =>
    match storage.replaceFile mapFile (Text.Utf8.encode mapfile) with
    | (.error fault, storage) => (.error (.storage fault), storage)
    | (.ok (), storage) =>
      (.ok ("Writing the map file using " ++ project.shown ++ " " ++ mapFile.shown), storage)

end Storage

end Carta
