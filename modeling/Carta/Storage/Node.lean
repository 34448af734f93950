import Carta.Name

/-!
# Trees of files and directories

A node is a file with its content or a directory with named nodes. The names in a directory are
distinct and in order, which every change keeps. A node is found from the top of a tree by the names
on the way to it, its location.
-/

namespace Carta.Storage

/-- A file or a directory. -/
inductive Node
  | file (content : List UInt8)
  | directory (entries : List (Name × Node))
  deriving BEq, Repr

/-- The names on the way to a node, from the top. -/
abbrev Location := List Name

/-- The entries of a directory. -/
abbrev Entries := List (Name × Node)

namespace Entries

/-- The node with a name. -/
def get? (name : Name) : Entries → Option Node
  | [] => none
  | (other, node) :: rest => if other = name then some node else get? name rest

/-- The entries with a node under a name, in place of the one that had it. -/
def set (name : Name) (node : Node) : Entries → Entries
  | [] => [(name, node)]
  | (other, old) :: rest =>
    if other = name then (name, node) :: rest
    else if name < other then (name, node) :: (other, old) :: rest
    else (other, old) :: set name node rest

/-- The entries without the one that has a name. -/
def erase (name : Name) : Entries → Entries
  | [] => []
  | (other, old) :: rest => if other = name then rest else (other, old) :: erase name rest

end Entries

namespace Node

/-- Whether a node is a directory. -/
def isDirectory : Node → Bool
  | .file _ => false
  | .directory _ => true

/-- The node at a location. -/
def at? : Node → Location → Option Node
  | tree, [] => some tree
  | .file _, _ :: _ => none
  | .directory entries, name :: rest => (Entries.get? name entries).bind (at? · rest)

/-- The nodes on the way to a location, the last one first. -/
def way? (tree : Node) : Location → Option (List Node)
  | [] => some [tree]
  | name :: rest =>
    match tree with
    | .file _ => none
    | .directory entries =>
      (Entries.get? name entries).bind fun child => (way? child rest).map (· ++ [tree])

/-- The tree with a node at a location. Nothing changes where the location has no directory above
it. -/
def set : Node → Location → Node → Node
  | _, [], node => node
  | .file content, _ :: _, _ => .file content
  | .directory entries, [name], node => .directory (Entries.set name node entries)
  | .directory entries, name :: more :: rest, node =>
    match Entries.get? name entries with
    | none => .directory entries
    | some child => .directory (Entries.set name (set child (more :: rest) node) entries)

/-- The tree without the node at a location. -/
def erase : Node → Location → Node
  | tree, [] => tree
  | .file content, _ :: _ => .file content
  | .directory entries, [name] => .directory (Entries.erase name entries)
  | .directory entries, name :: more :: rest =>
    match Entries.get? name entries with
    | none => .directory entries
    | some child => .directory (Entries.set name (erase child (more :: rest)) entries)

/-- The tree with a node at a location, and directories on the way to it. -/
def plant : Node → Location → Node → Node
  | _, [], node => node
  | .file _, name :: rest, node => .directory [(name, plant (.directory []) rest node)]
  | .directory entries, name :: rest, node =>
    .directory (Entries.set name
      (plant ((Entries.get? name entries).getD (.directory [])) rest node) entries)

mutual

/-- The locations of all nodes below one, each directory before what is in it. -/
def listing (location : Location) : Node → List (Location × Node)
  | .file _ => []
  | .directory entries => listingAll location entries

/-- The locations of entries and of all nodes below them. -/
def listingAll (location : Location) : List (Name × Node) → List (Location × Node)
  | [] => []
  | (name, node) :: rest =>
    (location ++ [name], node) :: (listing (location ++ [name]) node ++ listingAll location rest)

end

end Node

end Carta.Storage
