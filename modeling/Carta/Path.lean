import Carta.Name
import Carta.Text.Split

/-!
# Paths

A path consists of names separated by slashes. A slash at the beginning is the root. Repeated
slashes, and dots between slashes, say nothing; a dot at the very beginning of a relative path is
the current directory. Two paths that differ only in what says nothing are the same path, and paths
are ordered by their components, but the bytes of a path are kept as they were given.
-/

namespace Carta

/-- A path, as it was given. -/
structure Path where
  text : Name
  deriving Repr, DecidableEq

/-- What a part of a path says. -/
inductive Component
  | root
  | current
  | parent
  | name (name : Name)
  deriving Repr, DecidableEq

namespace Component

/-- The order of components: names follow all others. -/
def rank : Component → Nat
  | .root => 0
  | .current => 1
  | .parent => 2
  | .name _ => 3

/-- Whether a component comes before another or is the same. -/
def le (a b : Component) : Bool :=
  match a, b with
  | .name a, .name b => a ≤ b
  | _, _ => a.rank ≤ b.rank

end Component

/-- A part of a path between slashes, and what it says. -/
structure PathPart where
  text : Name
  component : Option Component
  deriving Repr, DecidableEq

/-- What a part after the first slash says. -/
def laterComponent : Name → Option Component
  | [] => none
  | [Name.dot] => none
  | [Name.dot, Name.dot] => some .parent
  | name => some (.name name)

/-- What the first part says. An empty one is the root when a slash follows it. -/
def firstComponent (slashFollows : Bool) : Name → Option Component
  | [] => if slashFollows then some .root else none
  | [Name.dot] => some .current
  | [Name.dot, Name.dot] => some .parent
  | name => some (.name name)

namespace Path

/-- The parts of a path. -/
def parts (path : Path) : List PathPart :=
  match Text.splitWhere (· = Name.slash) path.text with
  | [] => []
  | first :: rest =>
    ⟨first, firstComponent (!rest.isEmpty) first⟩ ::
      rest.map fun text => ⟨text, laterComponent text⟩

/-- The components of a path, in order. -/
def components (path : Path) : List Component :=
  path.parts.filterMap (·.component)

/-- The path that consists of parts. -/
def ofParts (parts : List PathPart) : Path :=
  match parts with
  | [⟨[], some .root⟩] => ⟨[Name.slash]⟩
  | _ => ⟨[Name.slash].intercalate (parts.map (·.text))⟩

/-- Whether two paths have the same components. -/
def same (a b : Path) : Bool :=
  a.components = b.components

/-- Whether components come before others or are the same. -/
def componentsLe : List Component → List Component → Bool
  | [], _ => true
  | _ :: _, [] => false
  | a :: as, b :: bs => if a = b then componentsLe as bs else a.le b

/-- Whether a path comes before another or is the same. -/
def le (a b : Path) : Bool :=
  componentsLe a.components b.components

/-- Parts, the last one first, without those before the last component that say nothing. -/
def dropSilent (parts : List PathPart) : List PathPart :=
  parts.dropWhile (·.component.isNone)

/-- The paths above the one that consists of the given parts, which come last one first. Nothing is
above the root. -/
def parentsOf : List PathPart → List Path
  | [] => []
  | part :: before =>
    match part.component with
    | none => parentsOf before
    | some .root => []
    | some _ => ofParts (dropSilent before).reverse :: parentsOf before

/-- The paths above a path, the nearest first. The last one above a relative path is empty. -/
def parents (path : Path) : List Path :=
  parentsOf path.parts.reverse

/-- The path above a path. -/
def parent? (path : Path) : Option Path :=
  path.parents.head?

/-- The last component, if it is a name. -/
def fileName? (path : Path) : Option Name :=
  match path.components.getLast? with
  | some (.name name) => some name
  | _ => none

/-- A name divided at its last dot, if there is one with something before it. -/
def splitName (name : Name) : Name × Option Name :=
  let extension := name.reverse.takeWhile (· ≠ Name.dot)
  match name.reverse.dropWhile (· ≠ Name.dot) with
  | _ :: stem => if stem.isEmpty then (name, none) else (stem.reverse, some extension.reverse)
  | [] => (name, none)

/-- The file name without its extension. -/
def fileStem? (path : Path) : Option Name :=
  path.fileName?.map fun name => (splitName name).1

/-- What follows the last dot of the file name. -/
def extension? (path : Path) : Option Name :=
  path.fileName?.bind fun name => (splitName name).2

/-- Whether a path begins with the root. -/
def isAbsolute (path : Path) : Bool :=
  path.text.head? = some Name.slash

/-- A path seen from another one. An absolute path stays as it is. -/
def join (base path : Path) : Path :=
  if path.isAbsolute then path
  else if base.text.isEmpty || base.text.getLast? = some Name.slash then
    ⟨base.text ++ path.text⟩
  else ⟨base.text ++ [Name.slash] ++ path.text⟩

/-- Parts without the first components, when these are the given ones. -/
def dropComponents : List Component → List PathPart → Option (List PathPart)
  | [], parts => some parts
  | _ :: _, [] => none
  | expected :: more, part :: parts =>
    match part.component with
    | none => dropComponents (expected :: more) parts
    | some component =>
      if component = expected then dropComponents more parts else none

/-- The rest of a path that begins with the components of another one. -/
def relativeTo? (path base : Path) : Option Path :=
  (dropComponents base.components path.parts).map fun parts =>
    ofParts (dropSilent (dropSilent parts).reverse).reverse

/-- The text that is shown for a path. -/
def shown (path : Path) : String :=
  Name.shown path.text

end Path

end Carta
