import Carta.Project.Layer
import Carta.Xml.Reader

/-!
# Project documents

A project is a document tree, with a note of where it comes from. Its extent, its destination
coordinate system and its layers are looked up by name anywhere below the root. The coordinate
system of the whole map is the first destination found, as a rule that of the first layer.
-/

namespace Carta.Project

open Carta.Xml (Element)

/-- The bounds of a map, as they are written in the project. -/
structure Bounds where
  xmin : String
  ymin : String
  xmax : String
  ymax : String
  deriving Repr, DecidableEq

/-- A project that is loaded. -/
structure Document where
  root : Element
  /-- Where the project comes from, if that is known. -/
  source : Option String

namespace Document

/-- The project in a document, with a note of where it comes from. -/
def ofSource (input : Xml.Source) (source : Option String) : Except Error Document := do
  let root ← input.read.mapError .xml
  return { root, source }

/-- The bounds of the map. -/
def bounds (document : Document) : Except Error Bounds := do
  let bound (name : String) := require name (document.root.findContent? name)
  let xmin ← bound "xmin"
  let ymin ← bound "ymin"
  let xmax ← bound "xmax"
  let ymax ← bound "ymax"
  return { xmin, ymin, xmax, ymax }

/-- The parameters of the destination coordinate system. -/
def destination (document : Document) : Except Error String :=
  require "destinationsrs/proj4"
    ((document.root.find? "destinationsrs").bind (·.findContent? "proj4"))

/-- The layers of elements, the first of which has an index. -/
def layersFrom (index : Nat) : List Element → Except Error (List Layer)
  | [] => .ok []
  | element :: rest => do
    let layer ← Layer.ofElement element index
    let more ← layersFrom (index + 1) rest
    return layer :: more

/-- The layers, in document order. -/
def layers (document : Document) : Except Error (List Layer) :=
  layersFrom 0 (document.root.findAll "maplayer")

end Document

end Carta.Project
