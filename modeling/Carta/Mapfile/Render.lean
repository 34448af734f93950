import Carta.Mapfile.Layer
import Carta.Mapfile.Section

/-!
# Making a mapfile of a project

A mapfile holds the sections of the map, a block for each layer in document order, and the
definitions of the symbols that the layers refer to. Nothing is made unless all layers can be
written: bounds, destination and layers are read first, in this order, and then the layers are
written one after the other.
-/

namespace Carta

open Carta.Project (Document)

/-- A mapfile: what stands before the block of the map, and what stands in it. -/
structure Mapfile where
  header : List Mapfile.Entry
  body : List Mapfile.Entry

namespace Mapfile

/-- The text of a mapfile. The line that ends the map is the last one, and no line break follows
it. -/
def text (mapfile : Mapfile) : String :=
  Entry.text 0 mapfile.header ++ Entry.textOfLines ["MAP"] ++ Entry.text 1 mapfile.body ++ "END"

/-- The mapfile of a project. -/
def ofDocument (options : Options) (document : Document) : Except Error Mapfile := do
  let bounds ← document.bounds
  let destination ← document.destination
  let layers ← document.layers
  let (blocks, symbols) ← layersEntries layers {}
  return {
    header := headerComments document.source
    body := sectionEntries options bounds destination ++ blocks ++
      symbolEntries symbols.definitions }

/-- The text of the mapfile of a project. -/
def render (options : Options) (document : Document) : Except Error String :=
  (ofDocument options document).map text

end Mapfile

end Carta
