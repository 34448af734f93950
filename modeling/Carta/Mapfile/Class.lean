import Carta.Mapfile.Symbol

/-!
# Classes

A renderer becomes a sequence of classes: one for a single symbol, one for each class of a
graduation or of unique values, and one for a continuous ramp. The classes of a classification
follow the directive with the field that decides between them. The first class that lacks something
it needs stops the writing.
-/

namespace Carta.Mapfile

open Carta.Project (Colour Geometry Labelling Renderer Style StyledClass)

/-- The block of the labels of a class. Without a labelling there is none. -/
def labelEntries : Option Labelling → List Entry
  | none => []
  | some labelling =>
    [.block "LABEL"
      ([.setting "TYPE" "BITMAP", .setting "SIZE" "MEDIUM", .setting "COLOR" "0 0 0"] ++
        Entry.optional (.setting "ANGLE") labelling.angle ++
        Entry.optional (.setting "BUFFER") labelling.buffer)]

/-- The directive with the size of a style, where the geometry has one. -/
def sizeEntries (geometry : Option Geometry) (style : Style) : Except Error (List Entry) :=
  if geometry.any Geometry.hasSize then do
    let size ← style.requireSize
    return [.setting "SIZE" size]
  else .ok []

/-- The block of a style, and the symbols in use with its symbol. -/
def styleBlock (geometry : Option Geometry) (style : Style) (symbols : SymbolSet) :
    Except Error (Entry × SymbolSet) := do
  let (reference, symbols) := symbols.refer geometry style
  let size ← sizeEntries geometry style
  let outline ← style.requireOutline
  let fill ← style.requireFill
  return (.block "STYLE"
    ([.directive [.bare "SYMBOL", reference]] ++ size ++
      [.setting "OUTLINECOLOR" outline.text, .setting "COLOR" fill.text]), symbols)

/-- The block of a class that begins with the given entries. -/
def classBlock (geometry : Option Geometry) (labelling : Option Labelling) (opening : List Entry)
    (style : Style) (symbols : SymbolSet) : Except Error (Entry × SymbolSet) := do
  let (block, symbols) ← styleBlock geometry style symbols
  return (.block "CLASS" (opening ++ [block] ++ labelEntries labelling), symbols)

/-- The condition that a field is between two bounds. -/
def rangeExpression (field lower upper : String) : Entry :=
  .directive [.bare "EXPRESSION", .bare "(",
    .bare ("([" ++ field ++ "]"), .bare ">=", .bare (lower ++ ")"), .bare "AND",
    .bare ("([" ++ field ++ "]"), .bare "<=", .bare (upper ++ ")"), .bare ")"]

/-- The entries that begin a class of a graduation: its name and its condition. -/
def rangeOpening (field : String) (styledClass : StyledClass) : Except Error (List Entry) := do
  let lower ← styledClass.requireLower
  let upper ← styledClass.requireUpper
  return [.quotedSetting "NAME"
      (styledClass.label.getD (lower ++ " < " ++ field ++ " < " ++ upper)),
    rangeExpression field lower upper]

/-- The entries that begin a class of unique values: its name and its value. -/
def valueOpening (field : String) (styledClass : StyledClass) : Except Error (List Entry) := do
  let value ← styledClass.requireLower
  return [.quotedSetting "NAME" (styledClass.label.getD (field ++ " = " ++ value)),
    .quotedSetting "EXPRESSION" value]

/-- The blocks of classes, each of which begins as `opening` tells. -/
def classBlocks (geometry : Option Geometry) (labelling : Option Labelling)
    (opening : StyledClass → Except Error (List Entry)) :
    List StyledClass → SymbolSet → Except Error (List Entry × SymbolSet)
  | [], symbols => .ok ([], symbols)
  | styledClass :: rest, symbols => do
    let entries ← opening styledClass
    let (block, symbols) ← classBlock geometry labelling entries styledClass.style symbols
    let (blocks, symbols) ← classBlocks geometry labelling opening rest symbols
    return (block :: blocks, symbols)

/-- The block of a continuous ramp. It has no name, for a legend cannot show it. -/
def rampBlock (field : String) (lowest highest : StyledClass) (labelling : Option Labelling) :
    Except Error Entry := do
  let lowestFill ← lowest.style.requireFill
  let highestFill ← highest.style.requireFill
  let lower ← lowest.requireLower
  let upper ← highest.requireLower
  let outline ← lowest.style.requireOutline
  return .block "CLASS"
    ([.block "STYLE"
        [.directive [.bare "COLORRANGE", .bare lowestFill.text, .bare highestFill.text],
          .directive [.bare "DATARANGE", .bare lower, .bare upper],
          .quotedSetting "RANGEITEM" field],
      .block "STYLE" [.setting "OUTLINECOLOR" outline.text]] ++
      labelEntries labelling)

/-- The entries of a renderer in a layer with a name, and the symbols in use with its symbols. -/
def rendererEntries (name : String) (geometry : Option Geometry) (labelling : Option Labelling)
    (renderer : Renderer) (symbols : SymbolSet) : Except Error (List Entry × SymbolSet) :=
  match renderer with
  | .single style => do
    let (block, symbols) ←
      classBlock geometry labelling [.quotedSetting "NAME" name] style symbols
    return ([block], symbols)
  | .graduated field classes => do
    let (blocks, symbols) ←
      classBlocks geometry labelling (rangeOpening field) classes symbols
    return (.quotedSetting "CLASSITEM" field :: blocks, symbols)
  | .continuous field lowest highest => do
    let block ← rampBlock field lowest highest labelling
    return ([block], symbols)
  | .unique field classes => do
    let (blocks, symbols) ←
      classBlocks geometry labelling (valueOpening field) classes symbols
    return (.quotedSetting "CLASSITEM" field :: blocks, symbols)
  | .absent => .ok ([], symbols)

end Carta.Mapfile
