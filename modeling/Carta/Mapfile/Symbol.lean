import Carta.Mapfile.Entry
import Carta.Project.Layer

/-!
# Point symbols

Styles of point layers refer to a symbol by its name, and the mapfile has to define every symbol that
is referred to, once. The symbols in use are collected while the layers are written and defined
after the last layer, in the order of their names. All other styles use symbol `0`, which needs no
definition.
-/

namespace Carta.Mapfile

open Carta.Project (Geometry Style)

/-- The point symbols that a mapfile can define. -/
inductive PointSymbol
  | circle
  | triangle
  deriving Repr, DecidableEq

namespace PointSymbol

/-- All symbols, in the order of their names. -/
def all : List PointSymbol :=
  [.circle, .triangle]

/-- The characters of an identifier without the mark of the built-in symbols. -/
def withoutMark (cs : List Char) : List Char :=
  if cs.take 5 = "hard:".toList then cs.drop 5 else cs

/-- The symbol that a project means by an identifier. -/
def ofIdentifier? (identifier : String) : Option PointSymbol :=
  match String.ofList (withoutMark identifier.toList) with
  | "circle" => some .circle
  | "triangle" => some .triangle
  | _ => none

/-- The name of a symbol in a mapfile. -/
def name : PointSymbol → String
  | .circle => "CIRCLE"
  | .triangle => "TRIANGLE"

/-- The block that defines a symbol, from its title, its type and the points it is drawn by. -/
def definitionBlock (symbol : PointSymbol) (title type : String) (points : List (String × String)) :
    List Entry :=
  [.comment title,
    .block "SYMBOL"
      [.quotedSetting "NAME" symbol.name,
        .setting "TYPE" type,
        .setting "FILLED" "true",
        .block "POINTS" (points.map fun (x, y) => .setting x y)]]

/-- The definition of a symbol. -/
def definition : PointSymbol → List Entry
  | .circle => definitionBlock .circle "Circle symbol" "ellipse" [("1", "1")]
  | .triangle => definitionBlock .triangle "Triangle symbol" "vector"
    [("0", "1"), (".5", "0"), ("1", "1"), ("0", "1")]

end PointSymbol

/-- The symbols in use, in the order of their names and without repetition. -/
structure SymbolSet where
  symbols : List PointSymbol := []
  deriving Repr, DecidableEq

namespace SymbolSet

/-- The set with a symbol in it. -/
def insert (set : SymbolSet) (symbol : PointSymbol) : SymbolSet where
  symbols := PointSymbol.all.filter fun other => other ∈ set.symbols ∨ other = symbol

/-- Whether a symbol with a name is in the set. -/
def containsName (set : SymbolSet) (name : String) : Bool :=
  set.symbols.any (·.name = name)

/-- The definitions of the symbols, in the order of their names. -/
def definitions (set : SymbolSet) : List (List Entry) :=
  set.symbols.map PointSymbol.definition

end SymbolSet

/-- The symbol that a point style is drawn with: a circle where none is known by its identifier. -/
def PointSymbol.ofStyle (style : Style) : PointSymbol :=
  (style.pointSymbol.bind PointSymbol.ofIdentifier?).getD .circle

/-- How a style refers to its symbol, and the symbols in use with that one. -/
def SymbolSet.refer (set : SymbolSet) (geometry : Option Geometry) (style : Style) :
    Word × SymbolSet :=
  match geometry with
  | some .point =>
    let symbol := PointSymbol.ofStyle style
    (.quoted symbol.name, set.insert symbol)
  | _ => (.bare "0", set)

end Carta.Mapfile
