import Carta.Mapfile.Entry
import Carta.Text.Blank

/-!
# Projections

The parameters of a coordinate system are the words of its definition, without the plus sign that
leads each of them. A projection block has a quoted line for each parameter from which something
remains.
-/

namespace Carta.Mapfile.Projection

/-- The characters without one leading plus sign. -/
def withoutPlus : List Char → List Char
  | '+' :: cs => cs
  | cs => cs

/-- The parameters in a definition, in order. -/
def parameters (proj4 : String) : List String :=
  ((Text.words proj4).map fun word => String.ofList (withoutPlus word.toList)).filter (!·.isEmpty)

/-- The lines for a definition, each of them after an indent. -/
def format (proj4 indent : String) : String :=
  Entry.textOfLines ((parameters proj4).map fun parameter =>
    indent ++ (Word.quoted parameter).written)

/-- The block for a definition. -/
def block (proj4 : String) : Entry :=
  .block "PROJECTION" ((parameters proj4).map fun parameter => .directive [.quoted parameter])

end Carta.Mapfile.Projection
