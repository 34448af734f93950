import Carta.Error
import Carta.Text.Numeral
import Carta.Xml.Element

/-!
# Styles and classes

A symbol element of a project describes how features are drawn: the point symbol, its size, the
outline colour and the fill colour. Inside a classification it is a class too, with the values that
bound it and a label. All of these may be absent; what is needed depends on where the style is
used, so absence is an error only there. A colour that is present has to be complete.
-/

namespace Carta.Project

open Carta.Xml (Element)

/-- A colour by its three channels. -/
structure Colour where
  red : UInt8
  green : UInt8
  blue : UInt8
  deriving Repr, DecidableEq

/-- A channel of a colour element: the attribute with its name. -/
def Colour.channel (element : Element) (name : String) : Except Error UInt8 := do
  let field := element.name ++ "@" ++ name
  let value ← require field (element.attribute? name)
  match Text.byte? (Text.trim value) with
  | some byte => .ok byte
  | none => .error (.invalid field value)

/-- The colour of a colour element. -/
def Colour.ofElement (element : Element) : Except Error Colour := do
  let red ← Colour.channel element "red"
  let green ← Colour.channel element "green"
  let blue ← Colour.channel element "blue"
  return { red, green, blue }

/-- The three channels as numbers. -/
def Colour.text (colour : Colour) : String :=
  toString colour.red.toNat ++ " " ++ toString colour.green.toNat ++ " " ++
    toString colour.blue.toNat

/-- The colour in the first descendant with a name, if there is one. -/
def Colour.within? (name : String) (element : Element) : Except Error (Option Colour) :=
  match element.find? name with
  | none => .ok none
  | some found => (Colour.ofElement found).map some

/-- How features are drawn. -/
structure Style where
  pointSymbol : Option String := none
  size : Option String := none
  outline : Option Colour := none
  fill : Option Colour := none
  deriving Repr, DecidableEq

/-- The style of a symbol element. -/
def Style.ofElement (symbol : Element) : Except Error Style := do
  let outline ← Colour.within? "outlinecolor" symbol
  let fill ← Colour.within? "fillcolor" symbol
  return {
    pointSymbol := symbol.findContent? "pointsymbol"
    size := symbol.findContent? "pointsize"
    outline
    fill }

/-- The outline colour where it is needed. -/
def Style.requireOutline (style : Style) : Except Error Colour :=
  require "outlinecolor" style.outline

/-- The fill colour where it is needed. -/
def Style.requireFill (style : Style) : Except Error Colour :=
  require "fillcolor" style.fill

/-- The size where it is needed. -/
def Style.requireSize (style : Style) : Except Error String :=
  require "pointsize" style.size

/-- A class of a classification. -/
structure StyledClass where
  lower : Option String := none
  upper : Option String := none
  label : Option String := none
  style : Style := {}
  deriving Repr, DecidableEq

/-- The class of a symbol element. -/
def StyledClass.ofElement (symbol : Element) : Except Error StyledClass := do
  let style ← Style.ofElement symbol
  return {
    lower := symbol.findContent? "lowervalue"
    upper := symbol.findContent? "uppervalue"
    label := symbol.findContent? "label"
    style }

/-- The lower bound where it is needed. -/
def StyledClass.requireLower (styledClass : StyledClass) : Except Error String :=
  require "lowervalue" styledClass.lower

/-- The upper bound where it is needed. -/
def StyledClass.requireUpper (styledClass : StyledClass) : Except Error String :=
  require "uppervalue" styledClass.upper

end Carta.Project
