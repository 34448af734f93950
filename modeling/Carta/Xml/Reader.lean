import Carta.Xml.Element
import Carta.Xml.Markup

/-!
# From markup to a tree

The reader keeps the names of the tags that are open, as they are written, and the elements that
these tags have begun, innermost first. A closing tag has to carry the name of the innermost open
tag; it completes the innermost element, which joins the children of the element around it, or is
the root when there is none around it. Text belongs to the innermost element and is dropped outside
of all of them. Of several top-level elements the last one completed is the root, and elements that
are still open at the end are dropped.
-/

namespace Carta.Xml

/-- Elements under construction, innermost first, and the latest complete top-level element. -/
structure Builder where
  opened : List Element := []
  root : Option Element := none

namespace Builder

/-- Begins an element inside the innermost one. -/
def begin (builder : Builder) (element : Element) : Builder :=
  { builder with opened := element :: builder.opened }

/-- Adds a complete element to the innermost one, or makes it the root. -/
def add (builder : Builder) (element : Element) : Builder :=
  match builder.opened with
  | [] => { builder with root := some element }
  | parent :: outer =>
    { builder with
      opened := { parent with children := parent.children ++ [element] } :: outer }

/-- Completes the innermost element. -/
def complete (builder : Builder) : Builder :=
  match builder.opened with
  | [] => builder
  | element :: outer => { builder with opened := outer }.add element

/-- Adds text to the innermost element. -/
def addText (builder : Builder) (text : String) : Builder :=
  match builder.opened with
  | [] => builder
  | element :: outer =>
    { builder with opened := { element with text := element.text ++ text } :: outer }

/-- Whether no element is begun. -/
def isOutside (builder : Builder) : Bool :=
  builder.opened.isEmpty

end Builder

/-- The element that a tag begins: its name and its attributes. -/
def Tag.element (tag : Tag) : Except Error Element := do
  let attributes ← tag.attributes
  return { name := Text.Utf8.decodeLenient tag.name, attributes }

/-- The text that a run spells, with its references resolved. -/
def textOfRun (bytes : List UInt8) : Except Fault String := do
  let text ← (Text.Utf8.decode bytes).mapError .encoding
  (resolve text).mapError .entity

/-- The state of reading: the names of the open tags, innermost first, and the tree so far. -/
structure Progress where
  names : List (List UInt8) := []
  builder : Builder := {}

/-- Takes one markup into account. -/
def Progress.read (progress : Progress) : Markup → Except Error Progress
  | .opening tag => do
    let element ← tag.element
    return ⟨tag.name :: progress.names, progress.builder.begin element⟩
  | .emptyElement tag => do
    let element ← tag.element
    return { progress with builder := progress.builder.add element }
  | .closing name =>
    match progress.names with
    | [] => .error (.document (.form (.unmatchedClosing (Text.Utf8.decodeOrEmpty name))))
    | expected :: outer =>
      if name = expected then .ok ⟨outer, progress.builder.complete⟩
      else .error (.document (.form (.mismatchedClosing (Text.Utf8.decodeOrEmpty expected)
        (Text.Utf8.decodeOrEmpty name))))
  | .text bytes =>
    if progress.builder.isOutside then .ok progress
    else do
      let text ← (textOfRun bytes).mapError .document
      return { progress with builder := progress.builder.addText text }
  | .cdata bytes =>
    .ok { progress with builder := progress.builder.addText (Text.Utf8.decodeLenient bytes) }
  | .aside => .ok progress

/-- Reads the bytes that a source ends with. -/
def readFrom (source : Source) (progress : Progress) (bytes : List UInt8) :
    Except Error Progress :=
  match _h : Markup.next? source bytes with
  | .error fault => .error (.document fault)
  | .ok none => .ok progress
  | .ok (some (markup, rest)) => do
    let progress ← progress.read markup
    readFrom source progress rest
termination_by bytes.length
decreasing_by exact Markup.length_of_next? _h

/-- The bytes without the mark of UTF-8 at their beginning. -/
def withoutMark : List UInt8 → List UInt8
  | 0xEF :: 0xBB :: 0xBF :: bytes => bytes
  | bytes => bytes

/-- The root element of a document. -/
def Source.read (source : Source) : Except Error Element := do
  let progress ← readFrom source {} (withoutMark source.bytes)
  match progress.builder.root with
  | some root => .ok root
  | none => .error .noRoot

/-- The root element of a document that is at hand as a whole. -/
def parse (bytes : List UInt8) : Except Error Element :=
  ({ bytes } : Source).read

end Carta.Xml
