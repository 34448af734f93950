import Carta.Text.Blank

/-!
# Document trees

An element has a name, attributes, child elements and the text that stands directly inside it,
all of it joined. Lookups go by name: among the children, or among all descendants in document
order, which puts an element before its own descendants. An element is no descendant of itself.
-/

namespace Carta.Xml

/-- An element of a document. -/
structure Element where
  name : String
  attributes : List (String × String) := []
  children : List Element := []
  text : String := ""
  deriving Repr, BEq, Inhabited

namespace Element

/-- The value of the attribute with a key. -/
def attribute? (element : Element) (key : String) : Option String :=
  (element.attributes.find? (·.1 = key)).map (·.2)

/-- The first child with a name. -/
def child? (element : Element) (name : String) : Option Element :=
  element.children.find? (·.name = name)

/-- The children with a name, in order. -/
def childrenNamed (element : Element) (name : String) : List Element :=
  element.children.filter (·.name = name)

mutual

/-- The first descendant with a name. -/
def find? (name : String) : Element → Option Element
  | ⟨_, _, children, _⟩ => findAmong? name children

/-- The first with a name among elements and their descendants. -/
def findAmong? (name : String) : List Element → Option Element
  | [] => none
  | element :: rest =>
    if element.name = name then some element
    else (find? name element).or (findAmong? name rest)

end

mutual

/-- All descendants with a name, in document order. -/
def findAll (name : String) : Element → List Element
  | ⟨_, _, children, _⟩ => findAllAmong name children

/-- All with a name among elements and their descendants. -/
def findAllAmong (name : String) : List Element → List Element
  | [] => []
  | element :: rest =>
    (if element.name = name then [element] else []) ++ findAll name element ++
      findAllAmong name rest

end

mutual

/-- The element and all its descendants with their depths, in document order. -/
def outline (depth : Nat) : Element → List (Nat × Element)
  | ⟨name, attributes, children, text⟩ =>
    (depth, ⟨name, attributes, children, text⟩) :: outlineAmong (depth + 1) children

/-- Elements and all their descendants with their depths. -/
def outlineAmong (depth : Nat) : List Element → List (Nat × Element)
  | [] => []
  | element :: rest => outline depth element ++ outlineAmong depth rest

end

mutual

/-- The number of elements in the tree, with its root. -/
def size : Element → Nat
  | ⟨_, _, children, _⟩ => sizeAmong children + 1

/-- The number of elements in trees, with their roots. -/
def sizeAmong : List Element → Nat
  | [] => 0
  | element :: rest => size element + sizeAmong rest

end

/-- The text without surrounding blanks, unless nothing else is in it. -/
def content? (element : Element) : Option String :=
  let text := Text.trim element.text
  if text.isEmpty then none else some text

/-- The content of the first descendant with a name, even where a later one has more. -/
def findContent? (name : String) (element : Element) : Option String :=
  (element.find? name).bind content?

end Element

end Carta.Xml
