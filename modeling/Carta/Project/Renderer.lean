import Carta.Project.Style

/-!
# Renderers

A layer declares how its features are classified by a descriptor element. When it has several, the
kinds have an order: a single symbol comes before a graduation, that before a continuous ramp, and
that before unique values. The first kind that occurs anywhere in the layer is used, by its first
occurrence, and all other descriptors are ignored.
-/

namespace Carta.Project

open Carta.Xml (Element)

/-- How the features of a layer are classified and drawn. -/
inductive Renderer
  | single (style : Style)
  | graduated (field : String) (classes : List StyledClass)
  | continuous (field : String) (lowest highest : StyledClass)
  | unique (field : String) (classes : List StyledClass)
  | absent
  deriving Repr, DecidableEq

/-- The kinds of descriptors. -/
inductive DescriptorKind
  | single
  | graduated
  | continuous
  | unique
  deriving Repr, DecidableEq

namespace DescriptorKind

/-- The kinds, the one that is preferred first. -/
def all : List DescriptorKind :=
  [.single, .graduated, .continuous, .unique]

/-- The element name of a kind. -/
def tag : DescriptorKind → String
  | .single => "singlesymbol"
  | .graduated => "graduatedsymbol"
  | .continuous => "continuoussymbol"
  | .unique => "uniquevalue"

end DescriptorKind

namespace Renderer

/-- The descriptor that is used for a layer. -/
def descriptor? (layer : Element) : Option (DescriptorKind × Element) :=
  DescriptorKind.all.findSome? fun kind => (layer.find? kind.tag).map (kind, ·)

/-- The field that features are classified by: the descriptor's own, or else the layer's. -/
def classificationField (descriptor layer : Element) : Except Error String :=
  require "classificationattribute"
    ((descriptor.findContent? "classificationattribute").or
      (layer.findContent? "classificationattribute"))

/-- The classes of a descriptor: one for each of its symbol children, in order. -/
def classes (descriptor : Element) : Except Error (List StyledClass) :=
  (descriptor.childrenNamed "symbol").mapM StyledClass.ofElement

/-- The class at one end of a continuous ramp. -/
def endpoint (descriptor : Element) (name : String) : Except Error StyledClass := do
  let symbol ← require (name ++ "/symbol") ((descriptor.find? name).bind (·.find? "symbol"))
  StyledClass.ofElement symbol

/-- The renderer that a descriptor in a layer describes. -/
def ofDescriptor (layer : Element) (kind : DescriptorKind) (descriptor : Element) :
    Except Error Renderer :=
  match kind with
  | .single => do
    let symbol ← require "singlesymbol/symbol" (descriptor.find? "symbol")
    return .single (← Style.ofElement symbol)
  | .graduated => do
    let field ← classificationField descriptor layer
    return .graduated field (← classes descriptor)
  | .continuous => do
    let field ← classificationField descriptor layer
    let lowest ← endpoint descriptor "lowestsymbol"
    let highest ← endpoint descriptor "highestsymbol"
    return .continuous field lowest highest
  | .unique => do
    let field ← classificationField descriptor layer
    return .unique field (← classes descriptor)

/-- The renderer of a layer element. -/
def ofLayer (layer : Element) : Except Error Renderer :=
  match descriptor? layer with
  | none => .ok .absent
  | some (kind, descriptor) => ofDescriptor layer kind descriptor

end Renderer

end Carta.Project
