import Carta.Mapfile.Render
import Carta.Proofs.Outcome

/-!
# What a mapfile takes from a document

A project is read by lookups: names of descendants and children, and keys of attributes. Whatever
two documents differ in, when each of these lookups finds elements that are alike in both, and what
is alike has the same name, content and looked-up attributes, they make the same mapfile, or fail
with the same error.

The lemmas follow the readers, from colours to whole documents, each from those of the parts.
-/

namespace Carta.Xml

/-- The element names that are looked up. -/
def lookedUpNames : List String :=
  ["xmin", "ymin", "xmax", "ymax", "destinationsrs", "proj4", "maplayer", "layername", "datasource",
    "provider", "transparencyLevelInt", "labelattributes", "label", "angle", "buffersize",
    "rasterproperties", "wmsSublayer", "name", "style", "wmsFormat", "coordinatetransform",
    "sourcesrs", "spatialrefsys", "epsg", "singlesymbol", "graduatedsymbol", "continuoussymbol",
    "uniquevalue", "symbol", "lowestsymbol", "highestsymbol", "classificationattribute",
    "pointsymbol", "pointsize", "outlinecolor", "fillcolor", "lowervalue", "uppervalue"]

/-- The attribute keys that are looked up in elements with a name. -/
def lookedUpKeys : String → List String
  | "maplayer" => ["type", "geometry", "scaleBasedVisibilityFlag", "minScale", "maxScale"]
  | "label" => ["field"]
  | "angle" => ["value"]
  | "buffersize" => ["value"]
  | "outlinecolor" => ["red", "green", "blue"]
  | "fillcolor" => ["red", "green", "blue"]
  | _ => []

mutual

/-- What is found by a name has it. -/
theorem Element.name_of_find? {name : String} {found : Element} : ∀ {element : Element},
    element.find? name = some found → found.name = name
  | ⟨_, _, _, _⟩, h => Element.name_of_findAmong? h

/-- An element that is found among others has the name that was looked for. -/
theorem Element.name_of_findAmong? {name : String} {found : Element} : ∀ {elements : List Element},
    Element.findAmong? name elements = some found → found.name = name
  | [], h => nomatch h
  | element :: rest, h => by
    rw [Element.findAmong?] at h
    split at h
    next hname => exact Option.some.inj h ▸ hname
    next =>
      rcases Option.or_eq_some_iff.mp h with hinside | ⟨-, hrest⟩
      · exact Element.name_of_find? hinside
      · exact Element.name_of_findAmong? hrest

end

mutual

/-- All elements that are found below another have the name that was looked for. -/
theorem Element.name_of_mem_findAll {name : String} {found : Element} : ∀ {element : Element},
    found ∈ element.findAll name → found.name = name
  | ⟨_, _, _, _⟩, h => Element.name_of_mem_findAllAmong h

/-- All elements that are found among others have the name that was looked for. -/
theorem Element.name_of_mem_findAllAmong {name : String} {found : Element} :
    ∀ {elements : List Element}, found ∈ Element.findAllAmong name elements → found.name = name
  | [], h => nomatch h
  | element :: rest, h => by
    rw [Element.findAllAmong, List.mem_append, List.mem_append] at h
    rcases h with (hself | hinside) | hrest
    · split at hself
      next hname => exact List.mem_singleton.mp hself ▸ hname
      next => cases hself
    · exact Element.name_of_mem_findAll hinside
    · exact Element.name_of_mem_findAllAmong hrest

end

/-- Of two searches, the second after the first, each finds what is related. -/
theorem rel_or {R : Element → Element → Prop} {first second third fourth : Option Element}
    (hfirst : Option.Rel R first second) (hsecond : Option.Rel R third fourth) :
    Option.Rel R (first.or third) (second.or fourth) := by
  cases hfirst with
  | some h => exact .some h
  | none => exact hsecond

/-- Lookups among the descendants of two elements find elements that are alike. -/
structure FindsAlike (Alike : Element → Element → Prop) (first second : Element) : Prop where
  find? : ∀ name ∈ lookedUpNames, Option.Rel Alike (first.find? name) (second.find? name)
  findAll : ∀ name ∈ lookedUpNames, List.Forall₂ Alike (first.findAll name) (second.findAll name)

/-- No lookup tells elements that are alike apart. -/
structure IsLookalike (Alike : Element → Element → Prop) : Prop where
  name : ∀ {first second}, Alike first second → first.name = second.name
  content? : ∀ {first second}, Alike first second → first.content? = second.content?
  attribute? : ∀ {first second}, Alike first second → ∀ key ∈ lookedUpKeys first.name,
    first.attribute? key = second.attribute? key
  child? : ∀ {first second}, Alike first second → ∀ name ∈ lookedUpNames,
    Option.Rel Alike (first.child? name) (second.child? name)
  childrenNamed : ∀ {first second}, Alike first second → ∀ name ∈ lookedUpNames,
    List.Forall₂ Alike (first.childrenNamed name) (second.childrenNamed name)
  finds : ∀ {first second}, Alike first second → FindsAlike Alike first second

section Found

variable {Alike : Element → Element → Prop} {first second : Element}

/-- A name is found in both or in neither, and what is found is alike and has the name. -/
theorem FindsAlike.cases (hfinds : FindsAlike Alike first second) (name : String)
    (hname : name ∈ lookedUpNames) :
    (first.find? name = none ∧ second.find? name = none) ∨
    ∃ a b, first.find? name = some a ∧ second.find? name = some b ∧ Alike a b ∧ a.name = name := by
  have hrel := hfinds.find? name hname
  generalize hfirst : first.find? name = found at hrel
  generalize second.find? name = other at hrel
  cases hrel with
  | none => exact .inl ⟨rfl, rfl⟩
  | some h => exact .inr ⟨_, _, rfl, rfl, h, Element.name_of_find? hfirst⟩

/-- What is read of an element that is found, by what only reads the same of elements alike, is the
same. -/
theorem FindsAlike.bind_eq {C : Type} {f : Element → Option C}
    (hfinds : FindsAlike Alike first second) (name : String) (hname : name ∈ lookedUpNames)
    (hsame : ∀ a b, Alike a b → a.name = name → f a = f b) :
    (first.find? name).bind f = (second.find? name).bind f := by
  rcases hfinds.cases name hname with ⟨hfirst, hsecond⟩ | ⟨a, b, hfirst, hsecond, hab, ha⟩
  · rw [hfirst, hsecond]
  · rw [hfirst, hsecond, Option.bind_some, Option.bind_some, hsame a b hab ha]

/-- The content that is found by a name is the same. -/
theorem FindsAlike.findContent? (halike : IsLookalike Alike)
    (hfinds : FindsAlike Alike first second) (name : String) (hname : name ∈ lookedUpNames) :
    first.findContent? name = second.findContent? name :=
  hfinds.bind_eq name hname fun _ _ hab _ => halike.content? hab

end Found

end Carta.Xml

namespace Carta.Project

open Carta.Xml (Element FindsAlike IsLookalike lookedUpNames lookedUpKeys)

variable {Alike : Element → Element → Prop} (halike : IsLookalike Alike) {first second : Element}
include halike

/-- The same colour is read of colour elements that are alike. -/
theorem Colour.ofElement_eq (h : Alike first second)
    (hname : lookedUpKeys first.name = ["red", "green", "blue"]) :
    Colour.ofElement first = Colour.ofElement second := by
  have hchannel : ∀ key ∈ ["red", "green", "blue"],
      Colour.channel first key = Colour.channel second key := fun key hkey => by
    rw [Colour.channel, Colour.channel, halike.name h, halike.attribute? h key (hname ▸ hkey)]
  rw [Colour.ofElement, Colour.ofElement, hchannel "red" (by simp), hchannel "green" (by simp),
    hchannel "blue" (by simp)]

/-- The same colour is found by a name. -/
theorem Colour.within?_eq (h : FindsAlike Alike first second) {name : String}
    (hname : name ∈ lookedUpNames) (hkeys : lookedUpKeys name = ["red", "green", "blue"]) :
    Colour.within? name first = Colour.within? name second := by
  rw [Colour.within?, Colour.within?]
  rcases h.cases name hname with ⟨hfirst, hsecond⟩ | ⟨a, b, hfirst, hsecond, hab, ha⟩
  · rw [hfirst, hsecond]
  · rw [hfirst, hsecond]
    exact congrArg (Except.map some) (Colour.ofElement_eq halike hab (ha ▸ hkeys))

/-- The same style is read. -/
theorem Style.ofElement_eq (h : FindsAlike Alike first second) :
    Style.ofElement first = Style.ofElement second := by
  rw [Style.ofElement, Style.ofElement, Colour.within?_eq halike h (by decide) (by decide),
    Colour.within?_eq halike h (by decide) (by decide),
    h.findContent? halike "pointsymbol" (by decide), h.findContent? halike "pointsize" (by decide)]

/-- The same class is read. -/
theorem StyledClass.ofElement_eq (h : FindsAlike Alike first second) :
    StyledClass.ofElement first = StyledClass.ofElement second := by
  rw [StyledClass.ofElement, StyledClass.ofElement, Style.ofElement_eq halike h,
    h.findContent? halike "lowervalue" (by decide), h.findContent? halike "uppervalue" (by decide),
    h.findContent? halike "label" (by decide)]

namespace Renderer

/-- The same field is named for a classification. -/
theorem classificationField_eq {layer other : Element} (h : FindsAlike Alike first second)
    (hlayer : FindsAlike Alike layer other) :
    classificationField first layer = classificationField second other := by
  rw [classificationField, classificationField,
    h.findContent? halike "classificationattribute" (by decide),
    hlayer.findContent? halike "classificationattribute" (by decide)]

/-- The same classes are read. -/
theorem classes_eq (h : Alike first second) : classes first = classes second :=
  mapM_eq_of_forall₂ (halike.childrenNamed h "symbol" (by decide)) fun _ _ hab =>
    StyledClass.ofElement_eq halike (halike.finds hab)

/-- The same class is read at an end of a ramp. -/
theorem endpoint_eq (h : FindsAlike Alike first second) {name : String}
    (hname : name ∈ lookedUpNames) : endpoint first name = endpoint second name := by
  rw [endpoint, endpoint]
  rcases h.cases name hname with ⟨hfirst, hsecond⟩ | ⟨a, b, hfirst, hsecond, hab, -⟩
  · rw [hfirst, hsecond]
  · rw [hfirst, hsecond, Option.bind_some, Option.bind_some]
    rcases (halike.finds hab).cases "symbol" (by decide) with
      ⟨hnone, hnone'⟩ | ⟨c, d, hsome, hsome', hcd, -⟩
    · rw [hnone, hnone']
    · rw [hsome, hsome']
      exact StyledClass.ofElement_eq halike (halike.finds hcd)

/-- The same renderer is read of a descriptor. -/
theorem ofDescriptor_eq {layer other : Element} (hlayer : FindsAlike Alike layer other)
    (kind : DescriptorKind) (h : Alike first second) :
    ofDescriptor layer kind first = ofDescriptor other kind second := by
  have hfinds := halike.finds h
  have hfield := classificationField_eq halike hfinds hlayer
  cases kind with
  | single =>
    rw [ofDescriptor, ofDescriptor]
    rcases hfinds.cases "symbol" (by decide) with
      ⟨hfirst, hsecond⟩ | ⟨a, b, hfirst, hsecond, hab, -⟩
    · rw [hfirst, hsecond]
    · rw [hfirst, hsecond]
      change Except.map single (Style.ofElement a) = Except.map single (Style.ofElement b)
      rw [Style.ofElement_eq halike (halike.finds hab)]
  | graduated => rw [ofDescriptor, ofDescriptor, hfield, classes_eq halike h]
  | continuous =>
    rw [ofDescriptor, ofDescriptor, hfield, endpoint_eq halike hfinds (by decide),
      endpoint_eq halike hfinds (by decide)]
  | unique => rw [ofDescriptor, ofDescriptor, hfield, classes_eq halike h]

omit halike in
/-- Descriptors of the same kind are found, and they are alike. -/
theorem descriptor?_cases (h : FindsAlike Alike first second) :
    (descriptor? first = none ∧ descriptor? second = none) ∨
    ∃ kind a b, descriptor? first = some (kind, a) ∧ descriptor? second = some (kind, b) ∧
      Alike a b := by
  have htag : ∀ kind : DescriptorKind, kind.tag ∈ lookedUpNames := fun kind => by
    cases kind <;> decide
  rw [descriptor?, descriptor?]
  induction DescriptorKind.all with
  | nil => exact .inl ⟨rfl, rfl⟩
  | cons kind rest ih =>
    rw [List.findSome?_cons, List.findSome?_cons]
    rcases h.cases kind.tag (htag kind) with ⟨hfirst, hsecond⟩ | ⟨a, b, hfirst, hsecond, hab, -⟩
    · rw [hfirst, hsecond]
      exact ih
    · rw [hfirst, hsecond]
      exact .inr ⟨kind, a, b, rfl, rfl, hab⟩

/-- The same renderer is read of a layer. -/
theorem ofLayer_eq (h : FindsAlike Alike first second) : ofLayer first = ofLayer second := by
  rw [ofLayer, ofLayer]
  rcases descriptor?_cases h with ⟨hfirst, hsecond⟩ | ⟨kind, a, b, hfirst, hsecond, hab⟩
  · rw [hfirst, hsecond]
  · rw [hfirst, hsecond]
    exact ofDescriptor_eq halike h kind hab

end Renderer

/-- The same remote layer is read. -/
theorem WmsSublayer.ofElement_eq (h : FindsAlike Alike first second) :
    WmsSublayer.ofElement first = WmsSublayer.ofElement second := by
  rw [WmsSublayer.ofElement, WmsSublayer.ofElement, h.findContent? halike "name" (by decide),
    h.findContent? halike "style" (by decide)]

/-- The same EPSG code is read. -/
theorem Wms.sourceEpsg?_eq (h : FindsAlike Alike first second) :
    Wms.sourceEpsg? first = Wms.sourceEpsg? second :=
  h.bind_eq "coordinatetransform" (by decide) fun _ _ htransform _ =>
    (halike.finds htransform).bind_eq "sourcesrs" (by decide) fun _ _ hsource _ =>
      (halike.finds hsource).bind_eq "spatialrefsys" (by decide) fun _ _ hsystem _ =>
        (halike.finds hsystem).findContent? halike "epsg" (by decide)

/-- The same remote WMS is read. -/
theorem Wms.ofLayer_eq (h : FindsAlike Alike first second) (url : String) :
    Wms.ofLayer first url = Wms.ofLayer second url := by
  rw [Wms.ofLayer, Wms.ofLayer, Wms.sourceEpsg?_eq halike h]
  rcases h.cases "rasterproperties" (by decide) with
    ⟨hfirst, hsecond⟩ | ⟨a, b, hfirst, hsecond, hab, -⟩
  · rw [hfirst, hsecond]
  · have hfinds := halike.finds hab
    have hsublayers : (a.findAll "wmsSublayer").mapM WmsSublayer.ofElement =
        (b.findAll "wmsSublayer").mapM WmsSublayer.ofElement :=
      mapM_eq_of_forall₂ (hfinds.findAll "wmsSublayer" (by decide)) fun _ _ hcd =>
        WmsSublayer.ofElement_eq halike (halike.finds hcd)
    rw [hfirst, hsecond]
    simp only [require, bind, Except.bind]
    rw [hsublayers, hfinds.findContent? halike "wmsFormat" (by decide)]

/-- The same labelling is read. -/
theorem Labelling.ofLayer?_eq (h : Alike first second) :
    Labelling.ofLayer? first = Labelling.ofLayer? second := by
  have hflag : (first.child? "label").bind Element.content? =
      (second.child? "label").bind Element.content? := by
    have hrel := halike.child? h "label" (by decide)
    generalize first.child? "label" = found at hrel ⊢
    generalize second.child? "label" = other at hrel ⊢
    cases hrel with
    | none => rfl
    | some hab => rw [Option.bind_some, Option.bind_some, halike.content? hab]
  simp only [Labelling.ofLayer?, Option.bind_eq_bind, hflag]
  refine (halike.finds h).bind_eq "labelattributes" (by decide) fun a b hab _ => ?_
  have hfinds := halike.finds hab
  have hvalue : ∀ name ∈ ["angle", "buffersize"], (a.find? name).bind (·.attribute? "value") =
      (b.find? name).bind (·.attribute? "value") := by
    have hknown : ∀ name ∈ ["angle", "buffersize"],
        name ∈ lookedUpNames ∧ "value" ∈ lookedUpKeys name := by decide
    exact fun name hname => hfinds.bind_eq name (hknown name hname).1 fun c d hcd hc =>
      halike.attribute? hcd "value" (hc ▸ (hknown name hname).2)
  rw [hvalue "angle" (by simp), hvalue "buffersize" (by simp)]
  refine hfinds.bind_eq "label" (by decide) fun c d hcd hc => ?_
  rw [halike.attribute? hcd "field" (hc ▸ by decide)]

section Layer

variable (h : Alike first second) (hname : first.name = "maplayer")
include h hname

omit halike in
/-- The attributes that are read of a layer are the same. -/
theorem attribute?_layer_eq (halike : IsLookalike Alike) :
    ∀ key ∈ lookedUpKeys "maplayer", first.attribute? key = second.attribute? key :=
  hname ▸ halike.attribute? h

/-- The same scale range is read. -/
theorem ScaleRange.ofLayer?_eq : ScaleRange.ofLayer? first = ScaleRange.ofLayer? second := by
  have hkey := attribute?_layer_eq h hname halike
  simp only [ScaleRange.ofLayer?, hkey "scaleBasedVisibilityFlag" (by decide),
    hkey "minScale" (by decide), hkey "maxScale" (by decide)]

namespace Layer

/-- The same kind is read. -/
theorem kindOf_eq : kindOf first = kindOf second := by
  have hkey := attribute?_layer_eq h hname halike
  rw [kindOf, kindOf, hkey "type" (by decide), hkey "geometry" (by decide)]

omit hname in
/-- The same connection is read. -/
theorem connectionOf_eq (kind : LayerKind) (provider : Provider) (dataSource : String) :
    connectionOf first kind provider dataSource = connectionOf second kind provider dataSource := by
  simp only [connectionOf, Wms.ofLayer_eq halike (halike.finds h)]

omit hname in
/-- The same transparency is read. -/
theorem transparencyOf_eq : transparencyOf first = transparencyOf second := by
  rw [transparencyOf, transparencyOf,
    (halike.finds h).findContent? halike "transparencyLevelInt" (by decide)]

/-- The same layer is read, or the same fault is found. -/
theorem ofElement_eq (index : Nat) : ofElement first index = ofElement second index := by
  have hcontent := (halike.finds h).findContent? halike
  have hnamed (name : String) : ofNamedElement first name = ofNamedElement second name := by
    rw [ofNamedElement, ofNamedElement, kindOf_eq halike h hname,
      hcontent "datasource" (by decide), hcontent "provider" (by decide),
      hcontent "proj4" (by decide), transparencyOf_eq halike h,
      Renderer.ofLayer_eq halike (halike.finds h), ScaleRange.ofLayer?_eq halike h hname,
      Labelling.ofLayer?_eq halike h]
    simp only [connectionOf_eq halike h]
  simp only [ofElement, hcontent "layername" (by decide), hnamed]

end Layer

end Layer

namespace Document

/-- The same layers are read of elements that are alike. -/
theorem layersFrom_eq {elements others : List Element}
    (h : List.Forall₂ (fun a b => a.name = "maplayer" ∧ Alike a b) elements others) (index : Nat) :
    layersFrom index elements = layersFrom index others := by
  induction h generalizing index with
  | nil => rfl
  | cons hrel _ ih => rw [layersFrom, layersFrom, Layer.ofElement_eq halike hrel.2 hrel.1, ih]

variable {document other : Document} (h : FindsAlike Alike document.root other.root)
include h

/-- The same bounds are read. -/
theorem bounds_eq : document.bounds = other.bounds := by
  have hcontent := h.findContent? halike
  simp only [bounds, hcontent "xmin" (by decide), hcontent "ymin" (by decide),
    hcontent "xmax" (by decide), hcontent "ymax" (by decide)]

/-- The same destination is read. -/
theorem destination_eq : document.destination = other.destination := by
  rw [destination, destination]
  refine congrArg (require "destinationsrs/proj4") (h.bind_eq "destinationsrs" (by decide) ?_)
  exact fun a b hab _ => (halike.finds hab).findContent? halike "proj4" (by decide)

/-- The same layers are read, or the same fault is found. -/
theorem layers_eq : document.layers = other.layers := by
  have halike' := h.findAll "maplayer" (by decide)
  exact layersFrom_eq halike
    ((List.forall₂_and_left _ _).mpr ⟨fun _ => Element.name_of_mem_findAll, halike'⟩) 0

end Document

end Carta.Project

namespace Carta.Mapfile

open Carta.Project (Document)
open Carta.Xml (Element FindsAlike IsLookalike)

/-- Documents of the same source in which all lookups find elements that are alike make the same
mapfile, or fail with the same error. -/
theorem render_eq_of_findsAlike {Alike : Element → Element → Prop} (halike : IsLookalike Alike)
    {document other : Document} (hsource : document.source = other.source)
    (h : FindsAlike Alike document.root other.root) (options : Options) :
    render options document = render options other := by
  rw [render, render, ofDocument, ofDocument, Document.bounds_eq halike h,
    Document.destination_eq halike h, Document.layers_eq halike h, hsource]

end Carta.Mapfile
