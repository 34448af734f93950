import Carta.Proofs.SymbolUse

/-!
# What the writer of a layer needs

Styles and classes may lack anything; what they lack is an error only where it is written. A writer
checks what it needs in a fixed order and stops at the first thing that is not there. Two writers
one after the other need what the first needs and then what the second needs, so the needs of a layer
are those of its styles and classes in the order in which they are written.
-/

namespace Carta

open Carta.Project (Geometry Labelling Layer Renderer Style StyledClass)

variable {A B : Type}

/-- The first field of a list that is not there. -/
def firstLacking? (needs : List (String × Bool)) : Option String :=
  (needs.find? fun need => !need.2).map Prod.fst

/-- A writer that needs certain fields: it fails by the first one that is not there, and only so. -/
def Needs (result : Except Error A) (needs : List (String × Bool)) : Prop :=
  match firstLacking? needs with
  | none => ∃ a, result = .ok a
  | some field => result = .error (.missing field)

/-- Nothing is lacking when everything is there. -/
theorem firstLacking?_eq_none_iff {needs : List (String × Bool)} :
    firstLacking? needs = none ↔ ∀ need ∈ needs, need.2 = true := by
  simp [firstLacking?]

/-- What is lacking first is lacking in the first part, or else in the second. -/
theorem firstLacking?_append (first second : List (String × Bool)) :
    firstLacking? (first ++ second) = (firstLacking? first).or (firstLacking? second) := by
  rw [firstLacking?, List.find?_append, firstLacking?, firstLacking?]
  cases first.find? fun need => !need.2 <;> rfl

/-- Of fields that are tested by their names, the first that is lacking comes after ones that are
there. -/
theorem firstLacking?_map_eq_some_iff {names : List String} {test : String → Bool} {name : String} :
    firstLacking? (names.map fun name => (name, test name)) = some name ↔
      ∃ before after, names = before ++ name :: after ∧ (∀ earlier ∈ before, test earlier = true) ∧
        test name = false := by
  have hfind : firstLacking? (names.map fun name => (name, test name)) =
      names.find? fun name => !test name := by
    simp [firstLacking?, List.find?_map, Function.comp_def]
  rw [hfind, List.find?_eq_some_iff_append]
  constructor
  · rintro ⟨hname, before, after, rfl, hbefore⟩
    exact ⟨before, after, rfl, by simpa using hbefore, by simpa using hname⟩
  · rintro ⟨before, after, rfl, hbefore, hname⟩
    exact ⟨by simpa using hname, before, after, rfl, by simpa using hbefore⟩

namespace Needs

/-- A success needs nothing. -/
theorem ofOk (a : A) : Needs (.ok a) [] :=
  ⟨a, rfl⟩

/-- A required field is needed. -/
theorem ofRequire (field : String) (value : Option A) :
    Needs (require field value) [(field, value.isSome)] := by
  cases value with
  | none => exact rfl
  | some a => exact ⟨a, rfl⟩

/-- What two steps need is what the first needs and then what the second needs. -/
theorem andThen {first : Except Error A} {next : A → Except Error B}
    {firstNeeds nextNeeds : List (String × Bool)} (hfirst : Needs first firstNeeds)
    (hnext : ∀ a, Needs (next a) nextNeeds) : Needs (first >>= next) (firstNeeds ++ nextNeeds) := by
  unfold Needs at hfirst ⊢
  rw [firstLacking?_append]
  cases hlacking : firstLacking? firstNeeds with
  | none =>
    rw [hlacking] at hfirst
    obtain ⟨a, rfl⟩ := hfirst
    exact hnext a
  | some field =>
    rw [hlacking] at hfirst
    rw [hfirst]
    rfl

/-- A last step that cannot fail needs nothing. -/
theorem thenOk {result : Except Error A} {needs : List (String × Bool)} (h : Needs result needs)
    (f : A → B) : Needs (result >>= fun a => .ok (f a)) needs := by
  have hlast := h.andThen fun a => ofOk (f a)
  rwa [List.append_nil] at hlast

/-- Changing the form of a result needs nothing. -/
theorem map {result : Except Error A} {needs : List (String × Bool)} (h : Needs result needs)
    (f : A → B) : Needs (result.map f) needs := by
  have hmap : result.map f = result >>= fun a => .ok (f a) := by cases result <;> rfl
  rw [hmap]
  exact h.thenOk f

/-- A writer succeeds when nothing that it needs is lacking. -/
theorem exists_eq_ok_iff {result : Except Error A} {needs : List (String × Bool)}
    (h : Needs result needs) : (∃ a, result = .ok a) ↔ ∀ need ∈ needs, need.2 = true := by
  rw [← firstLacking?_eq_none_iff]
  unfold Needs at h
  cases hlacking : firstLacking? needs with
  | none => simpa [hlacking] using h
  | some field =>
    rw [hlacking] at h
    simp [h]

/-- A writer fails by the first field that is lacking. -/
theorem eq_error_iff {result : Except Error A} {needs : List (String × Bool)} (h : Needs result needs)
    {e : Error} : result = .error e ↔ ∃ field, firstLacking? needs = some field ∧ e = .missing field := by
  unfold Needs at h
  cases hlacking : firstLacking? needs with
  | none =>
    rw [hlacking] at h
    obtain ⟨a, rfl⟩ := h
    simp
  | some field =>
    rw [hlacking] at h
    simp [h, eq_comm]

end Needs

namespace Project

/-- What the writer of a style needs, in the order in which it is checked. -/
def Style.needs (geometry : Option Geometry) (style : Style) : List (String × Bool) :=
  (if geometry.any Geometry.hasSize then [("pointsize", style.size.isSome)] else []) ++
    [("outlinecolor", style.outline.isSome), ("fillcolor", style.fill.isSome)]

/-- What the writer of a class of a graduation needs. -/
def StyledClass.rangeNeeds (geometry : Option Geometry) (styledClass : StyledClass) :
    List (String × Bool) :=
  [("lowervalue", styledClass.lower.isSome), ("uppervalue", styledClass.upper.isSome)] ++
    styledClass.style.needs geometry

/-- What the writer of a class of unique values needs. -/
def StyledClass.valueNeeds (geometry : Option Geometry) (styledClass : StyledClass) :
    List (String × Bool) :=
  ("lowervalue", styledClass.lower.isSome) :: styledClass.style.needs geometry

/-- What the writer of a renderer needs. -/
def Renderer.needs (geometry : Option Geometry) : Renderer → List (String × Bool)
  | .single style => style.needs geometry
  | .graduated _ classes => classes.flatMap (·.rangeNeeds geometry)
  | .continuous _ lowest highest =>
    [("fillcolor", lowest.style.fill.isSome), ("fillcolor", highest.style.fill.isSome),
      ("lowervalue", lowest.lower.isSome), ("lowervalue", highest.lower.isSome),
      ("outlinecolor", lowest.style.outline.isSome)]
  | .unique _ classes => classes.flatMap (·.valueNeeds geometry)
  | .absent => []

/-- What the writer of a layer needs. -/
def Layer.needs (layer : Layer) : List (String × Bool) :=
  layer.renderer.needs layer.geometry?

/-- A style that can be written in a layer with a geometry. -/
structure Style.Complete (geometry : Option Geometry) (style : Style) : Prop where
  outline : style.outline.isSome = true
  fill : style.fill.isSome = true
  size : geometry = some .point ∨ geometry = some .line → style.size.isSome = true

/-- A renderer that can be written in a layer with a geometry. -/
def Renderer.Complete (geometry : Option Geometry) : Renderer → Prop
  | .single style => style.Complete geometry
  | .graduated _ classes => ∀ styledClass ∈ classes,
    styledClass.lower.isSome = true ∧ styledClass.upper.isSome = true ∧
      styledClass.style.Complete geometry
  | .continuous _ lowest highest =>
    lowest.style.fill.isSome = true ∧ highest.style.fill.isSome = true ∧
      lowest.lower.isSome = true ∧ highest.lower.isSome = true ∧ lowest.style.outline.isSome = true
  | .unique _ classes => ∀ styledClass ∈ classes,
    styledClass.lower.isSome = true ∧ styledClass.style.Complete geometry
  | .absent => True

/-- A layer that can be written. -/
def Layer.Complete (layer : Layer) : Prop :=
  layer.renderer.Complete layer.geometry?

/-- Points and lines have a size, and nothing else has. -/
theorem Geometry.any_hasSize_iff {geometry : Option Geometry} :
    geometry.any hasSize = true ↔ geometry = some .point ∨ geometry = some .line := by
  rcases geometry with _ | (_ | _ | _) <;> decide

/-- A style can be written when everything that its writer needs is there. -/
theorem Style.complete_iff {geometry : Option Geometry} {style : Style} :
    style.Complete geometry ↔ ∀ need ∈ style.needs geometry, need.2 = true := by
  unfold Style.needs
  constructor
  · rintro ⟨houtline, hfill, hpoint⟩
    split
    next h => simp [houtline, hfill, hpoint (Geometry.any_hasSize_iff.mp h)]
    next => simp [houtline, hfill]
  · intro h
    rw [List.forall_mem_append, List.forall_mem_cons, List.forall_mem_singleton] at h
    refine ⟨h.2.1, h.2.2, ?_⟩
    intro hpoint
    rw [if_pos (Geometry.any_hasSize_iff.mpr hpoint), List.forall_mem_singleton] at h
    exact h.1

/-- A renderer can be written when everything that its writer needs is there. -/
theorem Renderer.complete_iff {geometry : Option Geometry} {renderer : Renderer} :
    renderer.Complete geometry ↔ ∀ need ∈ renderer.needs geometry, need.2 = true := by
  cases renderer with
  | single style => exact Style.complete_iff
  | graduated field classes =>
    simp only [Renderer.Complete, Renderer.needs, List.forall_mem_flatMap, StyledClass.rangeNeeds,
      List.cons_append, List.nil_append, List.forall_mem_cons, Style.complete_iff]
  | continuous field lowest highest => simp [Renderer.Complete, Renderer.needs]
  | unique field classes =>
    simp only [Renderer.Complete, Renderer.needs, List.forall_mem_flatMap, StyledClass.valueNeeds,
      List.forall_mem_cons, Style.complete_iff]
  | absent => simp [Renderer.Complete, Renderer.needs]

end Project

namespace Mapfile

/-- The block of a style needs what the style needs. -/
theorem styleBlock_needs (geometry : Option Geometry) (style : Style) (set : SymbolSet) :
    Needs (styleBlock geometry style set) (style.needs geometry) := by
  have hsize : Needs (sizeEntries geometry style)
      (if geometry.any Geometry.hasSize then [("pointsize", style.size.isSome)] else []) := by
    unfold sizeEntries
    split
    next => exact (Needs.ofRequire "pointsize" style.size).andThen fun _ => Needs.ofOk _
    next => exact Needs.ofOk _
  exact hsize.andThen fun _ => (Needs.ofRequire "outlinecolor" style.outline).andThen fun _ =>
    (Needs.ofRequire "fillcolor" style.fill).andThen fun _ => Needs.ofOk _

/-- The block of a class needs what its style needs. -/
theorem classBlock_needs (geometry : Option Geometry) (labelling : Option Labelling)
    (opening : List Entry) (style : Style) (set : SymbolSet) :
    Needs (classBlock geometry labelling opening style set) (style.needs geometry) :=
  (styleBlock_needs geometry style set).thenOk _

/-- The blocks of classes need what each class needs, one class after the other. -/
theorem classBlocks_needs {geometry : Option Geometry} {labelling : Option Labelling}
    {opening : StyledClass → Except Error (List Entry)}
    {openingNeeds : StyledClass → List (String × Bool)}
    (hopening : ∀ styledClass, Needs (opening styledClass) (openingNeeds styledClass))
    (classes : List StyledClass) (set : SymbolSet) :
    Needs (classBlocks geometry labelling opening classes set)
      (classes.flatMap fun styledClass =>
        openingNeeds styledClass ++ styledClass.style.needs geometry) := by
  induction classes generalizing set with
  | nil => exact Needs.ofOk _
  | cons styledClass rest ih =>
    rw [List.flatMap_cons, List.append_assoc]
    exact (hopening styledClass).andThen fun entries =>
      (classBlock_needs geometry labelling entries styledClass.style set).andThen fun written =>
        (ih written.2).thenOk _

/-- The entries of a renderer need what the renderer needs. -/
theorem rendererEntries_needs (name : String) (geometry : Option Geometry)
    (labelling : Option Labelling) (renderer : Renderer) (set : SymbolSet) :
    Needs (rendererEntries name geometry labelling renderer set) (renderer.needs geometry) := by
  cases renderer with
  | single style => exact (classBlock_needs geometry labelling _ style set).thenOk _
  | graduated field classes =>
    have hopening (styledClass : StyledClass) : Needs (rangeOpening field styledClass)
        [("lowervalue", styledClass.lower.isSome), ("uppervalue", styledClass.upper.isSome)] :=
      (Needs.ofRequire "lowervalue" styledClass.lower).andThen fun _ =>
        (Needs.ofRequire "uppervalue" styledClass.upper).thenOk _
    exact (classBlocks_needs hopening classes set).thenOk _
  | continuous field lowest highest =>
    have hramp : Needs (rampBlock field lowest highest labelling)
        ((Renderer.continuous field lowest highest).needs geometry) :=
      (Needs.ofRequire "fillcolor" lowest.style.fill).andThen fun _ =>
        (Needs.ofRequire "fillcolor" highest.style.fill).andThen fun _ =>
          (Needs.ofRequire "lowervalue" lowest.lower).andThen fun _ =>
            (Needs.ofRequire "lowervalue" highest.lower).andThen fun _ =>
              (Needs.ofRequire "outlinecolor" lowest.style.outline).thenOk _
    exact hramp.thenOk _
  | unique field classes =>
    have hopening (styledClass : StyledClass) : Needs (valueOpening field styledClass)
        [("lowervalue", styledClass.lower.isSome)] :=
      (Needs.ofRequire "lowervalue" styledClass.lower).thenOk _
    exact (classBlocks_needs hopening classes set).thenOk _
  | absent => exact Needs.ofOk _

/-- Writing a layer needs what its renderer needs. -/
theorem layerAlone_needs (layer : Layer) : Needs (layerAlone layer) layer.needs :=
  ((rendererEntries_needs layer.name layer.geometry? layer.labelling layer.renderer {}).thenOk _).map _

/-- A layer can be written when it is complete. -/
theorem exists_layerAlone_eq_ok_iff {layer : Layer} :
    (∃ block, layerAlone layer = .ok block) ↔ layer.Complete := by
  rw [(layerAlone_needs layer).exists_eq_ok_iff, Layer.Complete, Renderer.complete_iff]
  rfl

end Mapfile

end Carta
