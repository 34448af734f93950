import Carta.Proofs.Lookups
import Carta.Proofs.MapfileParts

/-!
# Which descriptor a renderer is read of

A layer may hold any number of descriptors, next to each other and in each other. The first kind
that occurs anywhere below the layer is selected, by its first occurrence. From then on the layer
itself is looked at for one thing only, which is the field of a classification that does not name
its own. So nothing else in the layer has an influence on the renderer.
-/

namespace Carta.Xml.Element

/-- What is below an element: its children, and what is below them. -/
inductive Below (found : Element) : Element → Prop
  | child {element : Element} (h : found ∈ element.children) : Below found element
  | deeper {child element : Element} (hchild : child ∈ element.children) (h : Below found child) :
    Below found element

mutual

/-- Nothing is found by a name when nothing below has it. -/
theorem find?_eq_none_iff {name : String} : ∀ {element : Element},
    element.find? name = none ↔ ∀ found, Below found element → found.name ≠ name
  | ⟨_, _, children, _⟩ => by
    rw [find?, findAmong?_eq_none_iff]
    constructor
    · intro h found hbelow
      cases hbelow with
      | child hchild => exact h found hchild found (.inl rfl)
      | deeper hchild hbelow => exact h _ hchild found (.inr hbelow)
    · rintro h child hchild found (rfl | hbelow)
      · exact h found (.child hchild)
      · exact h found (.deeper hchild hbelow)

/-- Nothing is found by a name among elements when none of them has it and nothing below them. -/
theorem findAmong?_eq_none_iff {name : String} : ∀ {elements : List Element},
    findAmong? name elements = none ↔
      ∀ element ∈ elements, ∀ found, found = element ∨ Below found element → found.name ≠ name
  | [] => by simp [findAmong?]
  | element :: rest => by
    rw [findAmong?, List.forall_mem_cons, ← findAmong?_eq_none_iff]
    split
    next hname =>
      refine iff_of_false nofun fun h => ?_
      exact h.1 element (.inl rfl) hname
    next hname =>
      rw [Option.or_eq_none_iff, find?_eq_none_iff]
      simp [hname]

end

end Carta.Xml.Element

namespace Carta.Project

open Carta.Xml (Element)

/-- The kinds that come before a kind. -/
def DescriptorKind.preferred (kind : DescriptorKind) : List DescriptorKind :=
  all.takeWhile (· ≠ kind)

namespace Renderer

/-- The kind of descriptor that a renderer is read of. -/
def kind? : Renderer → Option DescriptorKind
  | .single _ => some .single
  | .graduated _ _ => some .graduated
  | .continuous _ _ _ => some .continuous
  | .unique _ _ => some .unique
  | .absent => none

/-- The field that a renderer classifies by. -/
def field? : Renderer → Option String
  | .single _ => none
  | .graduated field _ => some field
  | .continuous field _ _ => some field
  | .unique field _ => some field
  | .absent => none

/-- A descriptor is the first one of its kind below a layer, and there is none of a kind that comes
before. -/
structure IsSelected (layer : Element) (kind : DescriptorKind) (descriptor : Element) : Prop where
  first : layer.find? kind.tag = some descriptor
  noPreferred : ∀ preferred ∈ kind.preferred, ∀ found, Element.Below found layer →
    found.name ≠ preferred.tag

/-- Of kinds in an order, the first one that something is found for. -/
theorem findSome?_kinds {find : DescriptorKind → Option Element} {kind : DescriptorKind}
    {descriptor : Element} (kinds : List DescriptorKind) :
    (kinds.findSome? fun kind => (find kind).map (kind, ·)) = some (kind, descriptor) ↔
      kind ∈ kinds ∧ find kind = some descriptor ∧
        ∀ preferred ∈ kinds.takeWhile (· ≠ kind), find preferred = none := by
  induction kinds with
  | nil => simp
  | cons first rest ih =>
    by_cases hfirst : first = kind
    · subst hfirst
      cases hfound : find first with
      | none => simp [hfound, ih]
      | some found => simp [hfound]
    · cases hfound : find first with
      | none => simp [hfound, ih, hfirst, Ne.symm hfirst]
      | some found => simp [hfound, hfirst, Ne.symm hfirst]

/-- A layer has the descriptor that is selected. -/
theorem descriptor?_eq_some_iff {layer : Element} {kind : DescriptorKind} {descriptor : Element} :
    descriptor? layer = some (kind, descriptor) ↔ IsSelected layer kind descriptor := by
  have hall : kind ∈ DescriptorKind.all := by cases kind <;> decide
  rw [descriptor?, findSome?_kinds]
  simp only [Element.find?_eq_none_iff]
  exact ⟨fun h => ⟨h.2.1, h.2.2⟩, fun h => ⟨hall, h.first, h.noPreferred⟩⟩

/-- A layer has no descriptor when nothing below it has the name of one. -/
theorem descriptor?_eq_none_iff {layer : Element} : descriptor? layer = none ↔
    ∀ kind found, Element.Below found layer → found.name ≠ DescriptorKind.tag kind := by
  have hall : ∀ kind : DescriptorKind, kind ∈ DescriptorKind.all := by
    intro kind
    cases kind <;> decide
  simp only [descriptor?, List.findSome?_eq_none_iff, Option.map_eq_none_iff, hall,
    Element.find?_eq_none_iff, true_imp_iff]

section Selected

variable {layer : Element} {kind : DescriptorKind} {descriptor : Element}

/-- The renderer of a layer is that of the descriptor that is selected. -/
theorem IsSelected.ofLayer_eq (h : IsSelected layer kind descriptor) :
    ofLayer layer = ofDescriptor layer kind descriptor := by
  rw [ofLayer, descriptor?_eq_some_iff.mpr h]

/-- A descriptor that names its field has the same one in every layer. -/
theorem classificationField_eq_of_own
    (h : (descriptor.findContent? "classificationattribute").isSome = true) (other : Element) :
    classificationField descriptor layer = classificationField descriptor other := by
  obtain ⟨field, hfield⟩ := Option.isSome_iff_exists.mp h
  rw [classificationField, classificationField, hfield, Option.some_or, Option.some_or]

/-- A descriptor is read alike in layers in which it has the same field. -/
theorem ofDescriptor_eq_of_field {other : Element}
    (h : kind = .single ∨
      classificationField descriptor layer = classificationField descriptor other) :
    ofDescriptor layer kind descriptor = ofDescriptor other kind descriptor := by
  rcases h with rfl | hfield
  · rfl
  · cases kind with
    | single => rfl
    | graduated => rw [ofDescriptor, ofDescriptor, hfield]
    | continuous => rw [ofDescriptor, ofDescriptor, hfield]
    | unique => rw [ofDescriptor, ofDescriptor, hfield]

/-- A classification without a field is not read, whatever else is in its descriptor. -/
theorem ofDescriptor_of_no_field {e : Error} (hkind : kind ≠ .single)
    (h : classificationField descriptor layer = .error e) :
    ofDescriptor layer kind descriptor = .error e := by
  cases kind with
  | single => exact absurd rfl hkind
  | graduated => rw [ofDescriptor, h]; rfl
  | continuous => rw [ofDescriptor, h]; rfl
  | unique => rw [ofDescriptor, h]; rfl

/-- A renderer is of the kind of its descriptor, and classifies by the field that is found. -/
theorem kind?_of_ofDescriptor {renderer : Renderer}
    (h : ofDescriptor layer kind descriptor = .ok renderer) : renderer.kind? = some kind ∧
      (kind ≠ .single → renderer.field? = (descriptor.findContent? "classificationattribute").or
        (layer.findContent? "classificationattribute")) := by
  cases kind with
  | single =>
    obtain ⟨symbol, -, h⟩ := bind_eq_ok_iff.mp h
    obtain ⟨style, -, h⟩ := bind_eq_ok_iff.mp h
    obtain rfl := Except.ok.inj h
    exact ⟨rfl, fun hne => absurd rfl hne⟩
  | graduated =>
    obtain ⟨field, hfield, h⟩ := bind_eq_ok_iff.mp h
    obtain ⟨classes, -, h⟩ := bind_eq_ok_iff.mp h
    obtain rfl := Except.ok.inj h
    exact ⟨rfl, fun _ => (require_eq_ok_iff.mp hfield).symm⟩
  | continuous =>
    obtain ⟨field, hfield, h⟩ := bind_eq_ok_iff.mp h
    obtain ⟨lowest, -, h⟩ := bind_eq_ok_iff.mp h
    obtain ⟨highest, -, h⟩ := bind_eq_ok_iff.mp h
    obtain rfl := Except.ok.inj h
    exact ⟨rfl, fun _ => (require_eq_ok_iff.mp hfield).symm⟩
  | unique =>
    obtain ⟨field, hfield, h⟩ := bind_eq_ok_iff.mp h
    obtain ⟨classes, -, h⟩ := bind_eq_ok_iff.mp h
    obtain rfl := Except.ok.inj h
    exact ⟨rfl, fun _ => (require_eq_ok_iff.mp hfield).symm⟩

end Selected

/-- The renderer of a layer is that of the first descriptor of the first kind that occurs below it,
and there is none when no kind occurs. Layers with the same descriptor selected have the same
renderer or the same error, whatever else is in them, when the descriptor is that of a single symbol
or names its field. Otherwise the field is the first one named in the layer, and that is all that
counts; it is missing when that one is absent or blank. -/
theorem ofLayer_selects_first (layer : Element) :
    ((∀ kind found, Element.Below found layer → found.name ≠ DescriptorKind.tag kind) →
      ofLayer layer = .ok .absent) ∧
    ((∃ kind found, Element.Below found layer ∧ found.name = DescriptorKind.tag kind) →
      ∃ kind descriptor, IsSelected layer kind descriptor) ∧
    ∀ kind descriptor, IsSelected layer kind descriptor →
      ofLayer layer = ofDescriptor layer kind descriptor ∧
      (∀ renderer, ofLayer layer = .ok renderer → renderer.kind? = some kind) ∧
      (kind = .single ∨ (descriptor.findContent? "classificationattribute").isSome = true →
        ∀ other, IsSelected other kind descriptor → ofLayer layer = ofLayer other) ∧
      (kind ≠ .single → descriptor.findContent? "classificationattribute" = none →
        (layer.findContent? "classificationattribute" = none →
          ofLayer layer = .error (.missing "classificationattribute")) ∧
        (∀ renderer, ofLayer layer = .ok renderer →
          renderer.field? = layer.findContent? "classificationattribute") ∧
        ∀ other, IsSelected other kind descriptor →
          layer.findContent? "classificationattribute" =
            other.findContent? "classificationattribute" →
          ofLayer layer = ofLayer other) := by
  refine ⟨fun hnone => ?_, fun ⟨kind, found, hbelow, hname⟩ => ?_, fun kind descriptor h => ?_⟩
  · rw [ofLayer, descriptor?_eq_none_iff.mpr hnone]
  · cases hdescriptor : descriptor? layer with
    | none => exact absurd hname (descriptor?_eq_none_iff.mp hdescriptor kind found hbelow)
    | some selected => exact ⟨selected.1, selected.2, descriptor?_eq_some_iff.mp hdescriptor⟩
  · have hread := h.ofLayer_eq
    refine ⟨hread, fun renderer hrenderer => ?_, fun hown other hother => ?_, fun hkind hnone => ?_⟩
    · exact (kind?_of_ofDescriptor (hread.symm.trans hrenderer)).1
    · rw [hread, hother.ofLayer_eq]
      exact ofDescriptor_eq_of_field (hown.imp_right fun hown => classificationField_eq_of_own hown other)
    · have hfield : classificationField descriptor layer =
          require "classificationattribute" (layer.findContent? "classificationattribute") := by
        rw [classificationField, hnone, Option.none_or]
      refine ⟨fun hmissing => ?_, fun renderer hrenderer => ?_, fun other hother hsame => ?_⟩
      · rw [hread]
        refine ofDescriptor_of_no_field hkind ?_
        rw [hfield, hmissing]
        rfl
      · have hrendered := (kind?_of_ofDescriptor (hread.symm.trans hrenderer)).2 hkind
        rwa [hnone, Option.none_or] at hrendered
      · rw [hread, hother.ofLayer_eq]
        refine ofDescriptor_eq_of_field (.inr ?_)
        rw [hfield, hsame, classificationField, hnone, Option.none_or]

/-- A layer with nothing but a descriptor. -/
def plainLayer (descriptor : Element) : Element where
  name := "maplayer"
  children := [descriptor]

/-- A layer with a descriptor inside of another element, among others that say something else. -/
def crowdedLayer (descriptor : Element) : Element where
  name := "maplayer"
  children :=
    [{ name := "uniquevalue" }, Mapfile.textElement "classificationattribute" "depth",
      { name := "legend", children := [descriptor] }, { name := "graduatedsymbol" },
      Mapfile.textElement "classificationattribute" "age"]

/-- The classes of springs, with elements that name a field or without. -/
def springClasses (fields : List Element) : Element where
  name := "graduatedsymbol"
  children := fields ++ [Mapfile.symbolElement "hard:star" "0" "5"]

/-- The classes of springs by their flow. -/
def flowClasses : Element :=
  springClasses [Mapfile.textElement "classificationattribute" "flow"]

/-- The same descriptor is selected in the crowded layer and in the plain one. -/
theorem isSelected_springClasses {descriptor : Element} (hname : descriptor.name = "graduatedsymbol")
    (hnone : descriptor.find? "singlesymbol" = none) :
    IsSelected (crowdedLayer descriptor) .graduated descriptor ∧
      IsSelected (plainLayer descriptor) .graduated descriptor := by
  rw [← descriptor?_eq_some_iff, ← descriptor?_eq_some_iff]
  simp [descriptor?, DescriptorKind.all, DescriptorKind.tag, crowdedLayer, plainLayer,
    Element.find?, Element.findAmong?, Mapfile.textElement, hname, hnone]

/-- The crowded layer has the renderer of the plain one when the descriptor names its field. When it
does not, the crowded layer is classified by its own field, and the plain one has none. -/
theorem crowdedLayer_selects_first :
    ofLayer { name := "maplayer" } = .ok .absent ∧
    (∃ renderer, ofLayer (crowdedLayer flowClasses) = .ok renderer ∧
      renderer.kind? = some .graduated ∧ ofLayer (plainLayer flowClasses) = .ok renderer) ∧
    (∃ renderer, ofLayer (crowdedLayer (springClasses [])) = .ok renderer ∧
      renderer.field? = some "depth") ∧
    ofLayer (plainLayer (springClasses [])) = .error (.missing "classificationattribute") := by
  obtain ⟨hcrowded, hplain⟩ := @isSelected_springClasses flowClasses rfl rfl
  obtain ⟨hcrowded', hplain'⟩ := @isSelected_springClasses (springClasses []) rfl rfl
  refine ⟨?_, ?_, ?_, ?_⟩
  · exact (ofLayer_selects_first { name := "maplayer" }).1 (descriptor?_eq_none_iff.mp rfl)
  · obtain ⟨-, hkind, hsame, -⟩ :=
      (ofLayer_selects_first (crowdedLayer flowClasses)).2.2 .graduated flowClasses hcrowded
    obtain ⟨renderer, hrenderer⟩ := exists_eq_ok_of_isOk
      (show (ofLayer (crowdedLayer flowClasses)).isOk = true by decide)
    have hown : (flowClasses.findContent? "classificationattribute").isSome = true := by decide
    exact ⟨renderer, hrenderer, hkind renderer hrenderer,
      (hsame (.inr hown) _ hplain).symm.trans hrenderer⟩
  · obtain ⟨-, -, -, hfield⟩ := (ofLayer_selects_first (crowdedLayer (springClasses []))).2.2
      .graduated (springClasses []) hcrowded'
    obtain ⟨renderer, hrenderer⟩ := exists_eq_ok_of_isOk
      (show (ofLayer (crowdedLayer (springClasses []))).isOk = true by decide)
    have hdepth : (crowdedLayer (springClasses [])).findContent? "classificationattribute" =
        some "depth" := by decide
    exact ⟨renderer, hrenderer,
      ((hfield (by decide) (by decide)).2.1 renderer hrenderer).trans hdepth⟩
  · obtain ⟨-, -, -, hfield⟩ := (ofLayer_selects_first (plainLayer (springClasses []))).2.2
      .graduated (springClasses []) hplain'
    exact (hfield (by decide) (by decide)).1 (by decide)

end Renderer

end Carta.Project
