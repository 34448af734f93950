import Carta.Proofs.DistinctKeys
import Carta.Proofs.Lookups
import Carta.Proofs.MapfileParts
import Carta.Proofs.Serialization

/-!
# The order of attributes is irrelevant

An attribute is looked up by its key, and the first one with the key counts. Where no element has two
attributes with one key there is no other, so the order in which the attributes stand makes no
difference. In a document that is read from valid UTF-8 this is so in every element.
-/

namespace Carta.Xml

mutual

/-- An element, and the same with the attributes of each element in it in another order. -/
inductive Reordered : Element → Element → Prop
  | element {name text : String} {attributes others : List (String × String)}
      {children more : List Element} (hattributes : attributes.Perm others)
      (hchildren : AllReordered children more) :
      Reordered ⟨name, attributes, children, text⟩ ⟨name, others, more, text⟩

/-- Elements, and the same with the attributes of each element in them in another order. -/
inductive AllReordered : List Element → List Element → Prop
  | nil : AllReordered [] []
  | cons {first other : Element} {rest more : List Element} (hfirst : Reordered first other)
      (hrest : AllReordered rest more) : AllReordered (first :: rest) (other :: more)

end

/-- No element of a tree has two attributes with one key. -/
def Element.HasDistinctKeys (element : Element) : Prop :=
  ∀ inner ∈ element.outline 0, (inner.2.attributes.map (·.1)).Nodup

namespace Element.HasDistinctKeys

variable {element : Element}

/-- Where keys are distinct, no tag of the element or of one below it has a key twice. -/
theorem heads (h : element.HasDistinctKeys) :
    ∀ head ∈ element.heads, (head.attributes.map (·.1)).Nodup := by
  intro head hhead
  obtain ⟨inner, hinner, rfl⟩ := List.mem_map.mp hhead
  exact h inner hinner

/-- Keys are distinct when no tag of the element or of one below it has a key twice. -/
theorem of_heads (h : ∀ head ∈ element.heads, (head.attributes.map (·.1)).Nodup) :
    element.HasDistinctKeys :=
  fun inner hinner => h inner.2.head (List.mem_map.mpr ⟨inner, hinner, rfl⟩)

/-- The keys of an element are distinct when its own are, and those in its children. -/
theorem attributes (h : element.HasDistinctKeys) : (element.attributes.map (·.1)).Nodup :=
  h.heads element.head (element.heads_eq ▸ List.mem_cons_self)

/-- The keys of a child are distinct when those of its parent are. -/
theorem child (h : element.HasDistinctKeys) {child : Element} (hchild : child ∈ element.children) :
    child.HasDistinctKeys :=
  .of_heads fun head hhead => h.heads head <| by
    rw [element.heads_eq]
    exact List.mem_cons_of_mem _ (List.mem_flatMap.mpr ⟨child, hchild, hhead⟩)

end Element.HasDistinctKeys

/-- An element without a key twice, and the same with its attributes in another order. -/
structure SameButOrder (first second : Element) : Prop where
  reordered : Reordered first second
  distinct : first.HasDistinctKeys

/-- The attribute with a key is the same in every order. -/
theorem find?_eq_of_perm {attributes others : List (String × String)}
    (hperm : attributes.Perm others) (hkeys : (attributes.map (·.1)).Nodup) (key : String) :
    attributes.find? (·.1 = key) = others.find? (·.1 = key) := by
  induction hperm with
  | nil => rfl
  | cons entry _ ih =>
    rw [List.map_cons, List.nodup_cons] at hkeys
    rw [List.find?_cons, List.find?_cons, ih hkeys.2]
  | swap first second rest =>
    -- At most one of the two has the key.
    have hne : second.1 ≠ first.1 := by
      rintro heq
      simp [heq] at hkeys
    by_cases hfirst : first.1 = key
    · have hsecond : second.1 ≠ key := hfirst ▸ hne
      simp [hfirst, hsecond]
    · rw [List.find?_cons, List.find?_cons, List.find?_cons, List.find?_cons]
      simp only [hfirst, decide_false]
  | trans hfirst _ ih ih' =>
    exact (ih hkeys).trans (ih' ((hfirst.map _).nodup_iff.mp hkeys))

/-- An element keeps its name when its attributes are reordered. -/
theorem Reordered.name_eq {first second : Element} (h : Reordered first second) :
    first.name = second.name := by
  cases h
  rfl

/-- The children of a reordered element are reordered one by one. -/
theorem Reordered.children {first second : Element} (h : Reordered first second) :
    AllReordered first.children second.children := by
  cases h with
  | element _ hchildren => exact hchildren

mutual

/-- The same is found by a name, but for the order of attributes. -/
theorem Reordered.find? (name : String) : ∀ {first second : Element}, Reordered first second →
    first.HasDistinctKeys → Option.Rel SameButOrder (first.find? name) (second.find? name)
  | _, _, .element _ hchildren, hkeys => hchildren.findAmong? name fun _ => hkeys.child

/-- Looking for a name among reordered elements finds the same element but for the order of
attributes, or none. -/
theorem AllReordered.findAmong? (name : String) : ∀ {elements others : List Element},
    AllReordered elements others → (∀ element ∈ elements, element.HasDistinctKeys) →
    Option.Rel SameButOrder (Element.findAmong? name elements) (Element.findAmong? name others)
  | _, _, .nil, _ => .none
  | _, _, .cons hfirst hrest, hkeys => by
    rw [List.forall_mem_cons] at hkeys
    rw [Element.findAmong?, Element.findAmong?, hfirst.name_eq]
    split
    next => exact .some ⟨hfirst, hkeys.1⟩
    next => exact rel_or (hfirst.find? name hkeys.1) (hrest.findAmong? name hkeys.2)

end

mutual

/-- The same are found by a name, but for the order of attributes. -/
theorem Reordered.findAll (name : String) : ∀ {first second : Element}, Reordered first second →
    first.HasDistinctKeys → List.Forall₂ SameButOrder (first.findAll name) (second.findAll name)
  | _, _, .element _ hchildren, hkeys => hchildren.findAllAmong name fun _ => hkeys.child

/-- All elements with a name among reordered ones are the same but for the order of attributes. -/
theorem AllReordered.findAllAmong (name : String) : ∀ {elements others : List Element},
    AllReordered elements others → (∀ element ∈ elements, element.HasDistinctKeys) →
    List.Forall₂ SameButOrder (Element.findAllAmong name elements) (Element.findAllAmong name others)
  | _, _, .nil, _ => .nil
  | _, _, .cons hfirst hrest, hkeys => by
    rw [List.forall_mem_cons] at hkeys
    rw [Element.findAllAmong, Element.findAllAmong, hfirst.name_eq]
    refine List.rel_append (List.rel_append ?_ (hfirst.findAll name hkeys.1))
      (hrest.findAllAmong name hkeys.2)
    split
    next => exact .cons ⟨hfirst, hkeys.1⟩ .nil
    next => exact .nil

end

/-- Elements that are reordered one by one are the same but for the order of attributes. -/
theorem AllReordered.forall₂ : ∀ {elements others : List Element}, AllReordered elements others →
    (∀ element ∈ elements, element.HasDistinctKeys) → List.Forall₂ SameButOrder elements others
  | _, _, .nil, _ => .nil
  | _, _, .cons hfirst hrest, hkeys => by
    rw [List.forall_mem_cons] at hkeys
    exact .cons ⟨hfirst, hkeys.1⟩ (hrest.forall₂ hkeys.2)

/-- The children of elements that differ only in the order of attributes do so too. -/
theorem SameButOrder.children {first second : Element} (h : SameButOrder first second) :
    List.Forall₂ SameButOrder first.children second.children :=
  h.reordered.children.forall₂ fun _ => h.distinct.child

/-- The first with a name is the same but for the order of attributes. -/
theorem find?_of_forall₂ {elements others : List Element}
    (h : List.Forall₂ SameButOrder elements others) (name : String) :
    Option.Rel SameButOrder (elements.find? (·.name = name)) (others.find? (·.name = name)) := by
  induction h with
  | nil => exact .none
  | cons hsame _ ih =>
    rw [List.find?_cons, List.find?_cons, hsame.reordered.name_eq]
    split
    next => exact .some hsame
    next => exact ih

/-- No lookup tells an element from the same with its attributes in another order. -/
theorem isLookalike_sameButOrder : IsLookalike SameButOrder where
  name h := h.reordered.name_eq
  content? h := by
    obtain ⟨h, -⟩ := h
    cases h
    rfl
  attribute? h key _ := by
    obtain ⟨h, hkeys⟩ := h
    cases h with
    | element hattributes =>
      exact congrArg (Option.map (·.2)) (find?_eq_of_perm hattributes hkeys.attributes key)
  child? h name _ := find?_of_forall₂ h.children name
  childrenNamed h name _ := List.rel_filter
    (fun _ _ hsame => by simp only [hsame.reordered.name_eq]) h.children
  finds h := ⟨fun name _ => h.reordered.find? name h.distinct,
    fun name _ => h.reordered.findAll name h.distinct⟩

end Carta.Xml

namespace Carta.Mapfile

open Carta.Project (Document)
open Carta.Xml (AllReordered Element Reordered isLookalike_sameButOrder parse)

/-- In a document that is read from valid UTF-8 no element has two attributes with one key. So in
whatever order the attributes of each element are put, a project has the same layers and the same
mapfile is made of it, or the same errors are reported. -/
theorem render_reordered {bytes : List UInt8} {text : String}
    (htext : Text.Utf8.decode bytes = .ok text) {root : Element} (h : parse bytes = .ok root) :
    root.HasDistinctKeys ∧ ∀ other, Reordered root other → ∀ source,
      Document.layers ⟨root, source⟩ = Document.layers ⟨other, source⟩ ∧
      ∀ options, render options ⟨root, source⟩ = render options ⟨other, source⟩ := by
  have hdistinct : root.HasDistinctKeys :=
    .of_heads (Xml.nodup_keys_of_parse ⟨_, Text.Utf8.decode_eq_ok_iff.mp htext⟩ h)
  refine ⟨hdistinct, fun other hother source => ?_⟩
  have hfinds := isLookalike_sameButOrder.finds ⟨hother, hdistinct⟩
  exact ⟨Document.layers_eq isLookalike_sameButOrder hfinds,
    render_eq_of_findsAlike isLookalike_sameButOrder rfl hfinds⟩

mutual

/-- An element with the attributes of each element in it backwards. -/
def backwards : Element → Element
  | ⟨name, attributes, children, text⟩ =>
    ⟨name, attributes.reverse, backwardsAll children, text⟩

/-- Elements with the attributes of each element in them backwards. -/
def backwardsAll : List Element → List Element
  | [] => []
  | element :: rest => backwards element :: backwardsAll rest

end

mutual

/-- An element with its attributes backwards is a reordering of it. -/
theorem reordered_backwards : ∀ element : Element, Reordered element (backwards element)
  | ⟨_, attributes, children, _⟩ =>
    .element attributes.reverse_perm.symm (allReordered_backwards children)

/-- Elements with their attributes backwards are reorderings of them. -/
theorem allReordered_backwards : ∀ elements : List Element,
    AllReordered elements (backwardsAll elements)
  | [] => .nil
  | element :: rest => .cons (reordered_backwards element) (allReordered_backwards rest)

end

/-- The survey, written and read, has the mapfile that it has with all attributes backwards. -/
theorem render_backwardsSurvey :
    ∃ text, Text.Utf8.decode surveyDocument.root.serialize = .ok text ∧
    parse surveyDocument.root.serialize = .ok surveyDocument.root ∧
    surveyDocument.root.HasDistinctKeys ∧
    Reordered surveyDocument.root (backwards surveyDocument.root) ∧
    ∃ mapfile, render {} surveyDocument = .ok mapfile ∧
      render {} ⟨backwards surveyDocument.root, surveyDocument.source⟩ = .ok mapfile := by
  have hwritable : surveyDocument.root.Writable := by decide +kernel
  obtain ⟨text, htext⟩ : ∃ text, Text.Utf8.decode surveyDocument.root.serialize = .ok text :=
    exists_eq_ok_of_isOk (by decide +kernel)
  have hparse := Xml.parse_written hwritable (Xml.writtenDocument_serialize _)
  obtain ⟨hdistinct, hsame⟩ := render_reordered htext hparse
  obtain ⟨mapfile, hmapfile⟩ := exists_eq_ok_of_isOk isOk_render_surveyDocument
  have hreordered := reordered_backwards surveyDocument.root
  obtain ⟨-, hrender⟩ := hsame _ hreordered surveyDocument.source
  exact ⟨text, htext, hparse, hdistinct, hreordered, mapfile, hmapfile,
    (hrender {}).symm.trans hmapfile⟩

end Carta.Mapfile
