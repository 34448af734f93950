import Carta.Proofs.Requirements

/-!
# What is found, by its place

An element below another one has a place there: the number of a child, then the number of a child of
that one, and so on. In document order an element comes before what is below it, and that comes before
all later children, so places are compared number by number, a beginning of a place before the place.

All descendants with a name are those at the places where the name occurs, in this order, and the
other lookups are told by that list: the first descendant is the first of it, the children with the
name are those at places of one number, and only the first one decides about the content.
-/

namespace Carta.Xml.Element

/-- The element at a place. -/
def at? : Element → List Nat → Option Element
  | element, [] => some element
  | element, number :: place => element.children[number]?.bind (at? · place)

/-- A place comes before another one in document order. -/
abbrev Before : List Nat → List Nat → Prop :=
  List.Lex (· < ·)

/-- The places below an element at which a name occurs, in document order. -/
structure Occurrences (name : String) (element : Element) (places : List (List Nat)) : Prop where
  increasing : places.Pairwise Before
  mem_iff : ∀ place, place ∈ places ↔
    place ≠ [] ∧ ∃ found, element.at? place = some found ∧ found.name = name

mutual

/-- The places of the descendants with a name. -/
def placesOf (name : String) : Element → List (List Nat)
  | ⟨_, _, children, _⟩ => placesAmong name 0 children

/-- The places of all with a name among children and their descendants, the first child having a
number. -/
def placesAmong (name : String) (number : Nat) : List Element → List (List Nat)
  | [] => []
  | element :: rest =>
    (if element.name = name then [[number]] else []) ++ (placesOf name element).map (number :: ·) ++
      placesAmong name (number + 1) rest

end

section Children

variable {parent element : Element} {before after : List Element}

/-- A child is at the place that is its number. -/
theorem at?_child (h : parent.children = before ++ element :: after) (place : List Nat) :
    parent.at? (before.length :: place) = element.at? place := by
  have hchild : parent.children[before.length]? = some element := by simp [h]
  rw [at?, hchild, Option.bind_some]

end Children

mutual

/-- The places of an element are those at which the name occurs below it. -/
theorem mem_placesOf {name : String} {place : List Nat} : ∀ {element : Element},
    place ∈ placesOf name element ↔
      place ≠ [] ∧ ∃ found, element.at? place = some found ∧ found.name = name
  | ⟨_, _, children, _⟩ => by
    rw [placesOf, mem_placesAmong]
    simp only [Nat.zero_add]
    constructor
    · rintro ⟨number, below, child, rfl, hchild, found, hfound, hname⟩
      exact ⟨List.cons_ne_nil _ _, found, by rw [at?, hchild, Option.bind_some, hfound], hname⟩
    · rintro ⟨hne, found, hfound, hname⟩
      obtain ⟨number, below, rfl⟩ := List.exists_cons_of_ne_nil hne
      obtain ⟨child, hchild, hfound⟩ := Option.bind_eq_some_iff.mp hfound
      exact ⟨number, below, child, rfl, hchild, found, hfound, hname⟩

/-- A place among elements is one of an element with the name, counted from a number on. -/
theorem mem_placesAmong {name : String} {place : List Nat} : ∀ {number : Nat}
    {elements : List Element}, place ∈ placesAmong name number elements ↔
      ∃ index below element, place = (number + index) :: below ∧ elements[index]? = some element ∧
        ∃ found, element.at? below = some found ∧ found.name = name
  | number, [] => by simp [placesAmong]
  | number, element :: rest => by
    rw [placesAmong, List.mem_append, List.mem_append, List.mem_map, mem_placesAmong]
    constructor
    · rintro ((hself | ⟨below, hbelow, rfl⟩) | ⟨index, below, later, rfl, hlater, hfound⟩)
      · split at hself
        next hname =>
          obtain rfl := List.mem_singleton.mp hself
          exact ⟨0, [], element, rfl, rfl, element, rfl, hname⟩
        next => cases hself
      · exact ⟨0, below, element, rfl, rfl, (mem_placesOf.mp hbelow).2⟩
      · exact ⟨index + 1, below, later, by rw [Nat.add_right_comm, Nat.add_assoc], hlater, hfound⟩
    · rintro ⟨index, below, found, rfl, hat, hfound⟩
      cases index with
      | succ index =>
        exact .inr ⟨index, below, found, by rw [Nat.add_right_comm, Nat.add_assoc], hat, hfound⟩
      | zero =>
        obtain rfl : element = found := Option.some.inj hat
        refine .inl ?_
        cases below with
        | nil =>
          obtain ⟨_, hself, hname⟩ := hfound
          obtain rfl := Option.some.inj hself
          exact .inl (by simp [hname])
        | cons first below =>
          exact .inr ⟨first :: below, mem_placesOf.mpr ⟨List.cons_ne_nil _ _, hfound⟩, rfl⟩

end

mutual

/-- The places of an element are in document order. -/
theorem pairwise_placesOf {name : String} : ∀ {element : Element},
    (placesOf name element).Pairwise Before
  | ⟨_, _, _, _⟩ => pairwise_placesAmong

/-- Places among elements are in document order. -/
theorem pairwise_placesAmong {name : String} : ∀ {number : Nat} {elements : List Element},
    (placesAmong name number elements).Pairwise Before
  | _, [] => .nil
  | number, element :: rest => by
    have hself : (if element.name = name then [[number]] else []).Pairwise Before := by
      split <;> simp
    have hbelow : ((placesOf name element).map (number :: ·)).Pairwise Before :=
      pairwise_placesOf.map _ fun _ _ => List.Lex.cons
    have hsame : ∀ place ∈ (if element.name = name then [[number]] else []) ++
        (placesOf name element).map (number :: ·), ∃ below, place = number :: below := by
      intro place hplace
      rcases List.mem_append.mp hplace with hplace | hplace
      · split at hplace
        next => exact ⟨[], List.mem_singleton.mp hplace⟩
        next => cases hplace
      · obtain ⟨below, -, rfl⟩ := List.mem_map.mp hplace
        exact ⟨below, rfl⟩
    rw [placesAmong, List.pairwise_append, List.pairwise_append]
    refine ⟨⟨hself, hbelow, ?_⟩, pairwise_placesAmong, ?_⟩
    · -- an element comes before what is below it
      intro place hplace other hother
      obtain ⟨below, hbelow, rfl⟩ := List.mem_map.mp hother
      obtain ⟨first, below, rfl⟩ := List.exists_cons_of_ne_nil (mem_placesOf.mp hbelow).1
      split at hplace
      next =>
        obtain rfl := List.mem_singleton.mp hplace
        exact .cons .nil
      next => cases hplace
    · -- and both come before the later elements and what is below them
      intro place hplace other hother
      obtain ⟨below, rfl⟩ := hsame place hplace
      obtain ⟨index, below', _, rfl, -⟩ := mem_placesAmong.mp hother
      exact .rel (by omega)

end

/-- The places of the descendants with a name are the occurrences of the name. -/
theorem occurrences_placesOf (name : String) (element : Element) :
    Occurrences name element (placesOf name element) where
  increasing := pairwise_placesOf
  mem_iff _ := mem_placesOf

example : placesOf "b" { name := "b", children := [{ name := "a", children := [{ name := "b" }] },
    { name := "b", children := [{ name := "b" }] }] } = [[0, 0], [1], [1, 0]] := by
  decide

mutual

/-- All descendants with a name are those at their places. -/
theorem map_at?_placesOf {name : String} : ∀ {element : Element},
    (placesOf name element).map element.at? = (element.findAll name).map some
  | ⟨elementName, attributes, children, text⟩ => by
    rw [placesOf, findAll]
    exact @map_at?_placesAmong name ⟨elementName, attributes, children, text⟩ [] children rfl

/-- At the places among children are the elements with the name. -/
theorem map_at?_placesAmong {name : String} {parent : Element} : ∀ {before elements : List Element},
    parent.children = before ++ elements →
      (placesAmong name before.length elements).map parent.at? =
        (findAllAmong name elements).map some
  | _, [], _ => rfl
  | before, element :: rest, h => by
    have hself : (if element.name = name then [[before.length]] else []).map parent.at? =
        (if element.name = name then [element] else []).map some := by
      split
      next => rw [List.map_singleton, List.map_singleton, at?_child h, at?]
      next => rfl
    have hbelow : ((placesOf name element).map (before.length :: ·)).map parent.at? =
        (element.findAll name).map some := by
      rw [List.map_map, ← map_at?_placesOf]
      exact List.map_congr_left fun place _ => at?_child h place
    have hrest : (placesAmong name (before.length + 1) rest).map parent.at? =
        (findAllAmong name rest).map some := by
      have hnumber : (before ++ [element]).length = before.length + 1 := by simp
      rw [← hnumber]
      exact map_at?_placesAmong (by rw [h, List.append_cons])
    rw [placesAmong, findAllAmong, List.map_append, List.map_append, hself, hbelow, hrest,
      List.map_append, List.map_append]

end

/-- The children with a name are at the places of one number. -/
theorem map_at?_placesAmong_filter {name : String} {parent : Element} {before elements : List Element}
    (h : parent.children = before ++ elements) :
    ((placesAmong name before.length elements).filter (·.length = 1)).map parent.at? =
      (elements.filter (·.name = name)).map some := by
  induction elements generalizing before with
  | nil => rfl
  | cons element rest ih =>
    have hbelow : ((placesOf name element).map (before.length :: ·)).filter (·.length = 1) = [] := by
      rw [List.filter_eq_nil_iff, List.forall_mem_map]
      intro place hplace
      simpa using (mem_placesOf.mp hplace).1
    have hrest := @ih (before ++ [element]) (by rw [h, List.append_cons])
    rw [List.length_append, List.length_singleton] at hrest
    rw [placesAmong, List.filter_append, List.filter_append, hbelow, List.append_nil, List.map_append,
      hrest]
    by_cases hname : element.name = name
    · have hself : parent.at? [before.length] = some element := at?_child h []
      simp [hname, hself]
    · simp [hname]

mutual

/-- The first descendant with a name is the first of all. -/
theorem find?_eq_head? {name : String} : ∀ {element : Element},
    element.find? name = (element.findAll name).head?
  | ⟨_, _, _, _⟩ => findAmong?_eq_head?

/-- The element that is found among others is the first of all with the name. -/
theorem findAmong?_eq_head? {name : String} : ∀ {elements : List Element},
    findAmong? name elements = (findAllAmong name elements).head?
  | [] => rfl
  | element :: rest => by
    rw [findAmong?, findAllAmong, List.head?_append, List.head?_append, ← find?_eq_head?,
      ← findAmong?_eq_head?]
    split <;> simp

end

/-- The content that is found by a name is that of the first descendant, unless it is blank. -/
theorem findContent?_eq_some_iff {name text : String} {element : Element} :
    element.findContent? name = some text ↔
      ∃ first, (element.findAll name).head? = some first ∧
        text = Text.trim first.text ∧ ∃ c ∈ first.text.toList, Text.isBlank c = false := by
  simp only [findContent?, find?_eq_head?, Option.bind_eq_some_iff, content?_eq_some_iff]

/-- All descendants with a name are those at the places where it occurs, in document order, each once.
The first descendant is the first of them, so there is none exactly when there are no such places. The
children with the name are those at places of one number, the first child being the first of these.
The content that is found by the name is that of the first descendant alone: there is none when that
one is blank, whatever the others hold. -/
theorem lookups_in_document_order (element : Element) (name : String) :
    (∃ places, Occurrences name element places ∧
      places.map element.at? = (element.findAll name).map some ∧
      (places.filter (·.length = 1)).map element.at? = (element.childrenNamed name).map some) ∧
    element.find? name = (element.findAll name).head? ∧
    (element.find? name = none ↔ element.findAll name = []) ∧
    element.child? name = (element.childrenNamed name).head? ∧
    (∀ text, element.findContent? name = some text ↔
      ∃ first, (element.findAll name).head? = some first ∧
        text = Text.trim first.text ∧ ∃ c ∈ first.text.toList, Text.isBlank c = false) ∧
    ∀ first rest, element.findAll name = first :: rest →
      (∀ c ∈ first.text.toList, Text.isBlank c = true) → element.findContent? name = none := by
  refine ⟨⟨placesOf name element, occurrences_placesOf name element, map_at?_placesOf, ?_⟩,
    find?_eq_head?, ?_, List.head?_filter.symm, fun _ => findContent?_eq_some_iff, ?_⟩
  · obtain ⟨_, _, children, _⟩ := element
    exact @map_at?_placesAmong_filter name _ [] children rfl
  · rw [find?_eq_head?, List.head?_eq_none_iff]
  · intro first rest hall hblank
    rw [Option.eq_none_iff_forall_ne_some]
    intro text htext
    obtain ⟨found, hfound, -, c, hc, hnot⟩ := findContent?_eq_some_iff.mp htext
    rw [hall, List.head?_cons] at hfound
    obtain rfl := Option.some.inj hfound
    rw [hblank c hc] at hnot
    cases hnot

end Carta.Xml.Element
