import Carta.Proofs.MarkupSequence

/-!
# Trees that differ in blanks around their texts

What is asked of an element is its name, its attributes and its content, which is its text when that
is trimmed. Blanks around the text of a complete element therefore make no difference, while the text
of an element under construction can still grow. Readings that differ in the former only do so
whatever is read from there on.
-/

namespace Carta

/-- Sequences whose first steps come to the same in one form, and whose second steps only depend on
that form, come to the same. -/
theorem map_bind_congr {E A B C D : Type} {form : A → C} {form' : B → D} {first second : Except E A}
    {next : A → Except E B} (h : first.map form = second.map form)
    (hnext : ∀ a b, form a = form b → (next a).map form' = (next b).map form') :
    (first >>= next).map form' = (second >>= next).map form' := by
  cases first with
  | error error =>
    cases second with
    | error error' => rw [Except.error.inj h]
    | ok b => cases h
  | ok a =>
    cases second with
    | error error' => cases h
    | ok b => exact hnext a b (Except.ok.inj h)

end Carta

namespace Carta.Xml

namespace Element

mutual

/-- A tree with all of its texts trimmed. -/
def trimmed : Element → Element
  | ⟨name, attributes, children, text⟩ => ⟨name, attributes, trimmedAll children, Text.trim text⟩

/-- Trees with all of their texts trimmed. -/
def trimmedAll : List Element → List Element
  | [] => []
  | element :: rest => element.trimmed :: trimmedAll rest

end

/-- Elements that stand together are trimmed one by one. -/
theorem trimmedAll_append (first second : List Element) :
    trimmedAll (first ++ second) = trimmedAll first ++ trimmedAll second := by
  induction first with
  | nil => rfl
  | cons element first ih => rw [List.cons_append, trimmedAll, ih, trimmedAll, List.cons_append]

/-- An element under construction with all texts inside of it trimmed, but its own. -/
def inside (element : Element) : Element :=
  { element with children := trimmedAll element.children }

/-- To trim an element is to trim what is complete in it, and its own text. -/
theorem trimmed_eq (element : Element) :
    element.trimmed = { element.inside with text := Text.trim element.inside.text } := by
  obtain ⟨name, attributes, children, text⟩ := element
  rw [trimmed]
  rfl

/-- What can be asked of the elements of a tree: how deep each is, its name, its attributes and its
content, in document order. -/
def contents (element : Element) :
    List (Nat × String × List (String × String) × Option String) :=
  (element.outline 0).map fun (depth, inner) =>
    (depth, inner.name, inner.attributes, inner.content?)

/-- What is told of an element whose text is trimmed. -/
def tell (entry : Nat × Element) : Nat × String × List (String × String) × Option String :=
  (entry.1, entry.2.name, entry.2.attributes,
    if entry.2.text.isEmpty then none else some entry.2.text)

mutual

/-- What is told of an element is what is told of it with all texts trimmed. -/
theorem map_outline_trimmed (depth : Nat) : ∀ element : Element,
    (element.outline depth).map (fun (depth, inner) =>
      (depth, inner.name, inner.attributes, inner.content?)) =
        (element.trimmed.outline depth).map tell
  | ⟨name, attributes, children, text⟩ => by
    rw [outline, trimmed, outline, List.map_cons, List.map_cons,
      map_outlineAmong_trimmed (depth + 1) children]
    rfl

/-- What is told of elements is what is told of them with all texts trimmed. -/
theorem map_outlineAmong_trimmed (depth : Nat) : ∀ elements : List Element,
    (outlineAmong depth elements).map (fun (depth, inner) =>
      (depth, inner.name, inner.attributes, inner.content?)) =
        (outlineAmong depth (trimmedAll elements)).map tell
  | [] => by rw [trimmedAll, outlineAmong, List.map_nil, List.map_nil]
  | element :: rest => by
    rw [outlineAmong, trimmedAll, outlineAmong, List.map_append, List.map_append,
      map_outline_trimmed depth element, map_outlineAmong_trimmed depth rest]

end

/-- Of trees that are the same when they are trimmed the same is told. -/
theorem contents_eq_of_trimmed {first second : Element} (h : first.trimmed = second.trimmed) :
    first.contents = second.contents := by
  rw [contents, contents, map_outline_trimmed, map_outline_trimmed, h]

end Element

namespace Builder

/-- The elements under construction and the root with the texts of what is complete trimmed. -/
def inside (builder : Builder) : Builder where
  opened := builder.opened.map Element.inside
  root := builder.root.map Element.trimmed

variable (builder : Builder)

/-- An element that is begun is begun with what is complete in it trimmed. -/
theorem inside_begin (element : Element) :
    (builder.begin element).inside = builder.inside.begin element.inside :=
  rfl

/-- An element that is added is added with all of its texts trimmed. -/
theorem inside_add (element : Element) :
    (builder.add element).inside = builder.inside.add element.trimmed := by
  obtain ⟨opened, root⟩ := builder
  cases opened with
  | nil => rfl
  | cons parent outer =>
    simp [inside, add, Element.inside, Element.trimmedAll_append, Element.trimmedAll]

/-- A text that is added is not trimmed yet. -/
theorem inside_addText (text : String) :
    (builder.addText text).inside = builder.inside.addText text := by
  obtain ⟨opened, root⟩ := builder
  cases opened <;> rfl

/-- An element that is completed is trimmed as well. -/
theorem inside_complete : builder.complete.inside =
    match builder.inside.opened with
    | [] => builder.inside
    | element :: outer =>
      { builder.inside with opened := outer }.add { element with text := Text.trim element.text } := by
  obtain ⟨opened, root⟩ := builder
  cases opened with
  | nil => rfl
  | cons element outer =>
    rw [complete, inside_add, Element.trimmed_eq]
    rfl

/-- Trimming what is complete does not change whether an element is open. -/
theorem isOutside_inside : builder.inside.isOutside = builder.isOutside := by
  obtain ⟨opened, root⟩ := builder
  cases opened <;> rfl

end Builder

namespace Progress

/-- The state of reading with the texts of what is complete trimmed. -/
def inside (progress : Progress) : Progress :=
  ⟨progress.names, progress.builder.inside⟩

variable {first second : Progress}

/-- Readings that differ in blanks around complete texts only take the next markup into account in
the same way. -/
theorem map_inside_read (h : first.inside = second.inside) (markup : Markup) :
    (first.read markup).map inside = (second.read markup).map inside := by
  obtain ⟨names, builder⟩ := first
  obtain ⟨names', builder'⟩ := second
  obtain ⟨rfl, hbuilder⟩ : names = names' ∧ builder.inside = builder'.inside := by
    simpa [inside] using h
  cases markup with
  | opening tag =>
    rw [read, read]
    cases tag.element with
    | error error => rfl
    | ok element =>
      simp only [bind, Except.bind, pure, Except.pure, Except.map, inside, Builder.inside_begin,
        hbuilder]
  | emptyElement tag =>
    rw [read, read]
    cases tag.element with
    | error error => rfl
    | ok element =>
      simp only [bind, Except.bind, pure, Except.pure, Except.map, inside, Builder.inside_add,
        hbuilder]
  | closing name =>
    rw [read, read]
    cases names with
    | nil => rfl
    | cons expected outer =>
      dsimp only
      split
      next => simp only [Except.map, inside, Builder.inside_complete, hbuilder]
      next => rfl
  | text bytes =>
    have houtside : builder.isOutside = builder'.isOutside := by
      rw [← builder.isOutside_inside, hbuilder, builder'.isOutside_inside]
    rw [read, read, houtside]
    split
    next => exact congrArg Except.ok h
    next =>
      cases textOfRun bytes with
      | error fault => rfl
      | ok text =>
        simp only [bind, Except.bind, pure, Except.pure, Except.map, Except.mapError, inside,
          Builder.inside_addText, hbuilder]
  | cdata bytes =>
    simp only [read, Except.map, inside, Builder.inside_addText, hbuilder]
  | aside => exact congrArg Except.ok h

end Progress

/-- Readings that differ in blanks around complete texts only go on so to their end. -/
theorem map_inside_readFrom {first second : Progress} (h : first.inside = second.inside)
    (source : Source) (bytes : List UInt8) :
    (readFrom source first bytes).map Progress.inside =
      (readFrom source second bytes).map Progress.inside := by
  fun_induction markupsFrom source bytes generalizing first second with
  | case1 bytes fault hnext => rw [readFrom_of_error hnext, readFrom_of_error hnext]
  | case2 bytes hnext =>
    rw [readFrom_of_none hnext, readFrom_of_none hnext]
    exact congrArg Except.ok h
  | case3 bytes markup rest hnext ih =>
    rw [readFrom_of_some hnext, readFrom_of_some hnext]
    exact map_bind_congr (Progress.map_inside_read h markup) fun next next' hnext' => ih hnext'

end Carta.Xml
