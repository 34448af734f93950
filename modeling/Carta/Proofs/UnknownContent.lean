import Carta.Proofs.Lookups
import Carta.Proofs.MapfileParts

/-!
# Unknown content is ignored

Projects contain more than a mapfile needs: elements with names that no lookup asks for, and
attributes with keys that no lookup asks for in their element. They can stand anywhere. A search
passes over an element with everything in it when no name in it is looked up, and so finds what it
would find without that element, which may differ in turn by what was inserted below. So inserting
unknown content makes elements that no lookup tells apart.
-/

namespace Carta.Xml

mutual

/-- Whether no element in a tree has a name that is looked up. -/
def Element.isUnknown : Element → Bool
  | ⟨name, _, children, _⟩ => !lookedUpNames.contains name && Element.allUnknown children

/-- Whether no element in trees has a name that is looked up. -/
def Element.allUnknown : List Element → Bool
  | [] => true
  | element :: rest => element.isUnknown && Element.allUnknown rest

end

/-- The attributes of an element with a name, and the same with others inserted whose keys are not
looked up in it. -/
inductive MoreAttributes (name : String) :
    List (String × String) → List (String × String) → Prop
  | nil : MoreAttributes name [] []
  | kept {entry : String × String} {before after : List (String × String)}
      (hrest : MoreAttributes name before after) :
      MoreAttributes name (entry :: before) (entry :: after)
  | inserted {entry : String × String} {before after : List (String × String)}
      (hkey : entry.1 ∉ lookedUpKeys name) (hrest : MoreAttributes name before after) :
      MoreAttributes name before (entry :: after)

mutual

/-- An element, and the same with unknown content inserted anywhere in it. -/
inductive Enriched : Element → Element → Prop
  | element {name text : String} {attributes more : List (String × String)}
      {children content : List Element} (hattributes : MoreAttributes name attributes more)
      (hchildren : AllEnriched children content) :
      Enriched ⟨name, attributes, children, text⟩ ⟨name, more, content, text⟩

/-- Elements, and the same with unknown content inserted anywhere between and in them. -/
inductive AllEnriched : List Element → List Element → Prop
  | nil : AllEnriched [] []
  | kept {before after : Element} {rest more : List Element} (helement : Enriched before after)
      (hrest : AllEnriched rest more) : AllEnriched (before :: rest) (after :: more)
  | inserted {unknown : Element} {rest more : List Element} (hunknown : unknown.isUnknown = true)
      (hrest : AllEnriched rest more) : AllEnriched rest (unknown :: more)

end

/-- An unknown element does not have a name that is looked up. -/
theorem Element.name_ne_of_isUnknown {name : String} (hname : name ∈ lookedUpNames)
    {element : Element} (h : element.isUnknown = true) : element.name ≠ name := by
  obtain ⟨own, attributes, children, text⟩ := element
  rw [Element.isUnknown, Bool.and_eq_true] at h
  rintro rfl
  simp [hname] at h

mutual

/-- Nothing is found in an unknown element. -/
theorem Element.find?_of_isUnknown {name : String} (hname : name ∈ lookedUpNames) :
    ∀ {element : Element}, element.isUnknown = true → element.find? name = none
  | ⟨_, _, _, _⟩, h => Element.findAmong?_of_allUnknown hname (Bool.and_eq_true_iff.mp h).2

/-- None of the names that are looked up is found among unknown elements. -/
theorem Element.findAmong?_of_allUnknown {name : String} (hname : name ∈ lookedUpNames) :
    ∀ {elements : List Element}, Element.allUnknown elements = true →
      Element.findAmong? name elements = none
  | [], _ => rfl
  | element :: rest, h => by
    rw [Element.allUnknown, Bool.and_eq_true] at h
    rw [Element.findAmong?, if_neg (Element.name_ne_of_isUnknown hname h.1),
      Element.find?_of_isUnknown hname h.1, Element.findAmong?_of_allUnknown hname h.2,
      Option.none_or]

end

mutual

/-- None of the names that are looked up is found below an unknown element. -/
theorem Element.findAll_of_isUnknown {name : String} (hname : name ∈ lookedUpNames) :
    ∀ {element : Element}, element.isUnknown = true → element.findAll name = []
  | ⟨_, _, _, _⟩, h => Element.findAllAmong_of_allUnknown hname (Bool.and_eq_true_iff.mp h).2

/-- No element with a name that is looked up is found among unknown elements. -/
theorem Element.findAllAmong_of_allUnknown {name : String} (hname : name ∈ lookedUpNames) :
    ∀ {elements : List Element}, Element.allUnknown elements = true →
      Element.findAllAmong name elements = []
  | [], _ => rfl
  | element :: rest, h => by
    rw [Element.allUnknown, Bool.and_eq_true] at h
    rw [Element.findAllAmong, if_neg (Element.name_ne_of_isUnknown hname h.1),
      Element.findAll_of_isUnknown hname h.1, Element.findAllAmong_of_allUnknown hname h.2]
    rfl

end

/-- The attribute that is looked up is the same when others are inserted. -/
theorem MoreAttributes.find?_eq {name key : String} {before after : List (String × String)}
    (h : MoreAttributes name before after) (hkey : key ∈ lookedUpKeys name) :
    before.find? (·.1 = key) = after.find? (·.1 = key) := by
  induction h with
  | nil => rfl
  | kept _ ih => rw [List.find?_cons, List.find?_cons, ih]
  | @inserted entry _ _ hinserted _ ih =>
    have hother : entry.1 ≠ key := fun h => hinserted (h ▸ hkey)
    rw [ih, List.find?_cons_of_neg (by simpa using hother)]

/-- An element keeps its name. -/
theorem Enriched.name_eq {before after : Element} (h : Enriched before after) :
    before.name = after.name := by
  cases h
  rfl

mutual

/-- Searching passes over what was inserted. -/
theorem Enriched.find? {name : String} (hname : name ∈ lookedUpNames) :
    ∀ {before after : Element}, Enriched before after →
      Option.Rel Enriched (before.find? name) (after.find? name)
  | _, _, .element _ hchildren => hchildren.findAmong? hname

/-- Looking for a name among enriched elements finds the enriched element, or none. -/
theorem AllEnriched.findAmong? {name : String} (hname : name ∈ lookedUpNames) :
    ∀ {before after : List Element}, AllEnriched before after →
      Option.Rel Enriched (Element.findAmong? name before) (Element.findAmong? name after)
  | _, _, .nil => .none
  | _, _, .kept helement hrest => by
    rw [Element.findAmong?, Element.findAmong?, helement.name_eq]
    split
    next => exact .some helement
    next => exact rel_or (helement.find? hname) (hrest.findAmong? hname)
  | _, _, .inserted hunknown hrest => by
    rw [Element.findAmong?, if_neg (Element.name_ne_of_isUnknown hname hunknown),
      Element.find?_of_isUnknown hname hunknown, Option.none_or]
    exact hrest.findAmong? hname

end

mutual

/-- Collecting passes over what was inserted. -/
theorem Enriched.findAll {name : String} (hname : name ∈ lookedUpNames) :
    ∀ {before after : Element}, Enriched before after →
      List.Forall₂ Enriched (before.findAll name) (after.findAll name)
  | _, _, .element _ hchildren => hchildren.findAllAmong hname

/-- All elements with a name among enriched ones are enriched. -/
theorem AllEnriched.findAllAmong {name : String} (hname : name ∈ lookedUpNames) :
    ∀ {before after : List Element}, AllEnriched before after →
      List.Forall₂ Enriched (Element.findAllAmong name before) (Element.findAllAmong name after)
  | _, _, .nil => .nil
  | _, _, .kept helement hrest => by
    rw [Element.findAllAmong, Element.findAllAmong, helement.name_eq]
    refine List.rel_append (List.rel_append ?_ (helement.findAll hname)) (hrest.findAllAmong hname)
    split
    next => exact .cons helement .nil
    next => exact .nil
  | _, _, .inserted hunknown hrest => by
    rw [Element.findAllAmong, if_neg (Element.name_ne_of_isUnknown hname hunknown),
      Element.findAll_of_isUnknown hname hunknown]
    exact hrest.findAllAmong hname

end

/-- The first child with a name is the same but for what was inserted in it. -/
theorem AllEnriched.find? {name : String} (hname : name ∈ lookedUpNames) :
    ∀ {before after : List Element}, AllEnriched before after →
      Option.Rel Enriched (before.find? (·.name = name)) (after.find? (·.name = name))
  | _, _, .nil => .none
  | _, _, .kept helement hrest => by
    rw [List.find?_cons, List.find?_cons, helement.name_eq]
    split
    next => exact .some helement
    next => exact hrest.find? hname
  | _, _, .inserted hunknown hrest => by
    rw [List.find?_cons_of_neg (by simpa using Element.name_ne_of_isUnknown hname hunknown)]
    exact hrest.find? hname

/-- The children with a name are the same but for what was inserted in them. -/
theorem AllEnriched.filter {name : String} (hname : name ∈ lookedUpNames) :
    ∀ {before after : List Element}, AllEnriched before after →
      List.Forall₂ Enriched (before.filter (·.name = name)) (after.filter (·.name = name))
  | _, _, .nil => .nil
  | _, _, .kept helement hrest => by
    rw [List.filter_cons, List.filter_cons, helement.name_eq]
    split
    next => exact .cons helement (hrest.filter hname)
    next => exact hrest.filter hname
  | _, _, .inserted hunknown hrest => by
    rw [List.filter_cons_of_neg (by simpa using Element.name_ne_of_isUnknown hname hunknown)]
    exact hrest.filter hname

/-- No lookup tells an element from the same with unknown content in it. -/
theorem isLookalike_enriched : IsLookalike Enriched where
  name h := h.name_eq
  content? h := by
    cases h
    rfl
  attribute? h key hkey := by
    cases h with
    | element hattributes => exact congrArg (Option.map (·.2)) (hattributes.find?_eq hkey)
  child? h name hname := by
    cases h with
    | element _ hchildren => exact hchildren.find? hname
  childrenNamed h name hname := by
    cases h with
    | element _ hchildren => exact hchildren.filter hname
  finds h := ⟨fun _ hname => h.find? hname, fun _ hname => h.findAll hname⟩

end Carta.Xml

namespace Carta.Mapfile

open Carta.Project (Document)
open Carta.Xml (AllEnriched Element Enriched MoreAttributes lookedUpKeys)

/-- Unknown content is ignored: wherever elements and attributes that are not looked up are inserted
below the root of a project, and whatever the name, the attributes and the text of its root, the
same mapfile is made, or the same error is reported. -/
theorem render_unknown_content {document other : Document} (hsource : document.source = other.source)
    (hcontent : AllEnriched document.root.children other.root.children) (options : Options) :
    render options document = render options other := by
  refine render_eq_of_findsAlike Xml.isLookalike_enriched hsource ?_ options
  obtain ⟨⟨name, attributes, children, text⟩, source⟩ := document
  obtain ⟨⟨name', attributes', children', text'⟩, source'⟩ := other
  exact ⟨fun _ hname => hcontent.findAmong? hname, fun _ hname => hcontent.findAllAmong hname⟩

mutual

/-- An element with an identifier and a remark in it, and in all elements in it. -/
def annotated : Element → Element
  | ⟨name, attributes, children, text⟩ =>
    ⟨name, ("id", "1") :: attributes, textElement "remark" "checked" :: annotatedAll children, text⟩

/-- Elements with an identifier and a remark in each. -/
def annotatedAll : List Element → List Element
  | [] => []
  | element :: rest => annotated element :: annotatedAll rest

end

mutual

/-- An element with annotations is an enriched one. -/
theorem enriched_annotated : ∀ element : Element, Enriched element (annotated element)
  | ⟨name, attributes, children, text⟩ => by
    have hkey : "id" ∉ lookedUpKeys name := by
      unfold lookedUpKeys
      split <;> decide
    have hsame : MoreAttributes name attributes attributes := by
      induction attributes with
      | nil => exact .nil
      | cons entry rest ih => exact .kept ih
    exact .element (.inserted hkey hsame) (.inserted (by decide) (allEnriched_annotated children))

/-- Elements with annotations are enriched ones. -/
theorem allEnriched_annotated : ∀ elements : List Element,
    AllEnriched elements (annotatedAll elements)
  | [] => .nil
  | element :: rest => .kept (enriched_annotated element) (allEnriched_annotated rest)

end

/-- The survey with annotations everywhere, under a root with another name. -/
def annotatedSurvey : Document where
  root := {
    name := "project"
    attributes := [("version", "2")]
    children := textElement "remark" "" :: annotatedAll surveyDocument.root.children }
  source := surveyDocument.source

/-- The mapfile of the annotated survey is that of the survey. -/
theorem render_annotatedSurvey :
    AllEnriched surveyDocument.root.children annotatedSurvey.root.children ∧
    ∃ text, render {} surveyDocument = .ok text ∧ render {} annotatedSurvey = .ok text := by
  have hcontent : AllEnriched surveyDocument.root.children annotatedSurvey.root.children :=
    .inserted (by decide) (allEnriched_annotated _)
  obtain ⟨text, htext⟩ := exists_eq_ok_of_isOk isOk_render_surveyDocument
  have hsource : surveyDocument.source = annotatedSurvey.source := rfl
  have hsame := render_unknown_content hsource hcontent {}
  exact ⟨hcontent, text, htext, hsame.symm.trans htext⟩

end Carta.Mapfile
