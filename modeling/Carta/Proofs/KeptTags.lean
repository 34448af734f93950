import Carta.Proofs.MarkupSequence

/-!
# What becomes of the tags of a document

Every opening tag and every empty-element tag begins one element. At any time in reading, the
elements begun so far are those of the top-level elements that are complete and those of the
elements under construction, outermost first: together they have all tags, in document order. Only
the last complete top-level element is kept as the root, and what is still under construction at the
end is not kept either. So a document keeps all of its tags when it has one top-level element with
nothing open behind it, and a document that is read without an error can fail to have it.
-/

namespace Carta.Xml

/-- The tag that begins an element, if a markup is one. -/
def Markup.tag? : Markup → Option Tag
  | .opening tag => some tag
  | .emptyElement tag => some tag
  | _ => none

/-- The markups that reading a document takes into account. -/
def markupsOf (bytes : List UInt8) : List Markup :=
  (markupsFrom { bytes } (withoutMark bytes)).map (·.1)

/-- The elements that the tags among markups begin, in order. -/
def begunBy (markups : List Markup) : Except Error (List Element) :=
  (markups.filterMap Markup.tag?).mapM Tag.element

namespace Element

/-- An element as its tag begins it, without anything inside. -/
def head (element : Element) : Element :=
  { element with children := [], text := "" }

/-- The elements of a tree as their tags begin them, in document order. -/
def heads (element : Element) : List Element :=
  (element.outline 0).map fun (_, inner) => inner.head

mutual

/-- An outline has the heads of its element, from whatever depth it is counted. -/
theorem heads_eq_of_depth (depth : Nat) : ∀ element : Element,
    (element.outline depth).map (fun (_, inner) => inner.head) = element.heads
  | ⟨name, attributes, children, text⟩ => by
    rw [heads, outline, outline, List.map_cons, List.map_cons,
      headsAmong_eq_of_depth (depth + 1) children, headsAmong_eq_of_depth 1 children]

/-- An outline of elements has the heads of each, from whatever depth it is counted. -/
theorem headsAmong_eq_of_depth (depth : Nat) : ∀ elements : List Element,
    (outlineAmong depth elements).map (fun (_, inner) => inner.head) = elements.flatMap heads
  | [] => rfl
  | element :: rest => by
    rw [outlineAmong, List.map_append, heads_eq_of_depth depth element,
      headsAmong_eq_of_depth depth rest, List.flatMap_cons]

end

/-- The first of the elements of a tree is its root, the others are those of its children. -/
theorem heads_eq (element : Element) :
    element.heads = element.head :: element.children.flatMap heads := by
  obtain ⟨name, attributes, children, text⟩ := element
  rw [heads, outline, List.map_cons, headsAmong_eq_of_depth]

/-- A tree has at least one element. -/
theorem heads_ne_nil (element : Element) : element.heads ≠ [] := by
  rw [heads_eq]
  exact List.cons_ne_nil _ _

/-- One more child has its elements after those that are there. -/
theorem heads_add_child (parent child : Element) :
    ({ parent with children := parent.children ++ [child] } : Element).heads =
      parent.heads ++ child.heads := by
  simp [heads_eq parent, heads_eq { parent with children := _ }, head]

/-- Text makes no element. -/
theorem heads_add_text (element : Element) (text : String) :
    ({ element with text } : Element).heads = element.heads := by
  simp [heads_eq element, heads_eq { element with text }, head]

end Element

/-- What a tag begins has nothing inside. -/
theorem Tag.heads_element {tag : Tag} {element : Element} (h : tag.element = .ok element) :
    element.heads = [element] := by
  obtain ⟨attributes, -, helement⟩ := bind_eq_ok_iff.mp h
  rw [← Except.ok.inj helement]
  rfl

/-- No elements have no tags. -/
theorem eq_nil_of_flatMap_heads {elements : List Element}
    (h : elements.flatMap Element.heads = []) : elements = [] :=
  List.eq_nil_iff_forall_not_mem.mpr fun element hmem =>
    element.heads_ne_nil (List.flatMap_eq_nil_iff.mp h element hmem)

/-- One more markup with a tag begins one more element. -/
theorem begunBy_append_tag {read : List Markup} {begun : List Element} {markup : Markup} {tag : Tag}
    {element : Element} (h : begunBy read = .ok begun) (htag : markup.tag? = some tag)
    (helement : tag.element = .ok element) :
    begunBy (read ++ [markup]) = .ok (begun ++ [element]) := by
  rw [begunBy] at h ⊢
  simp [htag, h, helement, bind, Except.bind, pure, Except.pure]

/-- One more markup without a tag begins nothing. -/
theorem begunBy_append_other {read : List Markup} {markup : Markup} (htag : markup.tag? = none) :
    begunBy (read ++ [markup]) = begunBy read := by
  rw [begunBy, begunBy]
  simp [htag]

namespace Builder

variable (builder : Builder)

/-- The elements under construction, outermost first, as their tags began them. -/
def begun : List Element :=
  builder.opened.reverse.flatMap Element.heads

/-- An element is begun after those around it. -/
theorem begun_begin (element : Element) :
    (builder.begin element).begun = builder.begun ++ element.heads := by
  simp [begun, begin]

/-- Text begins no element. -/
theorem begun_addText (text : String) : (builder.addText text).begun = builder.begun := by
  obtain ⟨opened, root⟩ := builder
  cases opened with
  | nil => rfl
  | cons element outer => simp [begun, addText, Element.heads_add_text]

/-- Text does not change the root. -/
theorem root_addText (text : String) : (builder.addText text).root = builder.root := by
  obtain ⟨opened, root⟩ := builder
  cases opened <;> rfl

/-- A complete element becomes the last complete top-level element, or else its elements are behind
those that are under construction. -/
theorem begun_add {completed : List Element} (hroot : builder.root = completed.getLast?)
    (element : Element) : ∃ after : List Element,
      after.flatMap Element.heads ++ (builder.add element).begun =
        completed.flatMap Element.heads ++ builder.begun ++ element.heads ∧
      (builder.add element).root = after.getLast? ∧
      after.length = completed.length + (builder.opened.length == 0).toNat := by
  obtain ⟨opened, root⟩ := builder
  cases opened with
  | nil => exact ⟨completed ++ [element], by simp [begun, add], by simp [add], by simp⟩
  | cons parent outer =>
    exact ⟨completed, by simp [begun, add, Element.heads_add_child], hroot, by simp⟩

end Builder

/-- What has become of the markups that were read: the complete top-level elements and the elements
under construction have all tags in order, the last complete one is the root, and they are as many
as the markups tell. -/
structure Account (read : List Markup) (completed : List Element) (progress : Progress) : Prop where
  begun : begunBy read = .ok (completed.flatMap Element.heads ++ progress.builder.begun)
  root : progress.builder.root = completed.getLast?
  tops : completed.length = completedTops 0 read
  depth : progress.AtDepth (openTags read)

/-- Nothing is read at first. -/
theorem Account.start : Account [] [] {} where
  begun := rfl
  root := rfl
  tops := rfl
  depth := ⟨rfl, rfl⟩

/-- A markup that neither begins nor completes an element changes the account only by the number of
open tags. -/
theorem Account.same {read : List Markup} {completed : List Element} {progress next : Progress}
    {markup : Markup} (h : Account read completed progress) (htakes : progress.Takes markup next)
    (htag : markup.tag? = none) (htop : markup.completesTop (openTags read) = false)
    (hbegun : next.builder.begun = progress.builder.begun)
    (hroot : next.builder.root = progress.builder.root) :
    Account (read ++ [markup]) completed next where
  begun := by rw [begunBy_append_other htag, h.begun, hbegun]
  root := hroot.trans h.root
  tops := by
    rw [completedTops_append, ← openTags, htop]
    exact h.tops
  depth := openTags_append read markup ▸ h.depth.read htakes

/-- Every markup is accounted for. -/
theorem Account.read {read : List Markup} {completed : List Element} {progress next : Progress}
    {markup : Markup} (h : Account read completed progress)
    (hread : progress.read markup = .ok next) :
    ∃ completed, Account (read ++ [markup]) completed next := by
  have htakes := Progress.takes_of_read hread
  have hdepth := openTags_append read markup ▸ h.depth.read htakes
  have htops := completedTops_append 0 read markup
  cases htakes with
  | @opening tag element helement =>
    refine ⟨completed, ?_, h.root, h.tops.trans htops.symm, hdepth⟩
    rw [begunBy_append_tag h.begun rfl helement, Builder.begun_begin, Tag.heads_element helement,
      List.append_assoc]
  | @emptyElement tag element helement =>
    obtain ⟨after, hbegun, hroot, hlength⟩ := progress.builder.begun_add h.root element
    refine ⟨after, ?_, hroot, ?_, hdepth⟩
    · rw [begunBy_append_tag h.begun rfl helement, hbegun, Tag.heads_element helement]
    · rw [htops, hlength, h.tops, h.depth.opened]
      rfl
  | @closing name outer hnames =>
    obtain ⟨hlength, hopened⟩ := h.depth
    obtain ⟨names, ⟨opened, root⟩⟩ := progress
    cases opened with
    | nil =>
      rw [hnames, List.length_cons, ← hopened] at hlength
      cases hlength
    | cons element around =>
      obtain ⟨after, hbegun, hroot, hafter⟩ :=
        Builder.begun_add { opened := around, root } h.root element
      refine ⟨after, ?_, hroot, ?_, hdepth⟩
      · rw [begunBy_append_other rfl, h.begun, Builder.complete, hbegun]
        simp [Builder.begun]
      · rw [htops, hafter, h.tops, ← openTags, ← hopened]
        simp [Markup.completesTop]
  | textOutside => exact ⟨completed, h.same (.textOutside ‹_›) rfl rfl rfl rfl⟩
  | text hinside htext =>
    exact ⟨completed, h.same (.text hinside htext) rfl rfl (progress.builder.begun_addText _)
      (progress.builder.root_addText _)⟩
  | cdata =>
    exact ⟨completed, h.same .cdata rfl rfl (progress.builder.begun_addText _)
      (progress.builder.root_addText _)⟩
  | aside => exact ⟨completed, h.same .aside rfl rfl rfl rfl⟩

/-- A document that is read without an error is accounted for. -/
theorem exists_account {bytes : List UInt8} {root : Element} (h : parse bytes = .ok root) :
    ∃ earlier progress, Account (markupsOf bytes) (earlier ++ [root]) progress := by
  obtain ⟨progress, hprogress, hroot⟩ := bind_eq_ok_iff.mp h
  obtain ⟨completed, haccount⟩ :=
    invariant_of_readFrom (fun read progress => ∃ completed, Account read completed progress)
      (fun ⟨_, haccount⟩ hread => haccount.read hread) ⟨[], Account.start⟩ hprogress
  have hlast : progress.builder.root = some root := by
    split at hroot
    next hsome => rw [hsome, Except.ok.inj hroot]
    next => cases hroot
  obtain ⟨earlier, rfl⟩ := List.getLast?_eq_some_iff.mp (haccount.root ▸ hlast)
  exact ⟨earlier, progress, haccount⟩

/-- When a document is read without an error, all of its tags are those of the complete top-level
elements before the root, then those of the root, then those of the elements that are open at the
end. So the root has all of them, each as one element and in order, exactly when the root is the
only top-level element and nothing is open at the end. -/
theorem parse_accounts_for_tags {bytes : List UInt8} {root : Element} (h : parse bytes = .ok root) :
    (∃ earlier unfinished : List Element,
      begunBy (markupsOf bytes) = .ok (earlier.flatMap Element.heads ++ root.heads ++
        unfinished.flatMap Element.heads) ∧
      completedTops 0 (markupsOf bytes) = earlier.length + 1 ∧
      openTags (markupsOf bytes) = unfinished.length) ∧
    (begunBy (markupsOf bytes) = .ok root.heads ↔
      completedTops 0 (markupsOf bytes) = 1 ∧ openTags (markupsOf bytes) = 0) := by
  obtain ⟨earlier, progress, haccount⟩ := exists_account h
  have hbegun : begunBy (markupsOf bytes) = .ok (earlier.flatMap Element.heads ++ root.heads ++
      progress.builder.opened.reverse.flatMap Element.heads) := by
    simpa [Builder.begun] using haccount.begun
  have htops : completedTops 0 (markupsOf bytes) = earlier.length + 1 := by
    simpa using haccount.tops.symm
  have hopen : openTags (markupsOf bytes) = progress.builder.opened.reverse.length := by
    simpa using haccount.depth.opened.symm
  refine ⟨⟨earlier, progress.builder.opened.reverse, hbegun, htops, hopen⟩, ?_⟩
  rw [hbegun, htops, hopen]
  constructor
  · intro hkept
    have hlength := congrArg List.length (Except.ok.inj hkept)
    simp only [List.length_append] at hlength
    have hearlier : earlier = [] :=
      eq_nil_of_flatMap_heads (List.eq_nil_of_length_eq_zero (by omega))
    have hunfinished : progress.builder.opened.reverse = [] :=
      eq_nil_of_flatMap_heads (List.eq_nil_of_length_eq_zero (by omega))
    rw [hearlier, hunfinished]
    exact ⟨rfl, rfl⟩
  · rintro ⟨hone, hnone⟩
    have hearlier : earlier = [] := List.eq_nil_of_length_eq_zero (Nat.succ.inj hone)
    have hunfinished := List.eq_nil_of_length_eq_zero hnone
    rw [hearlier, hunfinished, List.flatMap_nil, List.nil_append, List.append_nil]

/-- Tags are dropped without an error: those of the first of two top-level elements, and those of an
element that is open at the end. -/
theorem tags_dropped :
    (¬ ∀ bytes root, parse bytes = .ok root → begunBy (markupsOf bytes) = .ok root.heads) ∧
    parse (Text.Utf8.encode "<a/><b/>") = .ok { name := "b" } ∧
    begunBy (markupsOf (Text.Utf8.encode "<a/><b/>")) = .ok [{ name := "a" }, { name := "b" }] ∧
    parse (Text.Utf8.encode "<a/><b>") = .ok { name := "a" } ∧
    begunBy (markupsOf (Text.Utf8.encode "<a/><b>")) = .ok [{ name := "a" }, { name := "b" }] := by
  have hsecond : parse (Text.Utf8.encode "<a/><b/>") = .ok { name := "b" } := by
    with_unfolding_all rfl
  have hboth : begunBy (markupsOf (Text.Utf8.encode "<a/><b/>")) =
      .ok [{ name := "a" }, { name := "b" }] := by
    with_unfolding_all rfl
  refine ⟨fun hall => ?_, hsecond, hboth, by with_unfolding_all rfl, by with_unfolding_all rfl⟩
  have hkept := congrArg List.length (Except.ok.inj (hboth.symm.trans (hall _ _ hsecond)))
  cases hkept

/-- A document with one top-level element that is complete keeps all of its tags. -/
theorem tags_kept :
    parse (Text.Utf8.encode "<a><b/>text</a>") =
      .ok { name := "a", children := [{ name := "b" }], text := "text" } ∧
    begunBy (markupsOf (Text.Utf8.encode "<a><b/>text</a>")) =
      .ok [{ name := "a" }, { name := "b" }] := by
  have hparse : parse (Text.Utf8.encode "<a><b/>text</a>") =
      .ok { name := "a", children := [{ name := "b" }], text := "text" } := by
    with_unfolding_all rfl
  exact ⟨hparse, (parse_accounts_for_tags hparse).2.mpr (by decide +kernel)⟩

end Carta.Xml
