import Carta.Proofs.Outcome
import Carta.Xml.Reader

/-!
# The sequence of markups

Which markups a document consists of is decided by its bytes alone, and the reader takes them into
account one after the other. What holds of the tree that is made of them is therefore shown for one
markup and carried along the sequence.

Every closing tag closes the innermost open tag, so the markups also tell how many tags are open
after them, and which of them complete a top-level element.
-/

namespace Carta.Xml

/-- The markups that bytes consist of, up to the first fault, each with the bytes after it. -/
def markupsFrom (source : Source) (bytes : List UInt8) : List (Markup × List UInt8) :=
  match _h : Markup.next? source bytes with
  | .error _ => []
  | .ok none => []
  | .ok (some (markup, rest)) => (markup, rest) :: markupsFrom source rest
termination_by bytes.length
decreasing_by exact Markup.length_of_next? _h

/-- The markups after the next one are those of the bytes after it. -/
theorem markupsFrom_of_next? {source : Source} {bytes rest : List UInt8} {markup : Markup}
    (h : Markup.next? source bytes = .ok (some (markup, rest))) :
    markupsFrom source bytes = (markup, rest) :: markupsFrom source rest := by
  rw [markupsFrom, h]

/-- Where no markup is next there is none. -/
theorem markupsFrom_eq_nil {source : Source} {bytes : List UInt8}
    (h : ∀ found, Markup.next? source bytes ≠ .ok (some found)) : markupsFrom source bytes = [] := by
  rw [markupsFrom]
  split
  next => rfl
  next => rfl
  next found hnext => exact absurd hnext (h _)

/-- No bytes have no markups. -/
theorem markupsFrom_nil (source : Source) : markupsFrom source [] = [] := by
  refine markupsFrom_eq_nil fun found hnext => ?_
  rw [Markup.next?, List.dropWhile_nil] at hnext
  split at hnext
  next => split at hnext <;> cases hnext
  next heq => cases heq

section Reading

variable {source : Source} {progress : Progress} {bytes : List UInt8}

/-- Reading fails at a fault. -/
theorem readFrom_of_error {fault : Fault} (h : Markup.next? source bytes = .error fault) :
    readFrom source progress bytes = .error (.document fault) := by
  rw [readFrom, h]

/-- Reading ends where there is no markup any more. -/
theorem readFrom_of_none (h : Markup.next? source bytes = .ok none) :
    readFrom source progress bytes = .ok progress := by
  rw [readFrom, h]

/-- Reading takes the next markup into account and goes on behind it. -/
theorem readFrom_of_some {rest : List UInt8} {markup : Markup}
    (h : Markup.next? source bytes = .ok (some (markup, rest))) :
    readFrom source progress bytes =
      progress.read markup >>= fun next => readFrom source next rest := by
  rw [readFrom, h]

end Reading

/-- What holds at the beginning and is kept by every markup that is taken into account holds at the
end. -/
theorem invariant_of_readFrom {source : Source} (Holds : List Markup → Progress → Prop)
    (hstep : ∀ {read progress markup next}, Holds read progress →
      progress.read markup = .ok next → Holds (read ++ [markup]) next)
    {read : List Markup} {progress after : Progress} {bytes : List UInt8}
    (hholds : Holds read progress) (h : readFrom source progress bytes = .ok after) :
    Holds (read ++ (markupsFrom source bytes).map (·.1)) after := by
  fun_induction markupsFrom source bytes generalizing read progress with
  | case1 bytes fault hnext =>
    rw [readFrom_of_error hnext] at h
    cases h
  | case2 bytes hnext =>
    obtain rfl : progress = after := by simpa [readFrom_of_none hnext] using h
    simpa using hholds
  | case3 bytes markup rest hnext ih =>
    rw [readFrom_of_some hnext] at h
    obtain ⟨next, hread, hrest⟩ := bind_eq_ok_iff.mp h
    simpa using ih (hstep hholds hread) hrest

/-- What taking a markup into account does to the progress of reading. -/
inductive Progress.Takes (progress : Progress) : Markup → Progress → Prop
  | opening {tag : Tag} {element : Element} (helement : tag.element = .ok element) :
      Takes progress (.opening tag) ⟨tag.name :: progress.names, progress.builder.begin element⟩
  | emptyElement {tag : Tag} {element : Element} (helement : tag.element = .ok element) :
      Takes progress (.emptyElement tag) ⟨progress.names, progress.builder.add element⟩
  | closing {name : List UInt8} {outer : List (List UInt8)} (hnames : progress.names = name :: outer) :
      Takes progress (.closing name) ⟨outer, progress.builder.complete⟩
  | textOutside {bytes : List UInt8} (houtside : progress.builder.isOutside = true) :
      Takes progress (.text bytes) progress
  | text {bytes : List UInt8} {text : String} (hinside : progress.builder.isOutside = false)
      (htext : textOfRun bytes = .ok text) :
      Takes progress (.text bytes) ⟨progress.names, progress.builder.addText text⟩
  | cdata {bytes : List UInt8} :
      Takes progress (.cdata bytes)
        ⟨progress.names, progress.builder.addText (Text.Utf8.decodeLenient bytes)⟩
  | aside : Takes progress .aside progress

/-- A markup that is read is taken into account in one of these ways. -/
theorem Progress.takes_of_read {progress next : Progress} {markup : Markup}
    (h : progress.read markup = .ok next) : progress.Takes markup next := by
  cases markup with
  | opening tag =>
    obtain ⟨element, helement, hnext⟩ := bind_eq_ok_iff.mp h
    exact Except.ok.inj hnext ▸ .opening helement
  | emptyElement tag =>
    obtain ⟨element, helement, hnext⟩ := bind_eq_ok_iff.mp h
    exact Except.ok.inj hnext ▸ .emptyElement helement
  | closing name =>
    rw [read] at h
    split at h
    next => cases h
    next expected outer hnames =>
      split at h
      next heq => exact Except.ok.inj h ▸ .closing (heq ▸ hnames)
      next => cases h
  | text bytes =>
    rw [read] at h
    split at h
    next houtside => exact Except.ok.inj h ▸ .textOutside houtside
    next hinside =>
      obtain ⟨text, htext, hnext⟩ := bind_eq_ok_iff.mp h
      cases hrun : textOfRun bytes with
      | error fault => rw [hrun] at htext; cases htext
      | ok run =>
        obtain rfl : run = text := by rw [hrun] at htext; exact Except.ok.inj htext
        exact Except.ok.inj hnext ▸ .text (Bool.eq_false_iff.mpr hinside) hrun
  | cdata bytes => exact Except.ok.inj h ▸ .cdata
  | aside => exact Except.ok.inj h ▸ .aside

/-- The number of open tags after a markup, given that before it. -/
def Markup.openAfter (opened : Nat) : Markup → Nat
  | .opening _ => opened + 1
  | .closing _ => opened - 1
  | _ => opened

/-- The number of tags that are open after markups. -/
def openTags (markups : List Markup) : Nat :=
  markups.foldl Markup.openAfter 0

/-- Whether a markup completes a top-level element, given the number of open tags before it. -/
def Markup.completesTop (opened : Nat) : Markup → Bool
  | .emptyElement _ => opened == 0
  | .closing _ => opened == 1
  | _ => false

/-- How many top-level elements markups complete, given the number of open tags before them. -/
def completedTops (opened : Nat) : List Markup → Nat
  | [] => 0
  | markup :: rest =>
    (markup.completesTop opened).toNat + completedTops (markup.openAfter opened) rest

/-- One more markup opens or closes one more tag. -/
theorem openTags_append (read : List Markup) (markup : Markup) :
    openTags (read ++ [markup]) = markup.openAfter (openTags read) := by
  rw [openTags, List.foldl_append]
  rfl

/-- One more markup completes one more top-level element or none. -/
theorem completedTops_append (opened : Nat) (read : List Markup) (markup : Markup) :
    completedTops opened (read ++ [markup]) = completedTops opened read +
      (markup.completesTop (read.foldl Markup.openAfter opened)).toNat := by
  induction read generalizing opened with
  | nil => exact Nat.add_comm _ _
  | cons first read ih =>
    rw [List.cons_append, completedTops, ih, completedTops, List.foldl_cons, Nat.add_assoc]

/-- The names and the elements of the open tags are as many as these. -/
structure Progress.AtDepth (progress : Progress) (depth : Nat) : Prop where
  names : progress.names.length = depth
  opened : progress.builder.opened.length = depth

namespace Builder

variable (builder : Builder)

/-- A child does not change how many elements are open. -/
@[simp] theorem length_opened_add (element : Element) :
    (builder.add element).opened.length = builder.opened.length := by
  obtain ⟨opened, root⟩ := builder
  cases opened <;> rfl

/-- A text does not change how many elements are open. -/
@[simp] theorem length_opened_addText (text : String) :
    (builder.addText text).opened.length = builder.opened.length := by
  obtain ⟨opened, root⟩ := builder
  cases opened <;> rfl

/-- To complete an element leaves one less open. -/
@[simp] theorem length_opened_complete :
    builder.complete.opened.length = builder.opened.length - 1 := by
  obtain ⟨opened, root⟩ := builder
  cases opened with
  | nil => rfl
  | cons element outer => simp [complete]

end Builder

/-- The number of open tags is that of the elements under construction, markup for markup. -/
theorem Progress.AtDepth.read {progress next : Progress} {markup : Markup} {depth : Nat}
    (h : progress.AtDepth depth) (htakes : progress.Takes markup next) :
    next.AtDepth (markup.openAfter depth) := by
  obtain ⟨hnames, hopened⟩ := h
  cases htakes with
  | opening => exact ⟨by simp [Markup.openAfter, hnames], by
      simp [Markup.openAfter, Builder.begin, hopened]⟩
  | emptyElement => exact ⟨hnames, by simpa [Markup.openAfter] using hopened⟩
  | closing houter =>
    refine ⟨?_, by simp [Markup.openAfter, hopened]⟩
    rw [Markup.openAfter, ← hnames, houter, List.length_cons, Nat.add_sub_cancel]
  | textOutside => exact ⟨hnames, hopened⟩
  | text => exact ⟨hnames, by simpa [Markup.openAfter] using hopened⟩
  | cdata => exact ⟨hnames, by simpa [Markup.openAfter] using hopened⟩
  | aside => exact ⟨hnames, hopened⟩

end Carta.Xml
