import Carta.Proofs.TextRuns
import Carta.Proofs.TrimmedTrees
import Carta.Proofs.Truncation

/-!
# Content as text or as a character data section

The content of an element can stand between its tags as it is, or in a character data section. The
bytes of a text lead to the same tree in both forms, but for blanks around that text. Bytes that are
those of no text are rejected where they stand as they are; in a section they are replaced, and the
document is read as if the replacement had been written.
-/

namespace Carta.Xml

open Carta.Text.Utf8 (decode decodeLenient encode encodeChars)

section Continuing

/-- Reading only depends on what becomes of a source at its end. -/
theorem readFrom_congr_source {first second : Source} (h : first.failure = second.failure)
    (progress : Progress) (bytes : List UInt8) :
    readFrom first progress bytes = readFrom second progress bytes := by
  obtain ⟨bytes₁, failure⟩ := first
  obtain ⟨bytes₂, failure'⟩ := second
  obtain rfl : failure = failure' := h
  have hnext (bytes : List UInt8) :
      Markup.next? ⟨bytes₁, failure⟩ bytes = Markup.next? ⟨bytes₂, failure⟩ bytes := rfl
  fun_induction markupsFrom ⟨bytes₁, failure⟩ bytes generalizing progress with
  | case1 bytes fault hfault =>
    rw [readFrom_of_error hfault, readFrom_of_error (hnext bytes ▸ hfault)]
  | case2 bytes hnone => rw [readFrom_of_none hnone, readFrom_of_none (hnext bytes ▸ hnone)]
  | case3 bytes markup rest hsome ih =>
    rw [readFrom_of_some hsome, readFrom_of_some (hnext bytes ▸ hsome)]
    exact bind_congr fun next => ih next

/-- A longer document is read on from where its beginning ends, unless that ends in a run of text. -/
theorem readFrom_append {source : Source} (hsource : source.failure = none) {bytes : List UInt8}
    {markup : Markup} (hlast : (markupsFrom source bytes).getLast? = some (markup, []))
    (hmarkup : ∀ run, markup ≠ .text run) (longer : Source) (more : List UInt8)
    (progress : Progress) :
    readFrom longer progress (bytes ++ more) =
      readFrom source progress bytes >>= fun next => readFrom longer next more := by
  fun_induction markupsFrom source bytes generalizing progress with
  | case1 => cases hlast
  | case2 => cases hlast
  | case3 bytes found rest hnext ih =>
    rcases next?_more hnext longer more with ⟨hmore, -, -⟩ | ⟨⟨run, rfl⟩, rfl⟩
    · rw [readFrom_of_some hmore, readFrom_of_some hnext, bind_assoc]
      refine bind_congr fun next => ?_
      cases hrest : markupsFrom source rest with
      | nil =>
        rw [hrest] at hlast
        obtain ⟨-, rfl⟩ : found = markup ∧ rest = [] := by simpa using hlast
        rw [readFrom_nil hsource]
        rfl
      | cons first later =>
        rw [hrest, List.getLast?_cons_cons, ← hrest] at hlast
        exact ih hlast next
    · rw [markupsFrom_nil] at hlast
      exact absurd (by simpa using hlast : Markup.text run = markup).symm (hmarkup run)

/-- When the last markup is an opening tag, the innermost element is the one that it begins. -/
def Progress.Opened (read : List Markup) (progress : Progress) : Prop :=
  ∀ tag, read.getLast? = some (.opening tag) → ∃ (before : Progress) (element : Element),
    tag.element = .ok element ∧
      progress = ⟨tag.name :: before.names, before.builder.begin element⟩

/-- This is so after every markup. -/
theorem Progress.opened_of_read {read : List Markup} {progress next : Progress} {markup : Markup}
    (h : progress.read markup = .ok next) : Opened (read ++ [markup]) next := by
  intro tag htag
  rw [List.getLast?_concat, Option.some.injEq] at htag
  subst htag
  cases takes_of_read h with
  | opening helement => exact ⟨progress, _, helement, rfl⟩

/-- After a document that ends in an opening tag the innermost element is the one that it begins. -/
theorem exists_of_readFrom_opening {source : Source} {progress after : Progress}
    {bytes rest : List UInt8} {tag : Tag}
    (hlast : (markupsFrom source bytes).getLast? = some (.opening tag, rest))
    (h : readFrom source progress bytes = .ok after) :
    ∃ (before : Progress) (element : Element), tag.element = .ok element ∧
      after = ⟨tag.name :: before.names, before.builder.begin element⟩ := by
  have hopened : Progress.Opened ([] ++ (markupsFrom source bytes).map (·.1)) after :=
    invariant_of_readFrom Progress.Opened (fun _ hread => Progress.opened_of_read hread)
      (fun _ htag => nomatch htag) h
  refine hopened tag ?_
  rw [List.nil_append, List.getLast?_map, hlast]
  rfl

end Continuing

section Closing

variable {source : Source} {names : List (List UInt8)} {element : Element} {outer : List Element}
  {root : Option Element} {first second : String}

/-- A closing tag completes elements that differ in blanks around their texts in the same way. -/
theorem map_inside_readFrom_closing (h : Text.trim first = Text.trim second) (more : List UInt8) :
    (readFrom source ⟨names, ⟨{ element with text := first } :: outer, root⟩⟩
      (Byte.less :: Byte.slash :: more)).map Progress.inside =
    (readFrom source ⟨names, ⟨{ element with text := second } :: outer, root⟩⟩
      (Byte.less :: Byte.slash :: more)).map Progress.inside := by
  have hless : Markup.next? source (Byte.less :: Byte.slash :: more) =
      (delimitedMarkup source .tag tagExtent none more closingMarkup).map some := by
    rw [next?_less, markupAfterLess, if_neg (by decide), if_pos rfl]
  cases hnext : delimitedMarkup source .tag tagExtent none more closingMarkup with
  | error fault =>
    rw [hnext] at hless
    rw [readFrom_of_error hless, readFrom_of_error hless]
  | ok found =>
    obtain ⟨markup, rest⟩ := found
    obtain ⟨stretch, -, hclosing⟩ := delimitedMarkup_eq_ok_iff.mp hnext
    obtain ⟨name, rfl⟩ : ∃ name, markup = .closing name := ⟨_, (Except.ok.inj hclosing).symm⟩
    rw [hnext] at hless
    rw [readFrom_of_some hless, readFrom_of_some hless]
    refine map_bind_congr ?_ fun next next' hinside => map_inside_readFrom hinside source rest
    have hcomplete : (Builder.complete ⟨{ element with text := first } :: outer, root⟩).inside =
        (Builder.complete ⟨{ element with text := second } :: outer, root⟩).inside := by
      rw [Builder.complete, Builder.complete, Builder.inside_add, Builder.inside_add,
        Element.trimmed_eq, Element.trimmed_eq]
      simp only [Element.inside, h]
    rw [Progress.read, Progress.read]
    cases names with
    | nil => rfl
    | cons expected names =>
      dsimp only
      split
      next => simp only [Except.map, Progress.inside, hcomplete]
      next => rfl

end Closing

/-- What stands around the content of an element: all up to its opening tag, and what follows `</`
behind the content. -/
structure Frame where
  before : List UInt8
  tag : Tag
  after : List UInt8
  ends : (markupsFrom { bytes := before } (withoutMark before)).getLast? =
    some (.opening tag, [])

namespace Frame

variable (frame : Frame)

/-- The document with the bytes between the tags of the element. -/
def around (content : List UInt8) : List UInt8 :=
  frame.before ++ (content ++ Byte.less :: Byte.slash :: frame.after)

/-- A document with an opening tag has more than a part of the mark of UTF-8. -/
theorem withoutMark_append (more : List UInt8) :
    withoutMark (frame.before ++ more) = withoutMark frame.before ++ more := by
  rcases withoutMark_more frame.before more with hmark | hpart
  · exact hmark
  · have hnone : ∀ part ∈ [[], [0xEF], [0xEF, 0xBB]],
        (markupsFrom { bytes := part } (withoutMark part)).all (·.1.tag?.isNone) = true := by
      decide +kernel
    have htag := List.all_eq_true.mp (hnone _ hpart) _ (List.mem_of_getLast? frame.ends)
    cases htag

/-- The root that was read, if there is one. -/
def rootOf (progress : Progress) : Except Error Element :=
  match progress.builder.root with
  | some root => .ok root
  | none => .error .noRoot

/-- The document is read up to the opening tag, and from there on. -/
theorem parse_around (content : List UInt8) : parse (frame.around content) =
    (readFrom { bytes := frame.before } {} (withoutMark frame.before) >>= fun progress =>
      readFrom { bytes := [] } progress (content ++ Byte.less :: Byte.slash :: frame.after)) >>=
        rootOf := by
  have hsource : readFrom { bytes := frame.around content } {} (withoutMark (frame.around content)) =
      readFrom { bytes := [] } {} (withoutMark (frame.around content)) :=
    readFrom_congr_source (by rfl) _ _
  have hread := readFrom_append rfl frame.ends (fun _ => nofun) { bytes := [] }
    (content ++ Byte.less :: Byte.slash :: frame.after) {}
  rw [← hread, ← withoutMark_append, ← around, ← hsource]
  rfl

variable {content : List UInt8}

/-- What is read up to the opening tag has the element that the tag begins innermost. -/
theorem exists_of_readFrom_before {progress : Progress}
    (h : readFrom { bytes := frame.before } {} (withoutMark frame.before) = .ok progress) :
    ∃ names element outer root, progress = ⟨names, ⟨element :: outer, root⟩⟩ ∧
      element.text = "" := by
  obtain ⟨before, element, helement, rfl⟩ := exists_of_readFrom_opening frame.ends h
  exact ⟨_, element, _, _, rfl, (Tag.eq_of_element helement).2⟩

end Frame

/-- Bytes that neither begin a markup or a reference nor end a section. -/
def IsPlain (content : List UInt8) : Prop :=
  ∀ b ∈ content, b ≠ Byte.less ∧ b ≠ 0x26 ∧ b ≠ Byte.closingBracket

/-- Two documents are both rejected, or both have a root and the same is told of their elements. -/
def SameOutcome : Except Error Element → Except Error Element → Prop
  | .ok first, .ok second => first.contents = second.contents
  | .error _, .error _ => True
  | _, _ => False

/-- What is equal in the form of what is told has the same outcome. -/
theorem sameOutcome_of_map_eq {first second : Except Error Element}
    (h : first.map Element.contents = second.map Element.contents) : SameOutcome first second := by
  cases first with
  | error => cases second with
    | error => trivial
    | ok => cases h
  | ok => cases second with
    | error => cases h
    | ok => exact Except.ok.inj h

namespace IsPlain

variable {content : List UInt8} (h : IsPlain content)
include h

/-- No less-than sign is in plain content. -/
theorem less_not_mem : Byte.less ∉ content := fun hmem => (h _ hmem).1 rfl

/-- Plain content does not contain the end of a section. -/
theorem no_end :
    ¬ [Byte.closingBracket, Byte.closingBracket, Byte.greater] <:+: content := fun hend =>
  (h Byte.closingBracket (hend.subset List.mem_cons_self)).2.2 rfl

/-- What replaces bytes that neither begin a markup nor end a section does not do so either. -/
theorem replaced : IsPlain (encode (decodeLenient content)) := by
  have hbyte {b : UInt8} (hb : b ∈ encode (decodeLenient content)) (hascii : b.toNat < 0x80) :
      b ∈ content := by
    obtain ⟨c, hc, hcb⟩ := Text.Utf8.exists_of_mem_encodeChars hb hascii
    have hmem := Text.Utf8.mem_of_mem_decodeLenient hc (hcb ▸ hascii)
    rwa [hcb, UInt8.ofNat_toNat] at hmem
  intro b hb
  by_cases hascii : b.toNat < 0x80
  · exact h b (hbyte hb hascii)
  · refine ⟨?_, ?_, ?_⟩ <;> (rintro rfl; exact hascii (by decide))

end IsPlain

/-- The characters of a text are plain when its bytes are. -/
theorem IsPlain.characters {cs : List Char} (h : IsPlain (encodeChars cs)) :
    '<' ∉ cs ∧ '&' ∉ cs := by
  have hbytes {c : Char} (hc : c ∈ cs) : String.utf8EncodeChar c ⊆ encodeChars cs :=
    fun b hb => List.mem_flatMap.mpr ⟨c, hc, hb⟩
  constructor
  · intro hmem
    exact (h Byte.less (hbytes hmem (by decide))).1 rfl
  · intro hmem
    exact (h 0x26 (hbytes hmem (by decide))).2.1 rfl

namespace Frame

variable (frame : Frame) {content : List UInt8}

/-- Of roots that differ in blanks around texts the same is told. -/
theorem map_contents_rootOf {first second : Progress} (h : first.inside = second.inside) :
    (rootOf first).map Element.contents = (rootOf second).map Element.contents := by
  have hroot : first.builder.root.map Element.trimmed = second.builder.root.map Element.trimmed :=
    congrArg (·.builder.root) h
  rw [rootOf, rootOf]
  cases hfirst : first.builder.root with
  | none => cases hsecond : second.builder.root with
    | none => rfl
    | some => rw [hfirst, hsecond] at hroot; cases hroot
  | some root => cases hsecond : second.builder.root with
    | none => rw [hfirst, hsecond] at hroot; cases hroot
    | some root' =>
      rw [hfirst, hsecond] at hroot
      exact congrArg Except.ok (Element.contents_eq_of_trimmed (Option.some.inj hroot))

/-- The bytes of a text come to the same as they are and in a section. -/
theorem map_contents_of_text {cs : List Char} (h : IsPlain (encodeChars cs)) :
    (parse (frame.around (encodeChars cs))).map Element.contents =
      (parse (frame.around (cdataSection (encodeChars cs)))).map Element.contents := by
  rw [parse_around, parse_around]
  refine map_bind_congr ?_ fun first second hinside => map_contents_rootOf hinside
  cases hbefore : readFrom { bytes := frame.before } {} (withoutMark frame.before) with
  | error => rfl
  | ok progress =>
    obtain ⟨names, element, outer, root, rfl, htext⟩ := frame.exists_of_readFrom_before hbefore
    have htrim : Text.trim (element.text ++ String.ofList (resolved (coreOf isRunSpace cs))) =
        Text.trim (element.text ++ decodeLenient (encodeChars cs)) := by
      have hcore : resolved (coreOf isRunSpace cs) = coreOf isRunSpace cs :=
        resolved_eq (resolves_self fun hmem => h.characters.2 (mem_of_mem_coreOf hmem))
      rw [htext, hcore, Text.Utf8.decodeLenient_encodeChars, String.empty_append,
        String.empty_append, Text.trim, Text.trim, String.toList_ofList, String.toList_ofList,
        trimChars_core]
    change (readFrom _ _ _).map Progress.inside = (readFrom _ _ _).map Progress.inside
    rw [readFrom_run _ h.characters.1 (resolves_self h.characters.2),
      readFrom_cdataSection _ h.no_end]
    exact map_inside_readFrom_closing htrim frame.after

/-- Bytes that are those of no text are rejected as they are. -/
theorem parse_of_not_text (hplain : IsPlain content) (hnone : ∀ cs, content ≠ encodeChars cs) :
    ∃ error, parse (frame.around content) = .error error := by
  rw [parse_around]
  cases hbefore : readFrom { bytes := frame.before } {} (withoutMark frame.before) with
  | error error => exact ⟨error, rfl⟩
  | ok progress =>
    obtain ⟨names, element, outer, root, rfl, -⟩ := frame.exists_of_readFrom_before hbefore
    obtain ⟨error, herror⟩ := readFrom_run_of_not_text { bytes := [] } hplain.less_not_mem hnone names
      element outer root (Byte.slash :: frame.after)
    refine ⟨error, ?_⟩
    change (readFrom _ _ _ >>= rootOf) = _
    rw [herror]
    rfl

/-- In a section, what replaces bytes that are those of no text is read. -/
theorem parse_section_replaced (hplain : IsPlain content) :
    parse (frame.around (cdataSection content)) =
      parse (frame.around (cdataSection (encode (decodeLenient content)))) := by
  rw [parse_around, parse_around]
  cases hbefore : readFrom { bytes := frame.before } {} (withoutMark frame.before) with
  | error => rfl
  | ok progress =>
    obtain ⟨names, element, outer, root, rfl, -⟩ := frame.exists_of_readFrom_before hbefore
    change (readFrom _ _ _ >>= rootOf) = (readFrom _ _ _ >>= rootOf)
    rw [readFrom_cdataSection _ hplain.no_end, readFrom_cdataSection _ hplain.replaced.no_end,
      Text.Utf8.decodeLenient_encode]

end Frame

/-- Whether the content of an element stands between its tags as it is or in a section makes no
difference when it is a text: the document has the same error, or of all elements the same is told.
Bytes that are those of no text are always rejected as they are; in a section the document is read as
if their replacement had been written, so the outcome is another one unless the document is rejected
for something else. -/
theorem parse_section_or_text (frame : Frame) {content : List UInt8} (hplain : IsPlain content) :
    (∀ text, content = encode text →
      (parse (frame.around content)).map Element.contents =
        (parse (frame.around (cdataSection content))).map Element.contents) ∧
    ((∀ text, content ≠ encode text) →
      (∃ error, parse (frame.around content) = .error error) ∧
      parse (frame.around (cdataSection content)) =
        parse (frame.around (cdataSection (encode (decodeLenient content))))) ∧
    (SameOutcome (parse (frame.around content)) (parse (frame.around (cdataSection content))) ↔
      (∃ text, content = encode text) ∨
        ∃ error, parse (frame.around (cdataSection content)) = .error error) := by
  have htext : ∀ text, content = encode text →
      (parse (frame.around content)).map Element.contents =
        (parse (frame.around (cdataSection content))).map Element.contents := by
    rintro text rfl
    exact frame.map_contents_of_text hplain
  have hnone : (∀ text, content ≠ encode text) →
      ∃ error, parse (frame.around content) = .error error := fun h =>
    frame.parse_of_not_text hplain fun cs hcs => h (String.ofList cs) (by
      rw [hcs, encode, String.toList_ofList, encodeChars])
  refine ⟨htext, fun h => ⟨hnone h, frame.parse_section_replaced hplain⟩, ?_⟩
  by_cases h : ∃ text, content = encode text
  · obtain ⟨text, hcontent⟩ := h
    exact iff_of_true (sameOutcome_of_map_eq (htext text hcontent)) (.inl ⟨text, hcontent⟩)
  · rw [or_iff_right h]
    obtain ⟨error, herror⟩ := hnone (not_exists.mp h)
    rw [herror]
    cases hsection : parse (frame.around (cdataSection content)) with
    | error error' => exact iff_of_true trivial ⟨error', rfl⟩
    | ok root => exact iff_of_false id (by simp)

/-- A document that is one element. -/
def loneFrame : Frame where
  before := encode "<a>"
  tag := ⟨encode "a", []⟩
  after := encode "a>"
  ends := by decide +kernel

/-- A byte that no text has is rejected in an element, and replaced in a section. -/
theorem section_accepted :
    IsPlain [0xFF] ∧
    parse (loneFrame.around [0xFF]) = .error (.document (.encoding (.malformed 1 0))) ∧
    parse (loneFrame.around (cdataSection [0xFF])) =
      .ok { name := "a", text := String.singleton (Char.ofNat 0xFFFD) } ∧
    ¬ ∀ (frame : Frame) (content : List UInt8), IsPlain content →
      SameOutcome (parse (frame.around content)) (parse (frame.around (cdataSection content))) := by
  have hplain : IsPlain [0xFF] := by
    intro b hb
    rw [List.mem_singleton.mp hb]
    decide
  have herror : parse (loneFrame.around [0xFF]) =
      .error (.document (.encoding (.malformed 1 0))) := by with_unfolding_all rfl
  have hroot : parse (loneFrame.around (cdataSection [0xFF])) =
      .ok { name := "a", text := String.singleton (Char.ofNat 0xFFFD) } := by with_unfolding_all rfl
  refine ⟨hplain, herror, hroot, fun hall => ?_⟩
  have hsame := hall loneFrame [0xFF] hplain
  rw [herror, hroot] at hsame
  exact hsame

/-- A text with blanks around it has the same content in both forms. -/
theorem blank_text_same :
    IsPlain (encode " é\t") ∧
    SameOutcome (parse (loneFrame.around (encode " é\t")))
      (parse (loneFrame.around (cdataSection (encode " é\t")))) := by
  have hplain : IsPlain (encode " é\t") := by
    have hall : (encode " é\t").all
        (fun b => b != Byte.less && b != 0x26 && b != Byte.closingBracket) = true := by
      decide +kernel
    intro b hb
    simpa [and_assoc] using List.all_eq_true.mp hall b hb
  exact ⟨hplain, (parse_section_or_text loneFrame hplain).2.2.mpr (.inl ⟨_, rfl⟩)⟩

end Carta.Xml
