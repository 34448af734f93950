import Carta.Proofs.Encoding
import Carta.Proofs.References
import Carta.Xml.Reader
import Mathlib.Data.List.Basic

/-!
# Written markup is read as it is meant

Tags, comments, processing instructions, character data sections and runs of text are written with
spaces where they may stand, with either quote, and with references where they are needed. Whatever
follows, the next markup that is read is the one that was written: no delimiter within it ends it,
and where its end depends on what was read before, as it does with quotes, the state at its end is
one that ends it.
-/

namespace Carta.Xml

open Carta.Text.Utf8 (encode encodeChars)

/-- A stretch is split off at the first delimiter that ends it. -/
theorem Extent.split?_of_first {State : Type} (extent : Extent State) {state : State}
    {stretch : List UInt8}
    (hfirst : ∀ before after, stretch = before ++ extent.delimiter :: after →
      extent.ends (before.foldl extent.advance state) = false)
    (hends : extent.ends (stretch.foldl extent.advance state) = true) (rest : List UInt8) :
    extent.split? state (stretch ++ extent.delimiter :: rest) = some (stretch, rest) := by
  induction stretch generalizing state with
  | nil => simpa [split?] using hends
  | cons b stretch ih =>
    have hb : ¬ (b = extent.delimiter ∧ extent.ends state = true) := by
      rintro ⟨rfl, hstate⟩
      have hnot := hfirst [] stretch rfl
      simp [hstate] at hnot
    rw [List.cons_append, split?, if_neg hb, ih (fun before after h =>
      hfirst (b :: before) after (by rw [h, List.cons_append])) hends]
    rfl

/-- A stretch without its delimiter, with an end that counts, is split off. -/
theorem Extent.split?_append {State : Type} (extent : Extent State) {state : State}
    {stretch : List UInt8} (hnot : extent.delimiter ∉ stretch)
    (hends : extent.ends (stretch.foldl extent.advance state) = true) (rest : List UInt8) :
    extent.split? state (stretch ++ extent.delimiter :: rest) = some (stretch, rest) :=
  extent.split?_of_first (fun before after h => absurd (by simp [h]) hnot) hends rest

/-- Markup that is delimited is read up to its delimiter. -/
theorem delimitedMarkup_append {State : Type} (source : Source) (fault : SyntaxFault)
    (extent : Extent State) {state : State} {stretch : List UInt8}
    (markup : List UInt8 → Except Fault Markup) (hnot : extent.delimiter ∉ stretch)
    (hends : extent.ends (stretch.foldl extent.advance state) = true) (rest : List UInt8) :
    delimitedMarkup source fault extent state (stretch ++ extent.delimiter :: rest) markup =
      (markup stretch).map (·, rest) := by
  rw [delimitedMarkup, Extent.split?_append extent hnot hends]

/-- Nothing but spaces. -/
def Spaces (bytes : List UInt8) : Prop :=
  ∀ b ∈ bytes, Byte.isSpace b = true

/-- The bytes with a meaning in markup. -/
def markupBytes : List UInt8 :=
  [Byte.slash, Byte.greater, Byte.less, Byte.equals, Byte.apostrophe, Byte.quote, 0x26, Byte.bang,
    Byte.question]

/-- Whether a byte may stand in a name. -/
def isNameByte (b : UInt8) : Bool :=
  !Byte.isSpace b && !markupBytes.contains b

/-- No byte with a meaning in markup may stand in a name. -/
theorem isNameByte_of_mem {b : UInt8} (h : b ∈ markupBytes) : isNameByte b = false := by
  have hall : markupBytes.all (!isNameByte ·) = true := by decide
  simpa using List.all_eq_true.mp hall b h

/-- Whether a character may stand in a name. -/
def isNameCharacter (c : Char) : Bool :=
  c ∉ [' ', '\t', '\n', '\r', '/', '>', '<', '=', Char.ofNat 39, Char.ofNat 34, '&', '!', '?']

/-- A name of an element or a key of an attribute: not empty, and without spaces and the characters
with a meaning in markup. -/
def IsName (s : String) : Prop :=
  s ≠ "" ∧ ∀ c ∈ s.toList, isNameCharacter c = true

/-- What may stand between two markups: spaces, comments and processing instructions. -/
inductive Gap : List UInt8 → Prop
  | nil : Gap []
  | space {b : UInt8} {rest : List UInt8} (hb : Byte.isSpace b = true) (hrest : Gap rest) :
      Gap (b :: rest)
  | comment {body rest : List UInt8} (hbody : ∀ b ∈ body, b ≠ Byte.dash ∧ b ≠ Byte.greater)
      (hrest : Gap rest) :
      Gap (Byte.less :: Byte.bang :: Byte.dash :: Byte.dash :: body ++
        Byte.dash :: Byte.dash :: Byte.greater :: rest)
  | instruction {body rest : List UInt8}
      (hbody : ∀ b ∈ body, b ≠ Byte.question ∧ b ≠ Byte.greater) (hrest : Gap rest) :
      Gap (Byte.less :: Byte.question :: body ++ Byte.question :: Byte.greater :: rest)

/-- A text in quotes, its characters spelled in any way. -/
inductive WrittenValue : String → List UInt8 → Prop
  | quoted {value : String} {q : UInt8} {written : List Char} (hq : Byte.isQuote q = true)
      (hwritten : Spells value.toList written) :
      WrittenValue value (q :: encodeChars written ++ [q])

/-- Attributes, each after one space or more. -/
inductive WrittenAttributes : List (String × String) → List UInt8 → Prop
  | nil : WrittenAttributes [] []
  | cons {key value : String} {spaces written more : List UInt8}
      {rest : List (String × String)} (hne : spaces ≠ []) (hspaces : Spaces spaces)
      (hvalue : WrittenValue value written) (hrest : WrittenAttributes rest more) :
      WrittenAttributes ((key, value) :: rest)
        (spaces ++ encode key ++ Byte.equals :: written ++ more)

/-- A text that stands between markups: no space is at its ends, unless as a reference. -/
inductive WrittenText : String → List UInt8 → Prop
  | spelled {text : String} {written : List Char} (hwritten : Spells text.toList written)
      (hfirst : ∀ b ∈ (encodeChars written).head?, Byte.isSpace b = false)
      (hlast : ∀ b ∈ (encodeChars written).getLast?, Byte.isSpace b = false) :
      WrittenText text (encodeChars written)

/-- The bytes of a name may stand in one. -/
theorem IsName.bytes {s : String} (h : IsName s) : ∀ b ∈ encode s, isNameByte b = true := by
  intro b hb
  cases hname : isNameByte b with
  | true => rfl
  | false =>
    have hall : ([0x20, 0x09, 0x0A, 0x0D] ++ markupBytes).all (fun b =>
        b.toNat < 0x80 && !isNameCharacter (Char.ofNat b.toNat)) = true := by decide
    have hmem : b ∈ [0x20, 0x09, 0x0A, 0x0D] ++ markupBytes := by
      rw [List.mem_append]
      simpa [isNameByte, Byte.isSpace, or_assoc, imp_iff_not_or] using hname
    obtain ⟨hsmall, hbad⟩ : b.toNat < 0x80 ∧ isNameCharacter (Char.ofNat b.toNat) = false := by
      simpa using List.all_eq_true.mp hall b hmem
    obtain ⟨c, hc, hcb⟩ := Text.Utf8.exists_of_mem_encodeChars hb hsmall
    rw [← hcb, Char.ofNat_toNat, h.2 c hc] at hbad
    cases hbad

/-- A name has bytes. -/
theorem IsName.encode_ne_nil {s : String} (h : IsName s) : encode s ≠ [] := by
  intro hnil
  refine h.1 (String.toList_eq_nil_iff.mp ?_)
  cases hs : s.toList with
  | nil => rfl
  | cons c cs =>
    rw [encode, hs, List.flatMap_cons] at hnil
    exact absurd (List.append_eq_nil_iff.mp hnil).1 (String.utf8EncodeChar_ne_nil)

/-- In the spelling of a text no byte ends a value or a run or a tag. -/
theorem not_mem_spelling {cs written : List Char} (h : Spells cs written) {b : UInt8}
    (hb : Byte.isQuote b = true ∨ b = Byte.less ∨ b = Byte.greater) : b ∉ encodeChars written := by
  intro hmem
  have hreserved : b.toNat < 0x80 ∧ isReserved (Char.ofNat b.toNat) = true ∧
      Char.ofNat b.toNat ≠ '&' := by
    rcases hb with hb | rfl | rfl
    · simp only [Byte.isQuote, Bool.or_eq_true, beq_iff_eq] at hb
      rcases hb with rfl | rfl <;> decide
    · decide
    · decide
  obtain ⟨c, hc, hcb⟩ := Text.Utf8.exists_of_mem_encodeChars hmem hreserved.1
  rw [← hcb, Char.ofNat_toNat] at hreserved
  rcases eq_of_mem_spelling h c hc with hplain | hamp
  · simp [hplain] at hreserved
  · exact hreserved.2.2 hamp

/-- What begins with a byte, in bytes that end without it, begins before their end. -/
theorem exists_of_append_cons {before after body tail : List UInt8} {b : UInt8}
    (h : body ++ tail = before ++ b :: after) (hb : b ∉ tail) :
    ∃ later, body = before ++ b :: later := by
  rcases List.append_eq_append_iff.mp h with ⟨more, -, htail⟩ | ⟨more, hbody, hmore⟩
  · exact absurd (by simp [htail]) hb
  · cases more with
    | nil => exact absurd (by simp [← List.nil_append tail ▸ hmore]) hb
    | cons c more =>
      obtain ⟨rfl, -⟩ := List.cons.inj hmore
      exact ⟨more, hbody⟩

/-- The two bytes that are the latest of those read, when enough are. -/
theorem exists_of_take_two {bytes state : List UInt8} {b : UInt8}
    (hlength : 2 ≤ bytes.length) (h : (bytes.reverse ++ state).take 2 = [b, b]) :
    ∃ before, bytes = before ++ [b, b] := by
  rcases List.eq_nil_or_concat bytes with rfl | ⟨bytes, second, rfl⟩
  · simp at hlength
  rcases List.eq_nil_or_concat bytes with rfl | ⟨before, first, rfl⟩
  · simp at hlength
  obtain ⟨rfl, rfl⟩ : second = b ∧ first = b := by simpa using h
  exact ⟨before, by simp⟩

section Reading

variable (source : Source)

/-- Spaces before a markup are passed over. -/
theorem next?_space {b : UInt8} (hb : Byte.isSpace b = true) (rest : List UInt8) :
    Markup.next? source (b :: rest) = Markup.next? source rest := by
  rw [Markup.next?, Markup.next?, List.dropWhile_cons_of_pos hb]

/-- Markup begins with `<`. -/
theorem next?_less (more : List UInt8) :
    Markup.next? source (Byte.less :: more) = (markupAfterLess source more).map some := by
  rw [Markup.next?, List.dropWhile_cons_of_neg (by decide)]
  exact if_pos rfl

/-- A comment is read as an aside. -/
theorem next?_comment {body : List UInt8}
    (hbody : ¬ [Byte.dash, Byte.dash, Byte.greater] <:+: body) (rest : List UInt8) :
    Markup.next? source (Byte.less :: Byte.bang :: Byte.dash :: Byte.dash :: body ++
      Byte.dash :: Byte.dash :: Byte.greater :: rest) = .ok (some (.aside, rest)) := by
  have hfold (bytes state : List UInt8) :
      bytes.foldl commentExtent.advance state = bytes.reverse ++ state := by
    simp [commentExtent]
  have hsplit : commentExtent.split? [Byte.bang] (Byte.dash :: Byte.dash :: body ++
      [Byte.dash, Byte.dash] ++ commentExtent.delimiter :: rest) =
        some (Byte.dash :: Byte.dash :: body ++ [Byte.dash, Byte.dash], rest) := by
    refine commentExtent.split?_of_first (fun before after h => ?_) ?_ rest
    · obtain ⟨later, hlater⟩ := exists_of_append_cons h (by decide)
      rw [hfold, Bool.eq_false_iff]
      intro hends
      simp only [commentExtent, Bool.and_eq_true, decide_eq_true_eq] at hends
      -- The dashes that end a comment are not those that begin it.
      rcases before with _ | ⟨first, _ | ⟨second, inner⟩⟩
      · simp at hends
      · simp at hends
      obtain ⟨-, -, hinner⟩ : Byte.dash = first ∧ Byte.dash = second ∧ body = inner ++
          commentExtent.delimiter :: later := by simpa using hlater
      have hlength : 2 ≤ inner.length := by
        have := hends.1
        simp only [List.length_append, List.length_reverse, List.length_cons, List.length_nil] at this
        omega
      have htake : (inner.reverse ++ [second, first, Byte.bang]).take 2 =
          [Byte.dash, Byte.dash] := by simpa using hends.2
      obtain ⟨shorter, rfl⟩ := exists_of_take_two hlength htake
      exact hbody ⟨shorter, later, by rw [hinner]; simp [commentExtent]⟩
    · rw [hfold]
      simp [commentExtent]
  have hbytes : Byte.less :: Byte.bang :: Byte.dash :: Byte.dash :: body ++
      Byte.dash :: Byte.dash :: Byte.greater :: rest =
      Byte.less :: Byte.bang :: (Byte.dash :: Byte.dash :: body ++ [Byte.dash, Byte.dash] ++
        commentExtent.delimiter :: rest) := by simp [commentExtent]
  rw [hbytes, next?_less, markupAfterLess, if_pos rfl, declarationMarkup]
  change (delimitedMarkup source .comment commentExtent [Byte.bang] _ commentMarkup).map some = _
  rw [delimitedMarkup, hsplit]
  rfl

/-- A processing instruction is read as an aside. -/
theorem next?_instruction {body : List UInt8}
    (hbody : ¬ [Byte.question, Byte.greater] <:+: Byte.question :: body) (rest : List UInt8) :
    Markup.next? source (Byte.less :: Byte.question :: body ++ Byte.question :: Byte.greater :: rest) =
      .ok (some (.aside, rest)) := by
  have hfold (bytes : List UInt8) : bytes.foldl instructionExtent.advance true =
      decide ((Byte.question :: bytes).getLast? = some Byte.question) := by
    rcases List.eq_nil_or_concat bytes with rfl | ⟨bytes, b, rfl⟩
    · rfl
    · rw [List.concat_eq_append, ← List.cons_append, List.getLast?_concat]
      simp [instructionExtent]
  have hsplit : instructionExtent.split? true (body ++ [Byte.question] ++
      instructionExtent.delimiter :: rest) = some (body ++ [Byte.question], rest) := by
    refine instructionExtent.split?_of_first (fun before after h => ?_) ?_ rest
    · obtain ⟨later, rfl⟩ := exists_of_append_cons h (by decide)
      change List.foldl _ _ _ = false
      rw [hfold, decide_eq_false_iff_not]
      intro hlast
      obtain ⟨shorter, hshorter⟩ := List.getLast?_eq_some_iff.mp hlast
      refine hbody ⟨shorter, later, ?_⟩
      rw [← List.cons_append, hshorter]
      simp [instructionExtent]
    · change List.foldl _ _ _ = true
      rw [hfold, ← List.cons_append, List.getLast?_concat]
      simp
  have hbytes : Byte.less :: Byte.question :: body ++ Byte.question :: Byte.greater :: rest =
      Byte.less :: Byte.question :: (body ++ [Byte.question] ++
        instructionExtent.delimiter :: rest) := by simp [instructionExtent]
  rw [hbytes, next?_less, markupAfterLess, if_neg (by decide), if_neg (by decide), if_pos rfl,
    delimitedMarkup, hsplit]
  dsimp only
  rw [instructionMarkup, if_neg (by simp)]
  rfl

/-- What a character data section begins with, after `<!`. -/
def sectionKeyword : List UInt8 :=
  [0x5B, 0x43, 0x44, 0x41, 0x54, 0x41, 0x5B]

/-- A character data section with the given content. -/
def cdataSection (content : List UInt8) : List UInt8 :=
  Byte.less :: Byte.bang :: (sectionKeyword ++ content ++
    [Byte.closingBracket, Byte.closingBracket, Byte.greater])

/-- A character data section is read with its content. -/
theorem next?_cdataSection {content : List UInt8}
    (hcontent : ¬ [Byte.closingBracket, Byte.closingBracket, Byte.greater] <:+: content)
    (rest : List UInt8) :
    Markup.next? source (cdataSection content ++ rest) = .ok (some (.cdata content, rest)) := by
  have hfold (bytes state : List UInt8) :
      bytes.foldl cdataExtent.advance state = bytes.reverse ++ state := by
    simp [cdataExtent]
  have hsplit : cdataExtent.split? [Byte.bang] (sectionKeyword ++ content ++
      [Byte.closingBracket, Byte.closingBracket] ++ cdataExtent.delimiter :: rest) =
        some (sectionKeyword ++ content ++ [Byte.closingBracket, Byte.closingBracket], rest) := by
    refine cdataExtent.split?_of_first (fun before after h => ?_) ?_ rest
    · obtain ⟨later, hlater⟩ := exists_of_append_cons h (by decide)
      rw [hfold, Bool.eq_false_iff]
      intro hends
      have htake : (before.reverse ++ [Byte.bang]).take 2 =
          [Byte.closingBracket, Byte.closingBracket] := by simpa [cdataExtent] using hends
      have hlength : 2 ≤ before.length := by
        rcases before with _ | ⟨first, _ | ⟨second, inner⟩⟩
        · simp at htake
        · simp [Byte.bang, Byte.closingBracket] at htake
        · simp
      obtain ⟨shorter, rfl⟩ := exists_of_take_two hlength htake
      -- The brackets that end a section are none of its keyword.
      have hparts : sectionKeyword ++ content = shorter ++
          Byte.closingBracket :: (Byte.closingBracket :: Byte.greater :: later) := by
        rw [hlater]
        simp [cdataExtent]
      rcases List.append_eq_append_iff.mp hparts with ⟨more, rfl, hmore⟩ | ⟨more, hkeyword, hmore⟩
      · exact hcontent ⟨more, later, by rw [hmore]; simp⟩
      · cases more with
        | nil => exact hcontent ⟨[], later, by simpa using hmore⟩
        | cons b more =>
          obtain ⟨rfl, -⟩ := List.cons.inj hmore
          have hmem : Byte.closingBracket ∈ sectionKeyword := by rw [hkeyword]; simp
          exact absurd hmem (by decide)
    · rw [hfold]
      simp [cdataExtent]
  have hbytes : cdataSection content ++ rest = Byte.less :: Byte.bang ::
      (sectionKeyword ++ content ++ [Byte.closingBracket, Byte.closingBracket] ++
        cdataExtent.delimiter :: rest) := by simp [cdataSection, cdataExtent]
  have hkeyword : (sectionKeyword ++ content ++ [Byte.closingBracket, Byte.closingBracket]).take 7 =
      [0x5B, 0x43, 0x44, 0x41, 0x54, 0x41, 0x5B] := by simp [sectionKeyword]
  have htaken : ((sectionKeyword ++ content ++ [Byte.closingBracket, Byte.closingBracket]).drop 7).take
      ((sectionKeyword ++ content ++ [Byte.closingBracket, Byte.closingBracket]).length - 9) =
        content := by
    simp [sectionKeyword]
  rw [hbytes, next?_less, markupAfterLess, if_pos rfl, declarationMarkup]
  change (delimitedMarkup source .cdata cdataExtent [Byte.bang] _ cdataMarkup).map some = _
  rw [delimitedMarkup, hsplit]
  dsimp only
  rw [cdataMarkup, if_pos hkeyword, htaken]
  rfl

end Reading

/-- Bytes that may stand in a tag: none of them ends it, every quote in them is closed again, and no
slash is at their end. -/
structure Inner (bytes : List UInt8) : Prop where
  not_mem : Byte.greater ∉ bytes
  closed : bytes.foldl tagExtent.advance none = none
  last : ∀ b ∈ bytes.getLast?, b ≠ Byte.slash

namespace Inner

variable {first second : List UInt8}

/-- Bytes that may stand in a tag may stand in it together. -/
theorem append (hfirst : Inner first) (hsecond : Inner second) : Inner (first ++ second) where
  not_mem h := (List.mem_append.mp h).elim hfirst.not_mem hsecond.not_mem
  closed := by rw [List.foldl_append, hfirst.closed, hsecond.closed]
  last b hb := by
    rw [List.getLast?_append, Option.mem_def, Option.or_eq_some_iff] at hb
    rcases hb with hb | ⟨-, hb⟩
    · exact hsecond.last b hb
    · exact hfirst.last b hb

/-- Bytes without a meaning in a tag may stand in it. -/
theorem of_plain (h : ∀ b ∈ first, b ≠ Byte.greater ∧ Byte.isQuote b = false ∧ b ≠ Byte.slash) :
    Inner first where
  not_mem hmem := (h _ hmem).1 rfl
  closed := by
    induction first with
    | nil => rfl
    | cons b rest ih =>
      rw [List.forall_mem_cons] at h
      have hadvance : tagExtent.advance none b = none := by simp [tagExtent, h.1.2.1]
      rw [List.foldl_cons, hadvance, ih h.2]
  last b hb := (h b (List.mem_of_mem_getLast? hb)).2.2

/-- A name may stand in a tag. -/
theorem of_name {s : String} (h : IsName s) : Inner (encode s) := by
  refine of_plain fun b hb => ?_
  have hname := h.bytes b hb
  have hne {d : UInt8} (hd : d ∈ markupBytes) : b ≠ d := by
    rintro rfl
    simp [isNameByte_of_mem hd] at hname
  refine ⟨hne (by decide), ?_, hne (by decide)⟩
  simp [Byte.isQuote, hne (show Byte.quote ∈ markupBytes by decide),
    hne (show Byte.apostrophe ∈ markupBytes by decide)]

/-- Spaces may stand in a tag. -/
theorem of_spaces (h : Spaces first) : Inner first := by
  refine of_plain fun b hb => ?_
  have hspace := h b hb
  simp only [Byte.isSpace, Bool.or_eq_true, beq_iff_eq] at hspace
  rcases hspace with ((rfl | rfl) | rfl) | rfl <;> decide

/-- In a quoted value the quote stays open up to its end. -/
theorem of_value {value : String} (h : WrittenValue value first) : Inner first := by
  cases h with
  | @quoted q written hq hwritten =>
    have hnot := not_mem_spelling hwritten (.inl hq)
    have hopen (bytes : List UInt8) (hbytes : q ∉ bytes) :
        bytes.foldl tagExtent.advance (some q) = some q := by
      induction bytes with
      | nil => rfl
      | cons b rest ih =>
        rw [List.mem_cons, not_or] at hbytes
        have hadvance : tagExtent.advance (some q) b = some q := if_neg (Ne.symm hbytes.1)
        rw [List.foldl_cons, hadvance, ih hbytes.2]
    have hplain : q ≠ Byte.greater ∧ q ≠ Byte.slash := by
      simp only [Byte.isQuote, Bool.or_eq_true, beq_iff_eq] at hq
      rcases hq with rfl | rfl <;> decide
    constructor
    · simp [Ne.symm hplain.1, not_mem_spelling hwritten (.inr (.inr rfl))]
    · have hbegin : tagExtent.advance none q = some q := if_pos hq
      have hend : tagExtent.advance (some q) q = none := if_pos rfl
      rw [List.cons_append, List.foldl_cons, hbegin, List.foldl_append, hopen _ hnot, List.foldl_cons,
        hend, List.foldl_nil]
    · intro b hb
      rw [List.getLast?_concat, Option.mem_some_iff] at hb
      exact hb ▸ hplain.2

/-- Written attributes may stand in a tag. -/
theorem of_attributes {attributes : List (String × String)} (h : WrittenAttributes attributes first)
    (hkeys : ∀ entry ∈ attributes, IsName entry.1) : Inner first := by
  induction h with
  | nil => exact ⟨List.not_mem_nil, rfl, nofun⟩
  | cons _ hspaces hvalue _ ih =>
    rw [List.forall_mem_cons] at hkeys
    have hequals : Inner [Byte.equals] := of_plain (by simp; decide)
    exact (((of_spaces hspaces).append (of_name hkeys.1)).append (hequals.append (of_value hvalue))).append
      (ih hkeys.2)

end Inner

/-- Spaces at the end are taken off, and nothing else is. -/
theorem trimEnd_append {bytes spaces : List UInt8} (hspaces : Spaces spaces)
    (hlast : ∀ b ∈ bytes.getLast?, Byte.isSpace b = false) :
    Byte.trimEnd (bytes ++ spaces) = bytes := by
  have hdrop : bytes.reverse.dropWhile Byte.isSpace = bytes.reverse := by
    cases hb : bytes.reverse with
    | nil => rfl
    | cons b rest =>
      refine List.dropWhile_cons_of_neg ?_
      rw [hlast b (by rw [← List.head?_reverse, hb]; rfl)]
      decide
  rw [Byte.trimEnd, List.reverse_append,
    List.dropWhile_append_of_pos fun b hb => hspaces b (List.mem_reverse.mp hb), hdrop,
    List.reverse_reverse]

/-- What follows a name in a tag is nothing, or begins with a space. -/
def AfterName (bytes : List UInt8) : Prop :=
  ∀ b ∈ bytes.head?, Byte.isSpace b = true

/-- Written attributes and spaces may follow the name of a tag. -/
theorem WrittenAttributes.afterName {attributes : List (String × String)}
    {bytes spaces : List UInt8} (h : WrittenAttributes attributes bytes) (hspaces : Spaces spaces) :
    AfterName (bytes ++ spaces) := by
  intro b hb
  cases h with
  | nil => exact hspaces b (List.mem_of_mem_head? hb)
  | cons hne hspaces' _ _ =>
    refine hspaces' b (List.mem_of_mem_head? ?_)
    simpa [List.head?_append_of_ne_nil _ hne] using hb

section Documents

variable (source : Source)

section Tags

variable {name : String} {inside : List UInt8}

/-- A name of a tag goes up to the first space. -/
theorem ofContent_append (hname : IsName name) (hafter : AfterName inside) :
    Tag.ofContent (encode name ++ inside) = ⟨encode name, inside⟩ := by
  have hspace : ∀ b ∈ encode name, (!Byte.isSpace b) = true := by
    intro b hb
    have := hname.bytes b hb
    simp only [isNameByte, Bool.and_eq_true] at this
    exact this.1
  have hstop : inside.takeWhile (!Byte.isSpace ·) = [] ∧ inside.dropWhile (!Byte.isSpace ·) = inside := by
    cases inside with
    | nil => exact ⟨rfl, rfl⟩
    | cons b rest =>
      have hb : ¬ (!Byte.isSpace b) = true := by simp [hafter b rfl]
      exact ⟨List.takeWhile_cons_of_neg hb, List.dropWhile_cons_of_neg hb⟩
  rw [Tag.ofContent, List.takeWhile_append_of_pos hspace, List.dropWhile_append_of_pos hspace,
    hstop.1, hstop.2, List.append_nil]

/-- The first byte of a name tells a tag from all other markup. -/
theorem markupAfterLess_of_name (hname : IsName name) (more : List UInt8) :
    markupAfterLess source (encode name ++ more) =
      delimitedMarkup source .tag tagExtent none (encode name ++ more) tagMarkup := by
  obtain ⟨b, rest, hbytes⟩ := List.exists_cons_of_ne_nil hname.encode_ne_nil
  have hb : isNameByte b = true := hname.bytes b (hbytes ▸ List.mem_cons_self)
  have hne {d : UInt8} (hd : isNameByte d = false) : b ≠ d := by
    rintro rfl
    simp [hb] at hd
  rw [hbytes, List.cons_append, markupAfterLess, if_neg (hne (by decide)), if_neg (hne (by decide)),
    if_neg (hne (by decide))]

/-- An opening tag is read as one. -/
theorem next?_opening (hname : IsName name) (hinside : Inner inside) (hafter : AfterName inside)
    (rest : List UInt8) :
    Markup.next? source (Byte.less :: encode name ++ inside ++ Byte.greater :: rest) =
      .ok (some (.opening ⟨encode name, inside⟩, rest)) := by
  have hinner : Inner (encode name ++ inside) := (Inner.of_name hname).append hinside
  have hdelimited := delimitedMarkup_append source .tag tagExtent tagMarkup hinner.not_mem
    (Option.isNone_iff_eq_none.mpr hinner.closed) rest
  have hlast : (encode name ++ inside).getLast? ≠ some Byte.slash :=
    fun h => hinner.last _ h rfl
  rw [List.cons_append, List.cons_append, next?_less, List.append_assoc,
    markupAfterLess_of_name source hname, ← List.append_assoc]
  refine (congrArg (Except.map some) hdelimited).trans ?_
  rw [tagMarkup, if_neg hlast, ofContent_append hname hafter]
  rfl

/-- An empty-element tag is read as one. -/
theorem next?_emptyElement (hname : IsName name) (hinside : Inner inside)
    (hafter : AfterName inside) (rest : List UInt8) :
    Markup.next? source (Byte.less :: encode name ++ inside ++ Byte.slash :: Byte.greater :: rest) =
      .ok (some (.emptyElement ⟨encode name, inside⟩, rest)) := by
  have hinner : Inner (encode name ++ inside) := (Inner.of_name hname).append hinside
  have hnot : tagExtent.delimiter ∉ encode name ++ inside ++ [Byte.slash] := by
    intro hmem
    rcases List.mem_append.mp hmem with hmem | hmem
    · exact hinner.not_mem hmem
    · exact absurd hmem (by decide)
  have hends : tagExtent.ends
      ((encode name ++ inside ++ [Byte.slash]).foldl tagExtent.advance none) = true := by
    rw [List.foldl_append, hinner.closed]
    rfl
  have hdelimited := delimitedMarkup_append source .tag tagExtent tagMarkup hnot hends rest
  have hbytes : Byte.less :: encode name ++ inside ++ Byte.slash :: Byte.greater :: rest =
      Byte.less :: (encode name ++ (inside ++ [Byte.slash] ++ tagExtent.delimiter :: rest)) := by
    simp [tagExtent]
  rw [hbytes, next?_less, markupAfterLess_of_name source hname, ← List.append_assoc,
    ← List.append_assoc]
  refine (congrArg (Except.map some) hdelimited).trans ?_
  rw [tagMarkup, if_pos List.getLast?_concat, List.dropLast_concat, ofContent_append hname hafter]
  rfl

/-- A closing tag is read as one, whatever spaces are at its end. -/
theorem next?_closing (hname : IsName name) {spaces : List UInt8} (hspaces : Spaces spaces)
    (rest : List UInt8) :
    Markup.next? source (Byte.less :: Byte.slash :: encode name ++ spaces ++ Byte.greater :: rest) =
      .ok (some (.closing (encode name), rest)) := by
  have hinner : Inner (encode name ++ spaces) := (Inner.of_name hname).append (.of_spaces hspaces)
  have hdelimited := delimitedMarkup_append source .tag tagExtent closingMarkup hinner.not_mem
    (Option.isNone_iff_eq_none.mpr hinner.closed) rest
  have hspace : ∀ b ∈ encode name, Byte.isSpace b = false := by
    intro b hb
    have := hname.bytes b hb
    simp only [isNameByte, Bool.and_eq_true, Bool.not_eq_true'] at this
    exact this.1
  have htrim : Byte.trimEnd (encode name ++ spaces) = encode name :=
    trimEnd_append hspaces fun b hb => hspace b (List.mem_of_mem_getLast? hb)
  have hall : (encode name ++ spaces).all Byte.isSpace = false := by
    obtain ⟨b, more, hbytes⟩ := List.exists_cons_of_ne_nil hname.encode_ne_nil
    simp [hbytes, hspace b (hbytes ▸ List.mem_cons_self)]
  rw [List.cons_append, List.cons_append, List.cons_append, List.cons_append, next?_less,
    markupAfterLess, if_neg (by decide), if_pos rfl]
  refine (congrArg (Except.map some) hdelimited).trans ?_
  rw [closingMarkup, hall, htrim]
  rfl

end Tags

/-- A run of bytes is read up to the next markup, without the spaces between them. -/
theorem next?_bytes {bytes spaces : List UInt8} (hne : bytes ≠ []) (hless : Byte.less ∉ bytes)
    (hfirst : ∀ b ∈ bytes.head?, Byte.isSpace b = false)
    (hlast : ∀ b ∈ bytes.getLast?, Byte.isSpace b = false) (hspaces : Spaces spaces)
    (rest : List UInt8) :
    Markup.next? source (bytes ++ spaces ++ Byte.less :: rest) =
      .ok (some (.text bytes, Byte.less :: rest)) := by
  have hrun : ∀ b ∈ bytes ++ spaces, (b != Byte.less) = true := by
    intro b hb
    rw [bne_iff_ne]
    rintro rfl
    rcases List.mem_append.mp hb with hb | hb
    · exact hless hb
    · exact absurd (hspaces _ hb) (by decide)
  obtain ⟨b, more, rfl⟩ := List.exists_cons_of_ne_nil hne
  rw [List.cons_append, List.forall_mem_cons] at hrun
  have hspace : ¬ Byte.isSpace b = true := by simp [hfirst b rfl]
  have hstop : (Byte.less :: rest).takeWhile (· != Byte.less) = [] ∧
      (Byte.less :: rest).dropWhile (· != Byte.less) = Byte.less :: rest := ⟨rfl, rfl⟩
  rw [Markup.next?, List.append_assoc, List.cons_append, List.dropWhile_cons_of_neg hspace,
    ← List.append_assoc]
  dsimp only
  rw [if_neg (bne_iff_ne.mp hrun.1), List.takeWhile_append_of_pos hrun.2,
    List.dropWhile_append_of_pos hrun.2, hstop.1, hstop.2, List.append_nil, ← List.cons_append,
    trimEnd_append hspaces hlast]
  rfl

/-- A text is read up to the next markup, without the spaces between them. -/
theorem next?_text {text : String} {written spaces : List UInt8} (h : WrittenText text written)
    (hne : written ≠ []) (hspaces : Spaces spaces) (rest : List UInt8) :
    Markup.next? source (written ++ spaces ++ Byte.less :: rest) =
      .ok (some (.text written, Byte.less :: rest)) := by
  cases h with
  | spelled hwritten hfirst hlast =>
    exact next?_bytes source hne (not_mem_spelling hwritten (.inr (.inl rfl))) hfirst hlast hspaces
      rest

end Documents

end Carta.Xml
