import Carta.Proofs.ExactDecoding
import Carta.Proofs.Truncation

/-!
# The keys of an element are distinct

A tag is refused when a key occurs twice in it, but keys are compared by their bytes, and decoding
can make the same text of different bytes. In a document that is valid UTF-8 this does not happen:
markup and attributes are divided at bytes of ASCII only, and such a byte never stands inside a
character, so every key is the text of its bytes.
-/

namespace Carta.Text.Utf8

/-- The bytes are those of characters. -/
def IsText (bytes : List UInt8) : Prop :=
  ∃ cs, bytes = encodeChars cs

namespace IsText

variable {before after : List UInt8} {b : UInt8}

/-- A byte of ASCII in a character is all of it. -/
theorem encodeChar_of_mem {c : Char} (h : b ∈ String.utf8EncodeChar c) (hb : b.toNat < 0x80) :
    String.utf8EncodeChar c = [b] := by
  have hnumber := eq_of_mem_encodeChar h hb
  rw [encodeChar_eq, if_pos (by omega), hnumber, UInt8.ofNat_toNat]

/-- A byte of ASCII stands between characters. -/
theorem divide (hb : b.toNat < 0x80) (h : IsText (before ++ b :: after)) :
    IsText before ∧ IsText after := by
  obtain ⟨cs, hcs⟩ := h
  induction cs generalizing before with
  | nil => simp [encodeChars] at hcs
  | cons c cs ih =>
    rw [encodeChars, List.flatMap_cons, List.append_eq_append_iff] at hcs
    rcases hcs with ⟨part, hchar, hrest⟩ | ⟨part, rfl, hrest⟩
    · cases part with
      | nil =>
        rw [List.append_nil] at hchar
        obtain ⟨-, hafter⟩ := @ih [] hrest
        exact ⟨⟨[c], by simp [encodeChars, hchar]⟩, hafter⟩
      | cons first part =>
        -- The byte is in the first character, so it is that character.
        obtain ⟨rfl, rfl⟩ := List.cons.inj hrest
        have hmem : b ∈ String.utf8EncodeChar c := hchar ▸ by simp
        have hlength := congrArg List.length hchar
        rw [encodeChar_of_mem hmem hb] at hlength
        simp only [List.length_append, List.length_cons, List.length_nil] at hlength
        obtain rfl : before = [] := List.eq_nil_of_length_eq_zero (by omega)
        obtain rfl : part = [] := List.eq_nil_of_length_eq_zero (by omega)
        exact ⟨⟨[], rfl⟩, cs, rfl⟩
    · obtain ⟨⟨front, hfront⟩, hafter⟩ := ih hrest.symm
      exact ⟨⟨c :: front, by rw [hfront, encodeChars, encodeChars, List.flatMap_cons]⟩, hafter⟩

/-- What follows an ASCII byte of a text is a text. -/
theorem tail (hb : b.toNat < 0x80) (h : IsText (b :: after)) : IsText after :=
  (divide hb (List.nil_append (b :: after) ▸ h)).2

/-- A character of ASCII can be put before others. -/
theorem cons (hb : b.toNat < 0x80) (h : IsText after) : IsText (b :: after) := by
  obtain ⟨cs, rfl⟩ := h
  refine ⟨Char.ofNat b.toNat :: cs, ?_⟩
  rw [encodeChars, encodeChars, List.flatMap_cons, encodeChar_one hb, UInt8.ofNat_toNat,
    List.singleton_append]

variable {bytes : List UInt8} {p : UInt8 → Bool}

/-- Characters of ASCII can be dropped at the beginning. -/
theorem dropWhile (hp : ∀ b, p b = true → b.toNat < 0x80) (h : IsText bytes) :
    IsText (bytes.dropWhile p) := by
  induction bytes with
  | nil => exact h
  | cons b bytes ih =>
    by_cases hb : p b = true
    · rw [List.dropWhile_cons_of_pos hb]
      exact ih (h.tail (hp b hb))
    · rwa [List.dropWhile_cons_of_neg hb]

/-- What goes up to a character of ASCII can be taken off. -/
theorem takeUntil (hp : ∀ b, p b = false → b.toNat < 0x80) (h : IsText bytes) :
    IsText (bytes.takeWhile p) ∧ IsText (bytes.dropWhile p) := by
  have hsplit := List.takeWhile_append_dropWhile (p := p) (l := bytes)
  cases hrest : bytes.dropWhile p with
  | nil =>
    rw [hrest, List.append_nil] at hsplit
    exact ⟨by rwa [hsplit], ⟨[], rfl⟩⟩
  | cons b rest =>
    have hb : p b = false := by
      have hhead := List.head?_dropWhile_not p bytes
      simpa [hrest] using hhead
    rw [← hsplit, hrest] at h
    obtain ⟨htaken, hbehind⟩ := divide (hp b hb) h
    exact ⟨htaken, cons (hp b hb) hbehind⟩

/-- Texts are told apart by what their bytes are decoded to. -/
theorem decodeLenient_inj {first second : List UInt8} (hfirst : IsText first)
    (hsecond : IsText second) (h : decodeLenient first = decodeLenient second) : first = second := by
  obtain ⟨cs, rfl⟩ := hfirst
  obtain ⟨ds, rfl⟩ := hsecond
  rw [decodeLenient_encodeChars, decodeLenient_encodeChars, String.ofList_inj] at h
  rw [h]

end IsText

end Carta.Text.Utf8

namespace Carta.Xml

open Carta.Text.Utf8 (IsText)

/-- A space is an ASCII byte. -/
theorem toNat_lt_of_isSpace {b : UInt8} (h : Byte.isSpace b = true) : b.toNat < 0x80 := by
  simp only [Byte.isSpace, Bool.or_eq_true, beq_iff_eq] at h
  rcases h with ((rfl | rfl) | rfl) | rfl <;> decide

/-- A quote is an ASCII byte. -/
theorem toNat_lt_of_isQuote {b : UInt8} (h : Byte.isQuote b = true) : b.toNat < 0x80 := by
  simp only [Byte.isQuote, Bool.or_eq_true, beq_iff_eq] at h
  rcases h with rfl | rfl <;> decide

/-- A byte that ends a key is an ASCII byte. -/
theorem toNat_lt_of_isKeyByte {b : UInt8} (h : isKeyByte b = false) : b.toNat < 0x80 := by
  simp only [isKeyByte, Bool.and_eq_false_iff, bne_eq_false_iff_eq] at h
  rcases h with rfl | h
  · decide
  · exact toNat_lt_of_isSpace (by simpa using h)

section Markups

variable {source : Source} {bytes rest : List UInt8} {found : Markup} {tag : Tag}

/-- A stretch up to a delimiter of ASCII, and what follows the delimiter, are texts. -/
theorem isText_of_split? {State : Type} {extent : Extent State} {state : State}
    {stretch : List UInt8} (hdelimiter : extent.delimiter.toNat < 0x80) (hbytes : IsText bytes)
    (h : extent.split? state bytes = some (stretch, rest)) : IsText stretch ∧ IsText rest :=
  IsText.divide hdelimiter (Extent.eq_of_split? h ▸ hbytes)

/-- A declaration is no tag. -/
theorem tag?_of_declarationMarkup (h : declarationMarkup source bytes = .ok (found, rest)) :
    found.tag? = none := by
  rw [declarationMarkup] at h
  split at h
  next => cases h
  next b _ =>
    split at h
    next =>
      obtain ⟨stretch, -, hcdata⟩ := delimitedMarkup_eq_ok_iff.mp h
      rw [cdataMarkup] at hcdata
      split at hcdata
      next => rw [← Except.ok.inj hcdata]; rfl
      next => cases hcdata
    next =>
      split at h
      next =>
        obtain ⟨stretch, -, hcomment⟩ := delimitedMarkup_eq_ok_iff.mp h
        rw [commentMarkup] at hcomment
        split at hcomment
        next => rw [← Except.ok.inj hcomment]; rfl
        next => cases hcomment
      next =>
        split at h
        next =>
          obtain ⟨stretch, -, hdoctype⟩ := delimitedMarkup_eq_ok_iff.mp h
          rw [doctypeMarkup] at hdoctype
          split at hdoctype
          next =>
            split at hdoctype
            next => cases hdoctype
            next => rw [← Except.ok.inj hdoctype]; rfl
          next => cases hdoctype
        next => cases h

/-- A tag goes up to `>`. -/
theorem exists_of_tag? (h : markupAfterLess source bytes = .ok (found, rest))
    (htag : found.tag? = some tag) : ∃ content,
      tagExtent.split? none bytes = some (content, rest) ∧ tagMarkup content = .ok found := by
  cases bytes with
  | nil => cases h
  | cons b bytes =>
    rw [markupAfterLess] at h
    split at h
    next =>
      rw [tag?_of_declarationMarkup h] at htag
      cases htag
    next =>
      split at h
      next =>
        obtain ⟨stretch, -, hclosing⟩ := delimitedMarkup_eq_ok_iff.mp h
        rw [← Except.ok.inj hclosing] at htag
        cases htag
      next =>
        split at h
        next =>
          obtain ⟨stretch, -, hinstruction⟩ := delimitedMarkup_eq_ok_iff.mp h
          rw [instructionMarkup] at hinstruction
          split at hinstruction
          next => cases hinstruction
          next =>
            rw [← Except.ok.inj hinstruction] at htag
            cases htag
        next => exact delimitedMarkup_eq_ok_iff.mp h

/-- What follows the name of a tag is text in a document that is. -/
theorem isText_remainder {content : List UInt8} (hcontent : IsText content)
    (h : tagMarkup content = .ok found) (htag : found.tag? = some tag) : IsText tag.remainder := by
  have hremainder {content : List UInt8} (hcontent : IsText content) :
      IsText (Tag.ofContent content).remainder :=
    (hcontent.takeUntil fun b hb => toNat_lt_of_isSpace (by simpa using hb)).2
  rw [tagMarkup] at h
  split at h
  next hslash =>
    rw [← Except.ok.inj h] at htag
    obtain ⟨inner, rfl⟩ := List.getLast?_eq_some_iff.mp hslash
    rw [← Option.some.inj htag, List.dropLast_concat]
    exact hremainder (IsText.divide (by decide) hcontent).1
  next =>
    rw [← Except.ok.inj h] at htag
    rw [← Option.some.inj htag]
    exact hremainder hcontent

/-- Of a document that is text, what follows a markup is text, and so are the attributes of a tag. -/
theorem isText_next? (hbytes : IsText bytes)
    (h : Markup.next? source bytes = .ok (some (found, rest))) :
    IsText rest ∧ ∀ tag, found.tag? = some tag → IsText tag.remainder := by
  have htrimmed := hbytes.dropWhile fun b => toNat_lt_of_isSpace
  rw [Markup.next?] at h
  split at h
  next => split at h <;> cases h
  next b more hbegin =>
    rw [hbegin] at htrimmed
    split at h
    next hless =>
      obtain ⟨⟨found', rest'⟩, hafter, heq⟩ := map_eq_ok_iff.mp h
      obtain ⟨rfl, rfl⟩ : found' = found ∧ rest' = rest := by simpa using heq
      have hmore : IsText more := htrimmed.tail (by subst hless; decide)
      obtain ⟨before, hends⟩ := (markupAfterLess_more hafter source []).2
      refine ⟨(IsText.divide (b := Byte.greater) (by decide) (hends ▸ hmore)).2, fun tag htag => ?_⟩
      obtain ⟨content, hsplit, hmarkup⟩ := exists_of_tag? hafter htag
      exact isText_remainder (isText_of_split? (by decide) hmore hsplit).1 hmarkup htag
    next hless =>
      have hrun := (htrimmed.takeUntil (p := (· != Byte.less)) fun c hc => by
        rw [bne_eq_false_iff_eq.mp hc]
        decide).2
      rw [List.dropWhile_cons_of_pos (by simpa using hless)] at hrun
      dsimp only at h
      split at h
      next => cases h
      next =>
        obtain ⟨rfl, rfl⟩ : _ = found ∧ more.dropWhile (· != Byte.less) = rest := by simpa using h
        exact ⟨hrun, fun tag htag => by cases htag⟩

/-- All tags of a document that is text have attributes that are. -/
theorem isText_of_mem_markupsFrom (hbytes : IsText bytes) :
    ∀ markup ∈ (markupsFrom source bytes).map (·.1), ∀ tag, markup.tag? = some tag →
      IsText tag.remainder := by
  fun_induction markupsFrom source bytes with
  | case1 | case2 => simp
  | case3 bytes markup rest hnext ih =>
    obtain ⟨hrest, htag⟩ := isText_next? hbytes hnext
    rw [List.map_cons, List.forall_mem_cons]
    exact ⟨htag, ih hrest⟩

end Markups

/-! ## Keys -/

section Keys

variable {size : Nat} {earlier : List RawAttribute} {bytes rest : List UInt8} {raw : RawAttribute}

/-- What follows the equals sign in a text is a text. -/
theorem isText_afterEquals (hbytes : IsText bytes) (h : afterEquals size bytes = .ok rest) :
    IsText rest := by
  cases bytes with
  | nil => cases h
  | cons b bytes =>
    rw [afterEquals] at h
    split at h
    next heq =>
      subst heq
      rw [← Except.ok.inj h]
      exact hbytes.tail (by decide)
    next => cases h

/-- What follows a quoted value in a text is a text. -/
theorem isText_quotedValue {value : List UInt8} (hbytes : IsText bytes)
    (h : quotedValue size bytes = .ok (value, rest)) : IsText rest := by
  cases bytes with
  | nil => cases h
  | cons q bytes =>
    rw [quotedValue] at h
    split at h
    next hquote =>
      have hascii := toNat_lt_of_isQuote hquote
      split at h
      next => cases h
      next result hsplit =>
        obtain rfl := Except.ok.inj h
        exact (isText_of_split? hascii (hbytes.tail hascii) hsplit).2
    next => cases h

/-- A key goes up to a character of ASCII, whatever its first byte is. -/
theorem isText_key {first : UInt8} {more : List UInt8} (h : IsText (first :: more)) :
    IsText (first :: more.takeWhile isKeyByte) ∧ IsText (more.dropWhile isKeyByte) := by
  rw [← List.takeWhile_append_dropWhile (p := isKeyByte) (l := more), ← List.cons_append] at h
  cases hrest : more.dropWhile isKeyByte with
  | nil =>
    rw [hrest, List.append_nil] at h
    exact ⟨h, ⟨[], rfl⟩⟩
  | cons b rest =>
    have hb : b.toNat < 0x80 := by
      have hhead := List.head?_dropWhile_not isKeyByte more
      exact toNat_lt_of_isKeyByte (by simpa [hrest] using hhead)
    rw [hrest] at h
    obtain ⟨hkey, hbehind⟩ := IsText.divide hb h
    exact ⟨hkey, hbehind.cons hb⟩

/-- The key of the next attribute is a text that no earlier attribute has, and what follows the
attribute is a text. -/
theorem isText_nextAttribute? (hbytes : IsText bytes)
    (h : RawAttribute.next? size earlier bytes = .ok (some (raw, rest))) :
    IsText raw.key ∧ IsText rest ∧ ∀ other ∈ earlier, other.key ≠ raw.key := by
  have hspace (b : UInt8) := toNat_lt_of_isSpace (b := b)
  have htrimmed := hbytes.dropWhile hspace
  rw [RawAttribute.next?] at h
  split at h
  next => cases h
  next first more hbegin =>
    rw [hbegin] at htrimmed
    obtain ⟨hkey, hbehind⟩ := isText_key htrimmed
    obtain ⟨afterKey, hequals, hnew⟩ := bind_eq_ok_iff.mp h
    have hafter := isText_afterEquals (hbehind.dropWhile hspace) hequals
    split at hnew
    next => cases hnew
    next hnone =>
      obtain ⟨⟨value, rest'⟩, hvalue, hresult⟩ := bind_eq_ok_iff.mp hnew
      obtain ⟨rfl, rfl⟩ := Prod.mk.inj (Option.some.inj (Except.ok.inj hresult))
      refine ⟨hkey, isText_quotedValue (hafter.dropWhile hspace) hvalue, ?_⟩
      simpa using List.find?_eq_none.mp (Option.eq_none_iff_forall_ne_some.mpr hnone)

/-- The key of an attribute is decoded as it is. -/
theorem key_of_decode {decoded : String × String}
    (h : raw.decode.mapError Error.document = .ok decoded) :
    decoded.1 = Text.Utf8.decodeLenient raw.key := by
  cases hraw : raw.decode with
  | error fault => rw [hraw] at h; cases h
  | ok result =>
    obtain rfl : result = decoded := by simpa [hraw, Except.mapError] using h
    obtain ⟨text, -, hvalue⟩ := bind_eq_ok_iff.mp hraw
    obtain ⟨value, -, hresult⟩ := bind_eq_ok_iff.mp hvalue
    rw [← Except.ok.inj hresult]

/-- The keys of the attributes of a tag are distinct, and none of them is that of an earlier one. -/
theorem nodup_attributesFrom (hbytes : IsText bytes) (hearlier : ∀ other ∈ earlier, IsText other.key)
    {attributes : List (String × String)} (h : attributesFrom size earlier bytes = .ok attributes) :
    (attributes.map (·.1)).Nodup ∧
      ∀ other ∈ earlier, Text.Utf8.decodeLenient other.key ∉ attributes.map (·.1) := by
  fun_induction attributesFrom size earlier bytes generalizing attributes with
  | case1 => cases h
  | case2 =>
    obtain rfl := Except.ok.inj h
    simp
  | case3 earlier bytes raw rest hnext ih =>
    obtain ⟨decoded, hdecoded, hmore⟩ := bind_eq_ok_iff.mp h
    obtain ⟨more, hrest, hattributes⟩ := bind_eq_ok_iff.mp hmore
    obtain rfl := Except.ok.inj hattributes
    obtain ⟨hkey, hrestText, hnew⟩ := isText_nextAttribute? hbytes hnext
    simp only [List.forall_mem_append, List.forall_mem_singleton] at ih
    obtain ⟨hnodup, hothers, hself⟩ := ih hrestText ⟨hearlier, hkey⟩ hrest
    have hname : decoded.1 = Text.Utf8.decodeLenient raw.key := key_of_decode hdecoded
    rw [List.map_cons, List.nodup_cons, hname]
    refine ⟨⟨hself, hnodup⟩, fun other hother => ?_⟩
    rw [List.mem_cons, not_or]
    refine ⟨fun hsame => hnew other hother ?_, hothers other hother⟩
    exact (hearlier other hother).decodeLenient_inj hkey hsame

end Keys

/-- The mark at the beginning of a text is a character. -/
theorem isText_withoutMark {bytes : List UInt8} (h : IsText bytes) : IsText (withoutMark bytes) := by
  unfold withoutMark
  split
  next rest =>
    obtain ⟨cs, hcs⟩ := h
    have hpieces : Text.Utf8.pieces (0xEF :: 0xBB :: 0xBF :: rest) =
        .char (Char.ofNat 0xFEFF) :: Text.Utf8.pieces rest := rfl
    rw [hcs, Text.Utf8.pieces_encodeChars] at hpieces
    cases cs with
    | nil => cases hpieces
    | cons c cs =>
      exact ⟨cs, Text.Utf8.eq_encodeChars_of_pieces (List.cons.inj hpieces).2.symm⟩
  next => exact h

/-- No element of a document that is text has two attributes with one key. -/
theorem nodup_keys_of_parse {bytes : List UInt8} (hbytes : IsText bytes) {root : Element}
    (h : parse bytes = .ok root) :
    ∀ element ∈ root.heads, (element.attributes.map (·.1)).Nodup := by
  obtain ⟨earlier, progress, haccount⟩ := exists_account h
  intro element helement
  have hmem : element ∈ (earlier ++ [root]).flatMap Element.heads ++ progress.builder.begun := by
    simp [helement]
  obtain ⟨tag, htag, hbegins⟩ := exists_of_mem_mapM haccount.begun hmem
  obtain ⟨markup, hmarkup, hmarkupTag⟩ := List.mem_filterMap.mp htag
  have hremainder := isText_of_mem_markupsFrom (isText_withoutMark hbytes) markup hmarkup tag hmarkupTag
  obtain ⟨attributes, hattributes, hresult⟩ := bind_eq_ok_iff.mp hbegins
  rw [← Except.ok.inj hresult]
  exact (nodup_attributesFrom hremainder (List.forall_mem_nil _) hattributes).1

end Carta.Xml
