import Carta.Proofs.Encoding
import Carta.Proofs.Outcome

/-!
# Only the bytes of a text are decoded

Bytes are decoded strictly when they are the bytes of a text, and to that text. A piece that is a
character is spelled by the very bytes that the character has: the bounds of the second byte leave
out what a shorter spelling suffices for, the surrogates and what is beyond the last character. This
holds of the pieces between malformed ones as well, so lenient decoding makes up no character but the
one that it puts in their place.
-/

namespace Carta.Text.Utf8

/-- Pieces are decoded when all of them are characters. -/
theorem characters_eq_ok_iff {offset : Nat} {found : List Piece} {cs : List Char} :
    characters offset found = .ok cs ↔ found = cs.map .char := by
  constructor
  · intro h
    induction found generalizing offset cs with
    | nil => rw [← Except.ok.inj h, List.map_nil]
    | cons piece rest ih =>
      cases piece with
      | char c =>
        obtain ⟨more, hmore, rfl⟩ := map_eq_ok_iff.mp h
        rw [ih hmore, List.map_cons]
      | malformed => cases h
      | cut => cases h
  · rintro rfl
    exact characters_map_char offset cs

section Pending

variable {low high : UInt8} {value seen : Nat} {bytes : List UInt8} {c : Char}
  {more : List Piece}

/-- The character that another byte is owed to goes on with a byte within its bounds. -/
theorem exists_of_piecesFrom_some {p : Pending} (h : piecesFrom (some p) bytes = .char c :: more) :
    ∃ n rest, p.low.toNat ≤ n ∧ n ≤ p.high.toNat ∧ bytes = UInt8.ofNat n :: rest := by
  cases bytes with
  | nil => cases h
  | cons b rest =>
    rw [piecesFrom] at h
    split at h
    next hbounds =>
      simp only [Bool.and_eq_true, decide_eq_true_eq, UInt8.le_iff_toNat_le] at hbounds
      exact ⟨b.toNat, rest, hbounds.1, hbounds.2, by simp⟩
    next => cases h

/-- What completes a character. -/
theorem exists_last_of_piecesFrom
    (h : piecesFrom (some ⟨1, low, high, value, seen⟩) bytes = .char c :: more) :
    ∃ n rest, low.toNat ≤ n ∧ n ≤ high.toNat ∧ bytes = UInt8.ofNat n :: rest ∧
      c = Char.ofNat (value * 64 + (n - 0x80)) ∧ piecesFrom none rest = more := by
  obtain ⟨n, rest, hlow, hhigh, rfl⟩ := exists_of_piecesFrom_some h
  rw [piecesFrom_last hlow hhigh] at h
  obtain ⟨hc, hmore⟩ := List.cons.inj h
  exact ⟨n, rest, hlow, hhigh, rfl, (Piece.char.inj hc).symm, hmore⟩

/-- What goes on with a character. -/
theorem exists_more_of_piecesFrom {owed : Nat}
    (h : piecesFrom (some ⟨owed + 2, low, high, value, seen⟩) bytes = .char c :: more) :
    ∃ n rest, low.toNat ≤ n ∧ n ≤ high.toNat ∧ bytes = UInt8.ofNat n :: rest ∧
      piecesFrom (some ⟨owed + 1, 0x80, 0xBF, value * 64 + (n - 0x80), seen + 1⟩) rest =
        .char c :: more := by
  obtain ⟨n, rest, hlow, hhigh, rfl⟩ := exists_of_piecesFrom_some h
  rw [piecesFrom_more hlow hhigh] at h
  exact ⟨n, rest, hlow, hhigh, rfl, h⟩

end Pending

/-- The number of a character that is named by it. -/
theorem toNat_ofNat_of_valid {n : Nat} (h : n < 0xD800 ∨ 0xDFFF < n ∧ n < 0x110000) :
    (Char.ofNat n).toNat = n := by
  have hvalid : n.isValidChar := h
  have hchar : Char.ofNat n = Char.ofNatAux n hvalid := dif_pos hvalid
  rw [hchar]
  rfl

/-- A character that a number below `80` names has one byte. -/
theorem encodeChar_one {n : Nat} (h : n < 0x80) :
    String.utf8EncodeChar (Char.ofNat n) = [UInt8.ofNat n] := by
  rw [encodeChar_eq, toNat_ofNat_of_valid (by omega), if_pos (by omega)]

/-- Two bytes within their bounds are those of the character with their value. -/
theorem encodeChar_two {first second : Nat} (hfirst : 0xC2 ≤ first ∧ first < 0xE0)
    (hsecond : 0x80 ≤ second ∧ second ≤ 0xBF) :
    String.utf8EncodeChar (Char.ofNat ((first - 0xC0) * 64 + (second - 0x80))) =
      [UInt8.ofNat first, UInt8.ofNat second] := by
  generalize hvalue : (first - 0xC0) * 64 + (second - 0x80) = value
  rw [encodeChar_eq, toNat_ofNat_of_valid (by omega), if_neg (by omega), if_pos (by omega)]
  have hbytes : value / 64 % 32 + 192 = first ∧ value % 64 + 128 = second := by omega
  rw [hbytes.1, hbytes.2]

/-- Three bytes within their bounds are those of the character with their value. -/
theorem encodeChar_three {first second third : Nat} (hfirst : 0xE0 ≤ first ∧ first < 0xF0)
    (hsecond : 0x80 ≤ second ∧ second ≤ 0xBF) (hshort : first = 0xE0 → 0xA0 ≤ second)
    (hsurrogate : first = 0xED → second ≤ 0x9F) (hthird : 0x80 ≤ third ∧ third ≤ 0xBF) :
    String.utf8EncodeChar (Char.ofNat (((first - 0xE0) * 64 + (second - 0x80)) * 64 +
      (third - 0x80))) = [UInt8.ofNat first, UInt8.ofNat second, UInt8.ofNat third] := by
  generalize hvalue : ((first - 0xE0) * 64 + (second - 0x80)) * 64 + (third - 0x80) = value
  rw [encodeChar_eq, toNat_ofNat_of_valid (by omega), if_neg (by omega), if_neg (by omega),
    if_pos (by omega)]
  have hbytes : value / 4096 % 16 + 224 = first ∧ value / 64 % 64 + 128 = second ∧
      value % 64 + 128 = third := by omega
  rw [hbytes.1, hbytes.2.1, hbytes.2.2]

/-- Four bytes within their bounds are those of the character with their value. -/
theorem encodeChar_four {first second third fourth : Nat} (hfirst : 0xF0 ≤ first ∧ first < 0xF5)
    (hsecond : 0x80 ≤ second ∧ second ≤ 0xBF) (hshort : first = 0xF0 → 0x90 ≤ second)
    (hlast : first = 0xF4 → second ≤ 0x8F) (hthird : 0x80 ≤ third ∧ third ≤ 0xBF)
    (hfourth : 0x80 ≤ fourth ∧ fourth ≤ 0xBF) :
    String.utf8EncodeChar (Char.ofNat ((((first - 0xF0) * 64 + (second - 0x80)) * 64 +
      (third - 0x80)) * 64 + (fourth - 0x80))) =
      [UInt8.ofNat first, UInt8.ofNat second, UInt8.ofNat third, UInt8.ofNat fourth] := by
  generalize hvalue : (((first - 0xF0) * 64 + (second - 0x80)) * 64 + (third - 0x80)) * 64 +
    (fourth - 0x80) = value
  rw [encodeChar_eq, toNat_ofNat_of_valid (by omega), if_neg (by omega), if_neg (by omega),
    if_neg (by omega)]
  have hbytes : value / 262144 % 8 + 240 = first ∧ value / 4096 % 64 + 128 = second ∧
      value / 64 % 64 + 128 = third ∧ value % 64 + 128 = fourth := by omega
  rw [hbytes.1, hbytes.2.1, hbytes.2.2.1, hbytes.2.2.2]

section Spelled

variable {first : Nat} {bytes : List UInt8} {c : Char} {more : List Piece}

/-- A character that begins with a byte for two has their bytes. -/
theorem exists_of_piecesFrom_two (hfirst : 0xC2 ≤ first ∧ first < 0xE0)
    (h : piecesFrom none (UInt8.ofNat first :: bytes) = .char c :: more) :
    ∃ rest, UInt8.ofNat first :: bytes = String.utf8EncodeChar c ++ rest ∧
      piecesFrom none rest = more := by
  rw [piecesFrom, start_ofNat (by omega), if_neg (by omega), if_neg (by omega),
    if_pos hfirst.2] at h
  dsimp only at h
  obtain ⟨second, rest, hlow, hhigh, rfl, hc, hmore⟩ := exists_last_of_piecesFrom h
  simp only [UInt8.reduceToNat] at hlow hhigh
  exact ⟨rest, by rw [hc, encodeChar_two hfirst ⟨hlow, hhigh⟩]; rfl, hmore⟩

/-- A character that begins with a byte for three has their bytes. -/
theorem exists_of_piecesFrom_three (hfirst : 0xE0 ≤ first ∧ first < 0xF0)
    (h : piecesFrom none (UInt8.ofNat first :: bytes) = .char c :: more) :
    ∃ rest, UInt8.ofNat first :: bytes = String.utf8EncodeChar c ++ rest ∧
      piecesFrom none rest = more := by
  rw [piecesFrom, start_ofNat (by omega), if_neg (by omega), if_neg (by omega),
    if_neg (by omega), if_pos hfirst.2] at h
  dsimp only at h
  obtain ⟨second, after, hlow, hhigh, rfl, hsecond⟩ := exists_more_of_piecesFrom h
  obtain ⟨third, rest, hthird, hthird', rfl, hc, hmore⟩ := exists_last_of_piecesFrom hsecond
  simp only [apply_ite UInt8.toNat, UInt8.reduceToNat] at hlow hhigh hthird hthird'
  have hbounds : (0x80 ≤ second ∧ second ≤ 0xBF) ∧ (first = 0xE0 → 0xA0 ≤ second) ∧
      (first = 0xED → second ≤ 0x9F) := by
    split at hlow <;> split at hhigh <;> omega
  refine ⟨rest, ?_, hmore⟩
  rw [hc, encodeChar_three hfirst hbounds.1 hbounds.2.1 hbounds.2.2 ⟨hthird, hthird'⟩]
  rfl

/-- A character that begins with a byte for four has their bytes. -/
theorem exists_of_piecesFrom_four (hfirst : 0xF0 ≤ first ∧ first < 0xF5)
    (h : piecesFrom none (UInt8.ofNat first :: bytes) = .char c :: more) :
    ∃ rest, UInt8.ofNat first :: bytes = String.utf8EncodeChar c ++ rest ∧
      piecesFrom none rest = more := by
  rw [piecesFrom, start_ofNat (by omega), if_neg (by omega), if_neg (by omega),
    if_neg (by omega), if_neg (by omega), if_pos hfirst.2] at h
  dsimp only at h
  obtain ⟨second, after, hlow, hhigh, rfl, hsecond⟩ := exists_more_of_piecesFrom h
  obtain ⟨third, after, hthird, hthird', rfl, hlater⟩ := exists_more_of_piecesFrom hsecond
  obtain ⟨fourth, rest, hfourth, hfourth', rfl, hc, hmore⟩ := exists_last_of_piecesFrom hlater
  simp only [apply_ite UInt8.toNat, UInt8.reduceToNat] at hlow hhigh hthird hthird' hfourth hfourth'
  have hbounds : (0x80 ≤ second ∧ second ≤ 0xBF) ∧ (first = 0xF0 → 0x90 ≤ second) ∧
      (first = 0xF4 → second ≤ 0x8F) := by
    split at hlow <;> split at hhigh <;> omega
  refine ⟨rest, ?_, hmore⟩
  rw [hc, encodeChar_four hfirst hbounds.1 hbounds.2.1 hbounds.2.2 ⟨hthird, hthird'⟩
    ⟨hfourth, hfourth'⟩]
  rfl

end Spelled

/-- A first piece that is a character is spelled by the bytes of that character. -/
theorem exists_of_piecesFrom_char {bytes : List UInt8} {c : Char} {more : List Piece}
    (h : piecesFrom none bytes = .char c :: more) :
    ∃ rest, bytes = String.utf8EncodeChar c ++ rest ∧ piecesFrom none rest = more := by
  cases bytes with
  | nil => cases h
  | cons b bytes =>
    obtain ⟨first, hfirst, rfl⟩ : ∃ n, n < 256 ∧ b = UInt8.ofNat n := ⟨b.toNat, b.toNat_lt, by simp⟩
    -- Which piece the first byte begins is decided by its number.
    by_cases hone : first < 0x80
    · rw [piecesFrom_one hone] at h
      obtain ⟨hc, hmore⟩ := List.cons.inj h
      exact ⟨bytes, by rw [← Piece.char.inj hc, encodeChar_one hone]; rfl, hmore⟩
    by_cases htwo : 0xC2 ≤ first ∧ first < 0xE0
    · exact exists_of_piecesFrom_two htwo h
    by_cases hthree : 0xE0 ≤ first ∧ first < 0xF0
    · exact exists_of_piecesFrom_three hthree h
    by_cases hfour : 0xF0 ≤ first ∧ first < 0xF5
    · exact exists_of_piecesFrom_four hfour h
    · have hstart : start (UInt8.ofNat first) = .inl (.malformed 1) := by
        rw [start_ofNat hfirst]
        split_ifs <;> first | rfl | omega
      rw [piecesFrom, hstart] at h
      cases h

/-- A character that is begun is a piece at least. -/
theorem piecesFrom_some_ne_nil (p : Pending) (bytes : List UInt8) :
    piecesFrom (some p) bytes ≠ [] := by
  induction bytes generalizing p with
  | nil => exact List.cons_ne_nil _ _
  | cons b bytes ih =>
    rw [piecesFrom]
    split
    · split
      · exact List.cons_ne_nil _ _
      · exact ih _
    · exact List.cons_ne_nil _ _

/-- Bytes without pieces are none. -/
theorem eq_nil_of_piecesFrom {bytes : List UInt8} (h : piecesFrom none bytes = []) : bytes = [] := by
  cases bytes with
  | nil => rfl
  | cons b bytes =>
    rw [piecesFrom] at h
    split at h
    · cases h
    · exact absurd h (piecesFrom_some_ne_nil _ _)

/-- Bytes whose pieces are all characters are the bytes of these. -/
theorem eq_encodeChars_of_pieces {bytes : List UInt8} {cs : List Char}
    (h : pieces bytes = cs.map .char) : bytes = encodeChars cs := by
  induction cs generalizing bytes with
  | nil => exact eq_nil_of_piecesFrom h
  | cons c cs ih =>
    obtain ⟨rest, rfl, hrest⟩ := exists_of_piecesFrom_char h
    rw [ih hrest, encodeChars, encodeChars, List.flatMap_cons]

/-- Bytes are decoded when they are those of a text, and to that text. -/
theorem decode_eq_ok_iff {bytes : List UInt8} {s : String} :
    decode bytes = .ok s ↔ bytes = encode s := by
  constructor
  · intro h
    obtain ⟨cs, hcs, rfl⟩ := map_eq_ok_iff.mp h
    rw [encode, String.toList_ofList]
    exact eq_encodeChars_of_pieces (characters_eq_ok_iff.mp hcs)
  · rintro rfl
    have hdecode := decode_encodeChars s.toList
    rwa [String.ofList_toList] at hdecode

/-- Decoding the bytes of characters leniently gives the characters back. -/
theorem decodeLenient_encodeChars (cs : List Char) :
    decodeLenient (encodeChars cs) = String.ofList cs := by
  have hdecode := decodeLenient_encode (String.ofList cs)
  rwa [encode, String.toList_ofList] at hdecode

/-- The pieces after the first one are those of the end of the bytes. -/
theorem exists_suffix_of_piecesFrom {pending : Option Pending} {bytes : List UInt8} {piece : Piece}
    {more : List Piece} (h : piecesFrom pending bytes = piece :: more) :
    ∃ rest, rest <:+ bytes ∧ piecesFrom none rest = more ∧
      (pending = none → rest.length < bytes.length) := by
  induction bytes generalizing pending with
  | nil =>
    cases pending with
    | none => cases h
    | some p => exact ⟨[], List.suffix_refl _, (List.cons.inj h).2, nofun⟩
  | cons b bytes ih =>
    have hlater {p : Pending} (h : piecesFrom (some p) bytes = piece :: more) :
        ∃ rest, rest <:+ b :: bytes ∧ piecesFrom none rest = more ∧
          (pending = none → rest.length < (b :: bytes).length) := by
      obtain ⟨rest, hrest, hmore, -⟩ := ih h
      exact ⟨rest, hrest.trans (List.suffix_cons b bytes), hmore,
        fun _ => Nat.lt_succ_of_le hrest.length_le⟩
    rw [piecesFrom.eq_def] at h
    cases pending with
    | none =>
      dsimp only at h
      split at h
      next =>
        exact ⟨bytes, List.suffix_cons b bytes, (List.cons.inj h).2, fun _ => Nat.lt_succ_self _⟩
      next p hp => exact hlater h
    | some p =>
      dsimp only at h
      split at h
      next =>
        split at h
        next => exact ⟨bytes, List.suffix_cons b bytes, (List.cons.inj h).2, nofun⟩
        next p hp => exact hlater h
      next =>
        -- A byte that does not go on with a character is looked at again.
        refine ⟨b :: bytes, List.suffix_refl _, ?_, nofun⟩
        rw [← (List.cons.inj h).2, piecesFrom]

/-- A piece that is a character is spelled by bytes of that character. -/
theorem infix_of_mem_pieces {bytes : List UInt8} {c : Char} (h : .char c ∈ pieces bytes) :
    String.utf8EncodeChar c <:+: bytes := by
  rw [pieces] at h
  induction hn : bytes.length using Nat.strongRecOn generalizing bytes with
  | ind n ih =>
    cases hpieces : piecesFrom none bytes with
    | nil => rw [hpieces] at h; cases h
    | cons piece more =>
      rw [hpieces] at h
      rcases List.mem_cons.mp h with rfl | h
      · obtain ⟨rest, rfl, -⟩ := exists_of_piecesFrom_char hpieces
        exact ⟨[], rest, rfl⟩
      · obtain ⟨rest, hrest, rfl, hlength⟩ := exists_suffix_of_piecesFrom hpieces
        exact (ih rest.length (hn ▸ hlength rfl) h rfl).trans hrest.isInfix

/-- Decoding leniently makes up no character of ASCII. -/
theorem mem_of_mem_decodeLenient {bytes : List UInt8} {c : Char}
    (h : c ∈ (decodeLenient bytes).toList) (hascii : c.toNat < 0x80) :
    UInt8.ofNat c.toNat ∈ bytes := by
  rw [decodeLenient, String.toList_ofList] at h
  obtain ⟨piece, hpiece, rfl⟩ := List.mem_map.mp h
  have hreplacement : ¬ (Char.ofNat 0xFFFD).toNat < 0x80 := by decide
  cases piece with
  | char c =>
    refine (infix_of_mem_pieces hpiece).subset ?_
    rw [Piece.shown, encodeChar_eq, if_pos (by exact Nat.le_of_lt_succ hascii)]
    exact List.mem_singleton_self _
  | malformed => exact absurd hascii hreplacement
  | cut => exact absurd hascii hreplacement

end Carta.Text.Utf8
