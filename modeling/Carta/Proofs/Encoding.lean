import Carta.Text.Utf8

/-!
# Texts and their bytes

Decoding the bytes of a text gives the text back, strictly as well as leniently: each character is
one piece, and its bytes stand between the bounds that its first byte sets. A byte of ASCII is found
only where its character stands.
-/

namespace Carta.Text.Utf8

/-- What a byte with a given number starts. -/
theorem start_ofNat {n : Nat} (h : n < 256) : start (UInt8.ofNat n) =
    if n < 0x80 then .inl (.char (Char.ofNat n))
    else if n < 0xC2 then .inl (.malformed 1)
    else if n < 0xE0 then .inr ⟨1, 0x80, 0xBF, n - 0xC0, 1⟩
    else if n < 0xF0 then
      .inr ⟨2, if n = 0xE0 then 0xA0 else 0x80, if n = 0xED then 0x9F else 0xBF, n - 0xE0, 1⟩
    else if n < 0xF5 then
      .inr ⟨3, if n = 0xF0 then 0x90 else 0x80, if n = 0xF4 then 0x8F else 0xBF, n - 0xF0, 1⟩
    else .inl (.malformed 1) := by
  have htoNat : (UInt8.ofNat n).toNat = n := UInt8.toNat_ofNat_of_lt' h
  simp [start, UInt8.lt_iff_toNat_lt, ← UInt8.toNat_inj, htoNat]

section Pending

variable {low high : UInt8} {n : Nat}

/-- The last byte of a character within its bounds completes it. -/
theorem piecesFrom_last (hlow : low.toNat ≤ n) (hhigh : n ≤ high.toNat) (value seen : Nat)
    (bytes : List UInt8) :
    piecesFrom (some ⟨1, low, high, value, seen⟩) (UInt8.ofNat n :: bytes) =
      .char (Char.ofNat (value * 64 + (n - 0x80))) :: piecesFrom none bytes := by
  have htoNat : (UInt8.ofNat n).toNat = n :=
    UInt8.toNat_ofNat_of_lt' (Nat.lt_of_le_of_lt hhigh high.toNat_lt)
  have hbounds : (low ≤ UInt8.ofNat n && UInt8.ofNat n ≤ high) = true := by
    simp [UInt8.le_iff_toNat_le, htoNat, hlow, hhigh]
  rw [piecesFrom, if_pos hbounds, Pending.push, htoNat]
  rfl

/-- Another byte of a character within its bounds goes on with it. -/
theorem piecesFrom_more (hlow : low.toNat ≤ n) (hhigh : n ≤ high.toNat) (owed value seen : Nat)
    (bytes : List UInt8) :
    piecesFrom (some ⟨owed + 2, low, high, value, seen⟩) (UInt8.ofNat n :: bytes) =
      piecesFrom (some ⟨owed + 1, 0x80, 0xBF, value * 64 + (n - 0x80), seen + 1⟩) bytes := by
  have htoNat : (UInt8.ofNat n).toNat = n :=
    UInt8.toNat_ofNat_of_lt' (Nat.lt_of_le_of_lt hhigh high.toNat_lt)
  have hbounds : (low ≤ UInt8.ofNat n && UInt8.ofNat n ≤ high) = true := by
    simp [UInt8.le_iff_toNat_le, htoNat, hlow, hhigh]
  have howed : ¬ owed + 2 ≤ 1 := by omega
  rw [piecesFrom, if_pos hbounds, Pending.push, htoNat, if_neg howed]
  rfl

end Pending

/-- A byte after the second one is within its bounds. -/
theorem laterBounds (n : Nat) :
    (0x80 : UInt8).toNat ≤ n % 64 + 128 ∧ n % 64 + 128 ≤ (0xBF : UInt8).toNat := by
  change 0x80 ≤ _ ∧ _ ≤ 0xBF
  omega

/-- A character with one byte is one piece. -/
theorem piecesFrom_one {n : Nat} (h : n < 0x80) (bytes : List UInt8) :
    piecesFrom none (UInt8.ofNat n :: bytes) = .char (Char.ofNat n) :: piecesFrom none bytes := by
  rw [piecesFrom, start_ofNat (by omega), if_pos h]

/-- A character with two bytes is one piece. -/
theorem piecesFrom_two {n : Nat} (hlow : 0x80 ≤ n) (hhigh : n < 0x800) (bytes : List UInt8) :
    piecesFrom none (UInt8.ofNat (n / 64 % 32 + 192) :: UInt8.ofNat (n % 64 + 128) :: bytes) =
      .char (Char.ofNat n) :: piecesFrom none bytes := by
  obtain ⟨hlastLow, hlastHigh⟩ := laterBounds n
  have hvalue : (n / 64 % 32 + 192 - 0xC0) * 64 + (n % 64 + 128 - 0x80) = n := by omega
  rw [piecesFrom, start_ofNat (by omega), if_neg (by omega), if_neg (by omega), if_pos (by omega)]
  dsimp only
  rw [piecesFrom_last hlastLow hlastHigh, hvalue]

/-- A character with three bytes is one piece, for its second byte avoids the numbers that two bytes
suffice for and those of the surrogates. -/
theorem piecesFrom_three {n : Nat} (hlow : 0x800 ≤ n) (hhigh : n < 0x10000)
    (hvalid : n < 0xD800 ∨ 0xDFFF < n) (bytes : List UInt8) :
    piecesFrom none (UInt8.ofNat (n / 4096 % 16 + 224) :: UInt8.ofNat (n / 64 % 64 + 128) ::
      UInt8.ofNat (n % 64 + 128) :: bytes) = .char (Char.ofNat n) :: piecesFrom none bytes := by
  have hsecondLow : (if n / 4096 % 16 + 224 = 0xE0 then (0xA0 : UInt8) else 0x80).toNat ≤
      n / 64 % 64 + 128 := by
    split
    · change 0xA0 ≤ _
      omega
    · exact Nat.le_add_left _ _
  have hsecondHigh : n / 64 % 64 + 128 ≤
      (if n / 4096 % 16 + 224 = 0xED then (0x9F : UInt8) else 0xBF).toNat := by
    split
    · change _ ≤ 0x9F
      omega
    · change _ ≤ 0xBF
      omega
  obtain ⟨hlastLow, hlastHigh⟩ := laterBounds n
  have hvalue : ((n / 4096 % 16 + 224 - 0xE0) * 64 + (n / 64 % 64 + 128 - 0x80)) * 64 +
      (n % 64 + 128 - 0x80) = n := by omega
  rw [piecesFrom, start_ofNat (by omega), if_neg (by omega), if_neg (by omega), if_neg (by omega),
    if_pos (by omega)]
  dsimp only
  rw [piecesFrom_more hsecondLow hsecondHigh, piecesFrom_last hlastLow hlastHigh, hvalue]

/-- A character with four bytes is one piece, for its second byte avoids the numbers that three
bytes suffice for and those beyond the last. -/
theorem piecesFrom_four {n : Nat} (hlow : 0x10000 ≤ n) (hhigh : n < 0x110000)
    (bytes : List UInt8) :
    piecesFrom none (UInt8.ofNat (n / 262144 % 8 + 240) :: UInt8.ofNat (n / 4096 % 64 + 128) ::
      UInt8.ofNat (n / 64 % 64 + 128) :: UInt8.ofNat (n % 64 + 128) :: bytes) =
      .char (Char.ofNat n) :: piecesFrom none bytes := by
  have hsecondLow : (if n / 262144 % 8 + 240 = 0xF0 then (0x90 : UInt8) else 0x80).toNat ≤
      n / 4096 % 64 + 128 := by
    split
    · change 0x90 ≤ _
      omega
    · exact Nat.le_add_left _ _
  have hsecondHigh : n / 4096 % 64 + 128 ≤
      (if n / 262144 % 8 + 240 = 0xF4 then (0x8F : UInt8) else 0xBF).toNat := by
    split
    · change _ ≤ 0x8F
      omega
    · change _ ≤ 0xBF
      omega
  obtain ⟨hthirdLow, hthirdHigh⟩ := laterBounds (n / 64)
  obtain ⟨hlastLow, hlastHigh⟩ := laterBounds n
  have hvalue : (((n / 262144 % 8 + 240 - 0xF0) * 64 + (n / 4096 % 64 + 128 - 0x80)) * 64 +
      (n / 64 % 64 + 128 - 0x80)) * 64 + (n % 64 + 128 - 0x80) = n := by omega
  rw [piecesFrom, start_ofNat (by omega), if_neg (by omega), if_neg (by omega), if_neg (by omega),
    if_neg (by omega), if_pos (by omega)]
  dsimp only
  rw [piecesFrom_more hsecondLow hsecondHigh, piecesFrom_more hthirdLow hthirdHigh,
    piecesFrom_last hlastLow hlastHigh, hvalue]

/-- The bytes of a character by its number. -/
theorem encodeChar_eq (c : Char) : String.utf8EncodeChar c =
    if c.toNat ≤ 127 then [UInt8.ofNat c.toNat]
    else if c.toNat ≤ 2047 then [UInt8.ofNat (c.toNat / 64 % 32 + 192), UInt8.ofNat (c.toNat % 64 + 128)]
    else if c.toNat ≤ 65535 then
      [UInt8.ofNat (c.toNat / 4096 % 16 + 224), UInt8.ofNat (c.toNat / 64 % 64 + 128),
        UInt8.ofNat (c.toNat % 64 + 128)]
    else
      [UInt8.ofNat (c.toNat / 262144 % 8 + 240), UInt8.ofNat (c.toNat / 4096 % 64 + 128),
        UInt8.ofNat (c.toNat / 64 % 64 + 128), UInt8.ofNat (c.toNat % 64 + 128)] :=
  rfl

/-- The number of a character is none of a surrogate and not beyond the last. -/
theorem toNat_valid (c : Char) :
    c.toNat < 0xD800 ∨ 0xDFFF < c.toNat ∧ c.toNat < 0x110000 :=
  c.valid

/-- A character is one piece, whatever follows its bytes. -/
theorem piecesFrom_encodeChar (c : Char) (bytes : List UInt8) :
    piecesFrom none (String.utf8EncodeChar c ++ bytes) = .char c :: piecesFrom none bytes := by
  have hvalid := toNat_valid c
  have hchar : Char.ofNat c.toNat = c := Char.ofNat_toNat c
  rw [encodeChar_eq]
  split
  next h => exact (piecesFrom_one (by omega) bytes).trans (by rw [hchar])
  next h =>
    split
    next h' => exact (piecesFrom_two (by omega) (by omega) bytes).trans (by rw [hchar])
    next h' =>
      split
      next h'' => exact (piecesFrom_three (by omega) (by omega) (by omega) bytes).trans (by rw [hchar])
      next h'' => exact (piecesFrom_four (by omega) (by omega) bytes).trans (by rw [hchar])

/-- The bytes of characters. -/
def encodeChars (cs : List Char) : List UInt8 :=
  cs.flatMap String.utf8EncodeChar

/-- The pieces of the bytes of a text are its characters. -/
theorem pieces_encodeChars (cs : List Char) : pieces (encodeChars cs) = cs.map .char := by
  induction cs with
  | nil => rfl
  | cons c cs ih =>
    rw [pieces, encodeChars, List.flatMap_cons, piecesFrom_encodeChar, List.map_cons]
    exact congrArg _ ih

/-- The characters of pieces that are all characters. -/
theorem characters_map_char (offset : Nat) (cs : List Char) :
    characters offset (cs.map .char) = .ok cs := by
  induction cs generalizing offset with
  | nil => rfl
  | cons c cs ih => rw [List.map_cons, characters, ih]; rfl

/-- Decoding the bytes of characters gives the characters back. -/
theorem decode_encodeChars (cs : List Char) : decode (encodeChars cs) = .ok (String.ofList cs) := by
  rw [decode, pieces_encodeChars, characters_map_char]
  rfl

/-- Decoding the bytes of a text leniently gives the text back. -/
theorem decodeLenient_encode (s : String) : decodeLenient (encode s) = s := by
  have hpieces : pieces (encode s) = s.toList.map .char := pieces_encodeChars s.toList
  rw [decodeLenient, hpieces, List.map_map]
  simp [Function.comp_def, Piece.shown]

/-- Texts with the same bytes are the same. -/
theorem encode_injective {s t : String} (h : encode s = encode t) : s = t := by
  rw [← decodeLenient_encode s, h, decodeLenient_encode]

/-- A byte of ASCII is a character by itself. -/
theorem eq_of_mem_encodeChar {c : Char} {b : UInt8} (h : b ∈ String.utf8EncodeChar c)
    (hb : b.toNat < 0x80) : c.toNat = b.toNat := by
  have hvalid := toNat_valid c
  rw [encodeChar_eq] at h
  have hlarge {n : Nat} (hn : n < 256) (hlow : 128 ≤ n) : b ≠ UInt8.ofNat n := by
    rintro rfl
    rw [UInt8.toNat_ofNat_of_lt' hn] at hb
    omega
  split at h
  next hsmall =>
    obtain rfl := List.mem_singleton.mp h
    exact (UInt8.toNat_ofNat_of_lt' (Nat.lt_of_le_of_lt hsmall (by decide))).symm
  next =>
    exfalso
    split at h
    next =>
      simp only [List.mem_cons, List.not_mem_nil, or_false] at h
      rcases h with h | h <;> exact hlarge (by omega) (by omega) h
    next =>
      split at h
      next =>
        simp only [List.mem_cons, List.not_mem_nil, or_false] at h
        rcases h with h | h | h <;> exact hlarge (by omega) (by omega) h
      next =>
        simp only [List.mem_cons, List.not_mem_nil, or_false] at h
        rcases h with h | h | h | h <;> exact hlarge (by omega) (by omega) h

/-- A byte of ASCII is among the bytes of characters only where its character is among them. -/
theorem exists_of_mem_encodeChars {cs : List Char} {b : UInt8} (h : b ∈ encodeChars cs)
    (hb : b.toNat < 0x80) : ∃ c ∈ cs, c.toNat = b.toNat := by
  obtain ⟨c, hc, hbc⟩ := List.mem_flatMap.mp h
  exact ⟨c, hc, eq_of_mem_encodeChar hbc hb⟩

end Carta.Text.Utf8
