import Carta.Xml.Entity

/-!
# Ways to write a character

A character is written plainly or as a reference, by a name that it has or by its number, which may
be decimal or hexadecimal and have any number of zeros before it. The characters with a meaning in
markup are written as references only. However a text is written, resolving its references gives it
back, provided that no character of it has the number zero.
-/

namespace Carta.Xml

/-- The characters that have a name. -/
def characterNames : List (String × Char) :=
  [("lt", '<'), ("gt", '>'), ("amp", '&'), ("apos", Char.ofNat 39), ("quot", Char.ofNat 34)]

/-- Whether a character is written as a reference only. -/
def isReserved (c : Char) : Bool :=
  characterNames.any (·.2 = c)

/-- What stands between `&` and `;` for a character. -/
inductive Designates : Char → List Char → Prop
  | name {name : String} {c : Char} (h : (name, c) ∈ characterNames) : Designates c name.toList
  | decimal (c : Char) (zeros : Nat) :
      Designates c ('#' :: (List.replicate zeros '0' ++ Nat.toDigits 10 c.toNat))
  | hexadecimal {c : Char} {zeros : Nat} {digits : List Char}
      (h : digits.map Char.toLower = List.replicate zeros '0' ++ Nat.toDigits 16 c.toNat) :
      Designates c ('#' :: 'x' :: digits)

/-- How characters are written. -/
inductive Spells : List Char → List Char → Prop
  | nil : Spells [] []
  | plain {c : Char} {cs written : List Char} (hc : isReserved c = false)
      (hrest : Spells cs written) : Spells (c :: cs) (c :: written)
  | reference {c : Char} {cs designation written : List Char} (hc : Designates c designation)
      (hrest : Spells cs written) : Spells (c :: cs) ('&' :: designation ++ ';' :: written)

section Numbers

variable {base limit : Nat}

/-- Digits that stand together are read one after the other. -/
theorem digitsFrom_append (base limit value : Nat) (first second : List Char) :
    Text.digitsFrom base limit value (first ++ second) =
      (Text.digitsFrom base limit value first).bind (Text.digitsFrom base limit · second) := by
  induction first generalizing value with
  | nil => rfl
  | cons c cs ih =>
    rw [List.cons_append, Text.digitsFrom, Text.digitsFrom]
    cases Text.digit? base c with
    | none => rfl
    | some digit =>
      dsimp only
      split
      next => rfl
      next => exact ih _

/-- The digit that is written for a number is read as that number. -/
theorem hexDigit?_digitChar : ∀ digit < 16, Text.hexDigit? (Nat.digitChar digit) = some digit := by
  decide

/-- The character of a digit is read as the digit. -/
theorem digit?_digitChar (hbase : base ≤ 16) {digit : Nat} (h : digit < base) :
    Text.digit? base (Nat.digitChar digit) = some digit := by
  rw [Text.digit?, hexDigit?_digitChar digit (Nat.lt_of_lt_of_le h hbase)]
  simp [h]

/-- Reading one more digit of a number within the limit. -/
theorem digitsFrom_digitChar (hbase : base ≤ 16) {value digit : Nat} (h : digit < base)
    (hlimit : value * base + digit ≤ limit) :
    Text.digitsFrom base limit value [Nat.digitChar digit] = .ok (value * base + digit) := by
  rw [Text.digitsFrom, digit?_digitChar hbase h]
  dsimp only
  rw [if_neg (Nat.not_lt.mpr hlimit)]
  rfl

/-- The digits of a number within the limit are read as that number. -/
theorem digitsFrom_toDigits (htwo : 2 ≤ base) (hbase : base ≤ 16) {n : Nat} (h : n ≤ limit) :
    Text.digitsFrom base limit 0 (Nat.toDigits base n) = .ok n := by
  induction n using Nat.strongRecOn with
  | ind n ih =>
    by_cases hsmall : n < base
    · rw [Nat.toDigits_of_lt_base hsmall, digitsFrom_digitChar hbase hsmall (by omega)]
      simp
    · have hdiv : n / base < n := Nat.div_lt_self (by omega) (by omega)
      have hvalue : n / base * base + n % base = n := Nat.div_add_mod' n base
      rw [Nat.toDigits_of_base_le (by omega) (by omega), digitsFrom_append,
        ih (n / base) hdiv (by omega)]
      refine (digitsFrom_digitChar hbase (Nat.mod_lt n (by omega)) ?_).trans ?_
      · rw [hvalue]
        exact h
      · rw [hvalue]

/-- Zeros before a number say nothing. -/
theorem digitsFrom_zeros (htwo : 2 ≤ base) (hbase : base ≤ 16) (zeros : Nat) (digits : List Char) :
    Text.digitsFrom base limit 0 (List.replicate zeros '0' ++ digits) =
      Text.digitsFrom base limit 0 digits := by
  induction zeros with
  | zero => rfl
  | succ zeros ih =>
    have hzero : Text.digitsFrom base limit 0 [Nat.digitChar 0] = .ok (0 * base + 0) :=
      digitsFrom_digitChar hbase (by omega) (by omega)
    rw [Nat.zero_mul] at hzero
    rw [List.replicate_succ, List.cons_append, ← List.singleton_append, digitsFrom_append]
    exact (congrArg (Except.bind · _) hzero).trans ih

/-- A letter is a digit of the same value in either case. -/
theorem hexDigit?_toLower (c : Char) : Text.hexDigit? c.toLower = Text.hexDigit? c := by
  by_cases hupper : 'A' ≤ c ∧ c ≤ 'Z'
  · have hrange : c.toNat ∈ List.range' 65 26 := by
      have hlow : 65 ≤ c.toNat := hupper.1
      have hhigh : c.toNat ≤ 90 := hupper.2
      simp only [List.mem_range']
      exact ⟨c.toNat - 65, by omega, by omega⟩
    have hall : ∀ n ∈ List.range' 65 26,
        Text.hexDigit? (Char.ofNat n).toLower = Text.hexDigit? (Char.ofNat n) := by decide
    simpa using hall c.toNat hrange
  · have hsame : c.toLower = c := dif_neg hupper
    rw [hsame]

/-- Digits are read alike in either case. -/
theorem digitsFrom_map_toLower (value : Nat) (digits : List Char) :
    Text.digitsFrom base limit value (digits.map Char.toLower) =
      Text.digitsFrom base limit value digits := by
  induction digits generalizing value with
  | nil => rfl
  | cons c cs ih =>
    rw [List.map_cons, Text.digitsFrom, Text.digitsFrom, Text.digit?, hexDigit?_toLower, ← Text.digit?]
    cases Text.digit? base c with
    | none => rfl
    | some digit =>
      dsimp only
      split
      next => rfl
      next => exact ih _

/-- What is read as a number consists of digits. -/
theorem isSome_digit?_of_digitsFrom {value n : Nat} {digits : List Char}
    (h : Text.digitsFrom base limit value digits = .ok n) {c : Char} (hc : c ∈ digits) :
    (Text.hexDigit? c).isSome = true := by
  induction digits generalizing value with
  | nil => cases hc
  | cons first rest ih =>
    rw [Text.digitsFrom] at h
    cases hdigit : Text.digit? base first with
    | none => simp [hdigit] at h
    | some digit =>
      rw [hdigit] at h
      dsimp only at h
      split at h
      next => cases h
      next =>
        rcases List.mem_cons.mp hc with rfl | hc
        · obtain ⟨hhex, -⟩ := Option.filter_eq_some_iff.mp hdigit
          simp [hhex]
        · exact ih h hc

/-- A reference by a number of digits is one by their value: no digit is a sign. -/
theorem referenceNumber_of_digitsFrom {digits : List Char} (hne : digits ≠ []) {n : Nat}
    (h : Text.digitsFrom base 0xFFFFFFFF 0 digits = .ok n) : referenceNumber base digits = .ok n := by
  have hdigits : Text.digits base 0xFFFFFFFF digits = .ok n := by
    rw [Text.digits, if_neg (by simpa using hne), h]
  have hsign (sign : Char) (hnone : (Text.hexDigit? sign).isSome = false) (rest : List Char) :
      digits ≠ sign :: rest := by
    rintro rfl
    simp [isSome_digit?_of_digitsFrom h List.mem_cons_self] at hnone
  rw [referenceNumber, hdigits]
  · rfl
  · exact hsign '+' (by decide)
  · exact hsign '-' (by decide)

end Numbers

/-- Every character but the one with the number zero is the one with its number. -/
theorem characterOfNumber_toNat {c : Char} (h : c.toNat ≠ 0) : characterOfNumber c.toNat = .ok c := by
  have hvalid : c.toNat.isValidChar := c.valid
  rw [characterOfNumber, if_neg h, if_pos hvalid, Char.ofNat_toNat]

/-- The number of a character is within the limit for references. -/
theorem toNat_le_limit (c : Char) : c.toNat ≤ 0xFFFFFFFF := by
  have : c.toNat < UInt32.size := c.val.toNat_lt
  simp only [UInt32.size] at this
  omega

/-- The value of a decimal designation is the number of its character. -/
theorem digitsFrom_decimal (c : Char) (zeros : Nat) :
    Text.digitsFrom 10 0xFFFFFFFF 0 (List.replicate zeros '0' ++ Nat.toDigits 10 c.toNat) =
      .ok c.toNat := by
  rw [digitsFrom_zeros (by omega) (by omega), digitsFrom_toDigits (by omega) (by omega)
    (toNat_le_limit c)]

/-- The value of a hexadecimal designation is the number of its character. -/
theorem digitsFrom_hexadecimal {c : Char} {zeros : Nat} {digits : List Char}
    (h : digits.map Char.toLower = List.replicate zeros '0' ++ Nat.toDigits 16 c.toNat) :
    Text.digitsFrom 16 0xFFFFFFFF 0 digits = .ok c.toNat := by
  rw [← digitsFrom_map_toLower, h, digitsFrom_zeros (by omega) (by omega),
    digitsFrom_toDigits (by omega) (by omega) (toNat_le_limit c)]

/-- A character is found by each of its designations. -/
theorem referencedCharacter_of_designates {c : Char} {designation : List Char}
    (h : Designates c designation) (hc : c.toNat ≠ 0) (start stop : Nat) :
    referencedCharacter start stop designation = .ok c := by
  cases h with
  | name hname =>
    simp only [characterNames, List.mem_cons, List.not_mem_nil, or_false, Prod.mk.injEq] at hname
    rcases hname with ⟨rfl, rfl⟩ | ⟨rfl, rfl⟩ | ⟨rfl, rfl⟩ | ⟨rfl, rfl⟩ | ⟨rfl, rfl⟩ <;> rfl
  | decimal _ zeros =>
    have hvalue := digitsFrom_decimal c zeros
    have hne : List.replicate zeros '0' ++ Nat.toDigits 10 c.toNat ≠ [] := by simp
    generalize List.replicate zeros '0' ++ Nat.toDigits 10 c.toNat = digits at hvalue hne
    have hnumber : numberedCharacter digits = .ok c := by
      rw [numberedCharacter, referenceNumber_of_digitsFrom hne hvalue]
      · exact characterOfNumber_toNat hc
      · rintro rest rfl
        exact absurd (isSome_digit?_of_digitsFrom hvalue List.mem_cons_self) (by decide)
    rw [referencedCharacter, hnumber]
    rfl
  | @hexadecimal _ zeros digits hdigits =>
    have hne : digits ≠ [] := by
      rintro rfl
      simp at hdigits
    have hnumber : numberedCharacter ('x' :: digits) = .ok c := by
      rw [numberedCharacter]
      change (referenceNumber 16 digits >>= characterOfNumber) = _
      rw [referenceNumber_of_digitsFrom hne (digitsFrom_hexadecimal hdigits)]
      exact characterOfNumber_toNat hc
    rw [referencedCharacter, hnumber]
    rfl

/-- Whether a character may stand in a designation. -/
def isDesignating (c : Char) : Bool :=
  !isReserved c && c != ';'

/-- No digit is reserved. -/
theorem isDesignating_of_isSome_hexDigit? {c : Char} (h : (Text.hexDigit? c).isSome = true) :
    isDesignating c = true := by
  have hall : ['<', '>', '&', Char.ofNat 39, Char.ofNat 34, ';'].all
      (fun c => (Text.hexDigit? c).isNone) = true := by decide
  have hne {d : Char} (hd : d ∈ ['<', '>', '&', Char.ofNat 39, Char.ofNat 34, ';']) : d ≠ c := by
    rintro rfl
    have hnone := Option.isNone_iff_eq_none.mp (List.all_eq_true.mp hall d hd)
    simp [hnone] at h
  have hne' {d : Char} (hd : d ∈ ['<', '>', '&', Char.ofNat 39, Char.ofNat 34, ';']) : c ≠ d :=
    (hne hd).symm
  simp [isDesignating, isReserved, characterNames, hne, hne']

/-- No designation holds a reserved character or the one that ends it. -/
theorem isDesignating_of_designates {c : Char} {designation : List Char}
    (h : Designates c designation) : ∀ d ∈ designation, isDesignating d = true := by
  have hdigits {base n : Nat} {digits : List Char}
      (hvalue : Text.digitsFrom base 0xFFFFFFFF 0 digits = .ok n) :
      ∀ d ∈ digits, isDesignating d = true :=
    fun d hd => isDesignating_of_isSome_hexDigit? (isSome_digit?_of_digitsFrom hvalue hd)
  cases h with
  | name hname =>
    have hall : characterNames.all (·.1.toList.all isDesignating) = true := by decide
    exact List.all_eq_true.mp (List.all_eq_true.mp hall _ hname)
  | decimal _ zeros =>
    rw [List.forall_mem_cons]
    exact ⟨by decide, hdigits (digitsFrom_decimal c zeros)⟩
  | hexadecimal hvalue =>
    rw [List.forall_mem_cons, List.forall_mem_cons]
    exact ⟨by decide, by decide, hdigits (digitsFrom_hexadecimal hvalue)⟩

/-- No reserved character but the one that begins references is written plainly. -/
theorem eq_of_mem_spelling {cs written : List Char} (h : Spells cs written) :
    ∀ c ∈ written, isReserved c = false ∨ c = '&' := by
  induction h with
  | nil => simp
  | plain hc _ ih =>
    rw [List.forall_mem_cons]
    exact ⟨.inl hc, ih⟩
  | reference hc _ ih =>
    intro c hmem
    rcases List.mem_append.mp hmem with hmem | hmem
    · rcases List.mem_cons.mp hmem with rfl | hmem
      · exact .inr rfl
      · have := isDesignating_of_designates hc c hmem
        simp only [isDesignating, Bool.and_eq_true, Bool.not_eq_true'] at this
        exact .inl this.1
    · rcases List.mem_cons.mp hmem with rfl | hmem
      · exact .inl (by decide)
      · exact ih c hmem

/-- A reference is read up to its `;`. -/
theorem resolveFrom_reference (size offset start : Nat) (read : List Char)
    {designation : List Char} (h : ∀ d ∈ designation, d ≠ '&' ∧ d ≠ ';') (rest : List Char) :
    ∃ stop, resolveFrom size offset (some ⟨start, read⟩) (designation ++ ';' :: rest) =
      (do
        let resolved ← referencedCharacter (start + 1) stop (read ++ designation)
        let more ← resolveFrom size (stop + 1) none rest
        .ok (resolved :: more)) := by
  induction designation generalizing offset read with
  | nil => exact ⟨offset, by simp [resolveFrom]⟩
  | cons d designation ih =>
    rw [List.forall_mem_cons] at h
    obtain ⟨stop, hstop⟩ := ih (offset + d.utf8Size) (read ++ [d]) h.2
    refine ⟨stop, ?_⟩
    rw [List.cons_append, resolveFrom, if_neg h.1.1, if_neg h.1.2, hstop]
    simp

/-- No designation holds the character that begins a reference or the one that ends it. -/
theorem ne_of_mem_designation {c : Char} {designation : List Char} (h : Designates c designation) :
    ∀ d ∈ designation, d ≠ '&' ∧ d ≠ ';' := by
  intro d hd
  have hdesignating := isDesignating_of_designates h d hd
  constructor
  · rintro rfl
    exact absurd hdesignating (by decide)
  · rintro rfl
    exact absurd hdesignating (by decide)

/-- Characters are resolved from whatever spells them. -/
theorem resolveFrom_of_spells {cs written : List Char} (h : Spells cs written)
    (hcs : ∀ c ∈ cs, c.toNat ≠ 0) (size offset : Nat) :
    resolveFrom size offset none written = .ok cs := by
  induction h generalizing offset with
  | nil => rfl
  | @plain c cs written hc _ ih =>
    rw [List.forall_mem_cons] at hcs
    have hne : c ≠ '&' := by
      rintro rfl
      exact absurd hc (by decide)
    rw [resolveFrom, if_neg hne, ih hcs.2]
    rfl
  | @reference c cs designation written hc _ ih =>
    rw [List.forall_mem_cons] at hcs
    obtain ⟨stop, hstop⟩ := resolveFrom_reference size (offset + 1) offset []
      (ne_of_mem_designation hc) written
    rw [List.cons_append, resolveFrom, if_pos rfl, hstop, List.nil_append,
      referencedCharacter_of_designates hc hcs.1, ih hcs.2]
    rfl

/-- A text is what resolving the references in its spelling gives. -/
theorem resolve_of_spells {s : String} {written : List Char} (h : Spells s.toList written)
    (hs : ∀ c ∈ s.toList, c.toNat ≠ 0) : resolve (String.ofList written) = .ok s := by
  rw [resolve, String.toList_ofList, resolveFrom_of_spells h hs]
  simp [Except.map]

end Carta.Xml
