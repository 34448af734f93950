import Carta.Proofs.Requirements

/-!
# Which texts are bytes

The channels of a colour and the transparency of a layer are numbers from 0 to 255. A text is such a
number when it is a decimal numeral, maybe behind a plus sign, whose value is no more than that. The
value is compared with the limit at every digit, so it never grows beyond ten times the limit, however
long the numeral is; zeros before it do not count. A colour is read of the attributes for its
channels, and the first one that is no byte is reported.
-/

namespace Carta.Text

/-- Characters write a number: one decimal digit or more, maybe behind a plus sign. -/
def IsNumeral (cs : List Char) (n : Nat) : Prop :=
  ∃ digits, (cs = digits ∨ cs = '+' :: digits) ∧ digits ≠ [] ∧ (∀ c ∈ digits, c.isDigit = true) ∧
    n = Nat.ofDigitChars 10 digits 0

/-- The decimal digits are those of ASCII, and their values are counted from that of zero. -/
theorem digit?_ten (c : Char) :
    digit? 10 c = if c.isDigit then some (c.toNat - '0'.toNat) else none := by
  have hdigit : c.isDigit = true ↔ '0' ≤ c ∧ c ≤ '9' := by
    simp [Char.isDigit, Char.le_def]
  have hletter (base : Nat) : (some (c.toNat - base + 10)).filter (· < 10) = none := by
    simp
  have hten : c ≤ '9' → c.toNat - '0'.toNat < 10 := by
    intro h
    have hnine : c.toNat ≤ '9'.toNat := h
    have hvalue : '9'.toNat = 57 ∧ '0'.toNat = 48 := by decide
    omega
  rw [digit?, hexDigit?]
  split
  next h => rw [if_pos (hdigit.mpr h), Option.filter_some_pos (by simpa using hten h.2)]
  next h =>
    rw [if_neg (mt hdigit.mp h)]
    split
    next => exact hletter _
    next =>
      split
      next => exact hletter _
      next => rfl

/-- Digits never make a number smaller. -/
theorem le_ofDigitChars (value : Nat) (cs : List Char) : value ≤ Nat.ofDigitChars 10 cs value := by
  induction cs generalizing value with
  | nil => exact Nat.le_refl value
  | cons c cs ih =>
    rw [Nat.ofDigitChars_cons]
    exact Nat.le_trans (by omega) (ih _)

/-- Digits are read against a limit as the number they write, unless that is beyond the limit. -/
theorem digitsFrom_eq_ok_iff {limit value n : Nat} (h : value ≤ limit) {cs : List Char} :
    digitsFrom 10 limit value cs = .ok n ↔
      (∀ c ∈ cs, c.isDigit = true) ∧ n = Nat.ofDigitChars 10 cs value ∧ n ≤ limit := by
  induction cs generalizing value with
  | nil =>
    rw [digitsFrom, Nat.ofDigitChars_nil]
    constructor
    · intro hvalue
      obtain rfl := Except.ok.inj hvalue
      exact ⟨List.forall_mem_nil _, rfl, h⟩
    · rintro ⟨-, rfl, -⟩
      rfl
  | cons c cs ih =>
    rw [digitsFrom, digit?_ten, Nat.ofDigitChars_cons, List.forall_mem_cons]
    by_cases hc : c.isDigit = true
    · rw [if_pos hc, and_iff_right hc, Nat.mul_comm 10 value]
      dsimp only
      split
      next hlarge =>
        refine iff_of_false nofun fun ⟨_, hn, hlimit⟩ => ?_
        have hgrows := le_ofDigitChars (value * 10 + (c.toNat - '0'.toNat)) cs
        omega
      next hlarge => exact ih (Nat.not_lt.mp hlarge)
    · rw [if_neg hc]
      exact iff_of_false nofun fun hall => hc hall.1.1

/-- Characters are read as a number within a limit when they are decimal digits, at least one, of
such a number. -/
theorem digits_eq_ok_iff {limit n : Nat} {cs : List Char} : digits 10 limit cs = .ok n ↔
    cs ≠ [] ∧ (∀ c ∈ cs, c.isDigit = true) ∧ n = Nat.ofDigitChars 10 cs 0 ∧ n ≤ limit := by
  rw [digits]
  cases cs with
  | nil => simp
  | cons c cs => simp [digitsFrom_eq_ok_iff (Nat.zero_le limit)]

/-- A text is a decimal number up to a limit when it is a numeral for one. -/
theorem decimal?_eq_some_iff {limit n : Nat} {s : String} :
    decimal? limit s = some n ↔ IsNumeral s.toList n ∧ n ≤ limit := by
  have hplus : ('+').isDigit = false := by decide
  have hok {result : Except NumeralFault Nat} : result.toOption = some n ↔ result = .ok n := by
    cases result <;> simp [Except.toOption]
  rw [decimal?, hok, digits_eq_ok_iff, IsNumeral]
  generalize s.toList = cs
  split
  next cs =>
    constructor
    · rintro ⟨hne, hdigits, hn, hlimit⟩
      exact ⟨⟨cs, .inr rfl, hne, hdigits, hn⟩, hlimit⟩
    · rintro ⟨⟨digits, rfl | hcs, hne, hdigits, hn⟩, hlimit⟩
      · simp [hplus] at hdigits
      · obtain rfl := (List.cons.inj hcs).2
        exact ⟨hne, hdigits, hn, hlimit⟩
  next hsign =>
    constructor
    · rintro ⟨hne, hdigits, hn, hlimit⟩
      exact ⟨⟨cs, .inl rfl, hne, hdigits, hn⟩, hlimit⟩
    · rintro ⟨⟨digits, rfl | hcs, hne, hdigits, hn⟩, hlimit⟩
      · exact ⟨hne, hdigits, hn, hlimit⟩
      · exact absurd hcs (hsign digits)

/-- A text is a byte when it is a numeral for it. -/
theorem byte?_eq_some_iff {s : String} {byte : UInt8} :
    byte? s = some byte ↔ IsNumeral s.toList byte.toNat := by
  rw [byte?, Option.map_eq_some_iff]
  constructor
  · rintro ⟨n, hn, rfl⟩
    obtain ⟨hnumeral, hlimit⟩ := decimal?_eq_some_iff.mp hn
    rwa [UInt8.toNat_ofNat_of_lt' (by simp [UInt8.size]; omega)]
  · intro h
    have hlimit : byte.toNat ≤ 255 := Nat.le_of_lt_succ byte.toNat_lt
    exact ⟨byte.toNat, decimal?_eq_some_iff.mpr ⟨h, hlimit⟩, UInt8.ofNat_toNat⟩

/-- A text is no byte when it is a numeral for none. -/
theorem byte?_eq_none_iff {s : String} :
    byte? s = none ↔ ∀ n ≤ 255, ¬IsNumeral s.toList n := by
  rw [byte?, Option.map_eq_none_iff, Option.eq_none_iff_forall_ne_some]
  simp only [ne_eq, decimal?_eq_some_iff, not_and']

example : byte? "+00000000000000000000000000000255" = some 255 ∧ byte? "256" = none ∧
    byte? "+" = none ∧ byte? "-0" = none := by
  decide

/-- A number in decimal digits is a numeral for it. -/
theorem isNumeral_toString (n : Nat) : IsNumeral (toString n).toList n := by
  rw [Nat.toString_eq_ofList_toDigits, String.toList_ofList]
  exact ⟨_, .inl rfl, Nat.toDigits_ne_nil, fun c => Nat.isDigit_of_mem_toDigits (by decide) (by decide),
    Nat.ofDigitChars_ten_toDigits.symm⟩

end Carta.Text

namespace Carta.Project

open Carta.Text (IsNumeral)
open Carta.Xml (Element)

namespace Colour

/-- The channels of a colour, in the order in which they are read. -/
def channelNames : List String :=
  ["red", "green", "blue"]

/-- An element has a byte as a channel: the attribute is a numeral for it, with any blanks around. -/
def HasChannel (element : Element) (name : String) (n : Nat) : Prop :=
  ∃ value, element.attribute? name = some value ∧ IsNumeral (Text.trim value).toList n ∧ n ≤ 255

/-- Why an element has no byte as a channel. The value is reported as it is written. -/
inductive LacksChannel (element : Element) (name : String) : Error → Prop
  | absent (h : element.attribute? name = none) :
    LacksChannel element name (.missingField (element.name ++ "@" ++ name) none)
  | noByte {value : String} (hvalue : element.attribute? name = some value)
      (h : ∀ n ≤ 255, ¬IsNumeral (Text.trim value).toList n) :
    LacksChannel element name (.invalidValue (element.name ++ "@" ++ name) value none)

variable {element : Element} {name : String}

/-- A channel is read as a byte when the element has it. -/
theorem channel_eq_ok_iff {byte : UInt8} :
    channel element name = .ok byte ↔ HasChannel element name byte.toNat := by
  have hlimit : byte.toNat ≤ 255 := Nat.le_of_lt_succ byte.toNat_lt
  simp only [channel, HasChannel, bind_eq_ok_iff, require_eq_ok_iff, and_iff_left hlimit,
    ← Text.byte?_eq_some_iff]
  refine exists_congr fun value => and_congr_right fun _ => ?_
  cases Text.byte? (Text.trim value) <;> simp

/-- A channel can be read when the element has a byte as it. -/
theorem exists_channel_eq_ok_iff :
    (∃ byte, channel element name = .ok byte) ↔ ∃ n, HasChannel element name n := by
  simp only [channel_eq_ok_iff]
  constructor
  · rintro ⟨byte, hbyte⟩
    exact ⟨byte.toNat, hbyte⟩
  · rintro ⟨n, hn⟩
    obtain ⟨-, -, -, hlimit⟩ := id hn
    refine ⟨UInt8.ofNat n, ?_⟩
    rwa [UInt8.toNat_ofNat_of_lt' (by simp [UInt8.size]; omega)]

/-- A channel that cannot be read fails for the reason why the element has none. -/
theorem channel_eq_error_iff {e : Error} :
    channel element name = .error e ↔ LacksChannel element name e := by
  simp only [channel, bind_eq_error_iff, require_eq_error_iff, require_eq_ok_iff]
  constructor
  · rintro (⟨habsent, rfl⟩ | ⟨value, hvalue, h⟩)
    · exact .absent habsent
    · cases hbyte : Text.byte? (Text.trim value) with
      | none =>
        rw [hbyte] at h
        obtain rfl := Except.error.inj h
        exact .noByte hvalue (Text.byte?_eq_none_iff.mp hbyte)
      | some byte =>
        rw [hbyte] at h
        cases h
  · intro h
    cases h with
    | absent habsent => exact .inl ⟨habsent, rfl⟩
    | noByte hvalue hno =>
      refine .inr ⟨_, hvalue, ?_⟩
      rw [Text.byte?_eq_none_iff.mpr hno]
      rfl

/-- A colour is read channel by channel. -/
theorem map_ofElement_eq_mapM : (ofElement element).map (fun colour =>
    [colour.red, colour.green, colour.blue]) = channelNames.mapM (channel element) := by
  rw [channelNames, List.mapM_cons, List.mapM_cons, List.mapM_cons, List.mapM_nil, ofElement]
  cases channel element "red" <;> cases channel element "green" <;> cases channel element "blue" <;> rfl

/-- A colour is read of an element with three bytes as its channels, and has these. -/
theorem ofElement_eq_ok_iff {colour : Colour} : ofElement element = .ok colour ↔
    HasChannel element "red" colour.red.toNat ∧ HasChannel element "green" colour.green.toNat ∧
      HasChannel element "blue" colour.blue.toNat := by
  simp only [← channel_eq_ok_iff, ofElement, bind_eq_ok_iff]
  constructor
  · rintro ⟨red, hred, green, hgreen, blue, hblue, h⟩
    obtain rfl := Except.ok.inj h
    exact ⟨hred, hgreen, hblue⟩
  · rintro ⟨hred, hgreen, hblue⟩
    exact ⟨_, hred, _, hgreen, _, hblue, rfl⟩

/-- A colour can be read of an element when it has a byte as each channel. -/
theorem exists_ofElement_eq_ok_iff : (∃ colour, ofElement element = .ok colour) ↔
    ∀ name ∈ channelNames, ∃ n, HasChannel element name n := by
  simp only [← exists_channel_eq_ok_iff, ← exists_mapM_eq_ok_iff, ← map_ofElement_eq_mapM,
    map_eq_ok_iff]
  exact ⟨fun ⟨colour, h⟩ => ⟨_, colour, h, rfl⟩, fun ⟨_, colour, h, _⟩ => ⟨colour, h⟩⟩

/-- No colour is read by the first channel that is no byte. -/
theorem ofElement_eq_error_iff {e : Error} : ofElement element = .error e ↔
    ∃ before name after, channelNames = before ++ name :: after ∧
      (∀ earlier ∈ before, ∃ n, HasChannel element earlier n) ∧ LacksChannel element name e := by
  rw [← map_eq_error_iff, map_ofElement_eq_mapM, mapM_eq_error_iff]
  simp only [exists_channel_eq_ok_iff, channel_eq_error_iff]

/-- A colour is told by the numbers of its channels, divided at the spaces between them. -/
theorem map_splitWhere_text (colour : Colour) :
    (Text.splitWhere (· = ' ') colour.text.toList).map String.ofList =
      [toString colour.red.toNat, toString colour.green.toNat, toString colour.blue.toNat] := by
  have htext : colour.text = " ".intercalate
      [toString colour.red.toNat, toString colour.green.toNat, toString colour.blue.toNat] := by
    simp [text, String.intercalate_cons_cons, String.append_assoc]
  rw [htext]
  refine Text.map_splitWhere_intercalate (by simp) (List.cons_ne_nil _ _) ?_
  have hspace (n : Nat) : ' ' ∉ (toString n).toList := fun hmem =>
    absurd (Text.isBlank_of_mem_toString hmem) (by decide)
  simp only [List.forall_mem_cons]
  exact ⟨hspace _, hspace _, hspace _, List.forall_mem_nil _⟩

/-- An element with the number of a byte as an attribute has that byte as a channel. -/
theorem hasChannel_toString {byte : UInt8}
    (h : element.attribute? name = some (toString byte.toNat)) : HasChannel element name byte.toNat := by
  refine ⟨_, h, ?_, Nat.le_of_lt_succ byte.toNat_lt⟩
  rw [Text.trim_of_not_blank fun c => Text.isBlank_of_mem_toString]
  exact Text.isNumeral_toString _

/-- A colour is read of an element with the numbers of its channels. -/
theorem ofElement_of_text (colour : Colour) (name : String) :
    ofElement {
      name
      attributes := channelNames.zip
        ((Text.splitWhere (· = ' ') colour.text.toList).map String.ofList) } = .ok colour := by
  rw [map_splitWhere_text, ofElement_eq_ok_iff]
  exact ⟨hasChannel_toString rfl, hasChannel_toString rfl, hasChannel_toString rfl⟩

end Colour

/-- The transparency of a layer is the byte that the content of an element is a numeral for. -/
theorem Layer.transparencyOf_eq_ok_iff {layer : Element} {byte : UInt8} :
    transparencyOf layer = .ok byte ↔ ∃ found, layer.find? "transparencyLevelInt" = some found ∧
      IsNumeral (Text.trim found.text).toList byte.toNat := by
  simp only [transparencyOf, bind_eq_ok_iff, require_eq_ok_iff, Element.findContent?,
    Option.bind_eq_some_iff, Element.content?_eq_some_iff, ← Text.byte?_eq_some_iff]
  constructor
  · rintro ⟨text, ⟨found, hfound, rfl, -⟩, h⟩
    cases hbyte : Text.byte? (Text.trim found.text) with
    | none =>
      rw [hbyte] at h
      cases h
    | some other =>
      rw [hbyte] at h
      exact ⟨found, hfound, by rw [hbyte, Except.ok.inj h]⟩
  · rintro ⟨found, hfound, hbyte⟩
    refine ⟨_, ⟨found, hfound, rfl, ?_⟩, by rw [hbyte]⟩
    by_contra hblank
    have hempty : Text.trim found.text = "" := Text.trim_eq_empty_iff.mpr (by simpa using hblank)
    rw [hempty] at hbyte
    cases hbyte

/-- A colour is read of an element exactly when each of its channels is a byte, and then has these;
otherwise the error is that of the first channel that is none. The transparency of a layer is a byte
in the same way. What is written for a colour are the numbers that it is read of again. -/
theorem Colour.ofElement_reads_bytes (element : Element) :
    ((∃ colour, ofElement element = .ok colour) ↔
      ∀ name ∈ channelNames, ∃ n, HasChannel element name n) ∧
    (∀ colour, ofElement element = .ok colour ↔
      HasChannel element "red" colour.red.toNat ∧ HasChannel element "green" colour.green.toNat ∧
        HasChannel element "blue" colour.blue.toNat) ∧
    (∀ e, ofElement element = .error e ↔
      ∃ before name after, channelNames = before ++ name :: after ∧
        (∀ earlier ∈ before, ∃ n, HasChannel element earlier n) ∧ LacksChannel element name e) ∧
    (∀ byte, Layer.transparencyOf element = .ok byte ↔
      ∃ found, element.find? "transparencyLevelInt" = some found ∧
        IsNumeral (Text.trim found.text).toList byte.toNat) ∧
    ∀ colour : Colour,
      (Text.splitWhere (· = ' ') colour.text.toList).map (fun part => Text.byte? (String.ofList part)) =
        [some colour.red, some colour.green, some colour.blue] ∧
      ∀ name, ofElement {
        name
        attributes := channelNames.zip
          ((Text.splitWhere (· = ' ') colour.text.toList).map String.ofList) } = .ok colour := by
  refine ⟨exists_ofElement_eq_ok_iff, fun _ => ofElement_eq_ok_iff, fun _ => ofElement_eq_error_iff,
    fun _ => Layer.transparencyOf_eq_ok_iff, fun colour => ⟨?_, ofElement_of_text colour⟩⟩
  have hbyte (byte : UInt8) : Text.byte? (toString byte.toNat) = some byte :=
    Text.byte?_eq_some_iff.mpr (Text.isNumeral_toString _)
  rw [← Function.comp_def, ← List.map_map, map_splitWhere_text]
  simp only [List.map_cons, List.map_nil, hbyte]

end Carta.Project
