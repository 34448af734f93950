/-!
# Bounded numerals

Numbers are read digit by digit against a limit. The first fault from the left is the one
reported: a character that is no digit, or a digit at which the value passes the limit.
-/

namespace Carta.Text

/-- Why a text is no number within its limit. -/
inductive NumeralFault
  | empty
  | invalidDigit
  | tooLarge
  deriving Repr, DecidableEq

/-- The wording of a fault. -/
def NumeralFault.message : NumeralFault → String
  | .empty => "cannot parse integer from empty string"
  | .invalidDigit => "invalid digit found in string"
  | .tooLarge => "number too large to fit in target type"

/-- The value of an ASCII digit, letters of either case standing for ten to fifteen. -/
def hexDigit? (c : Char) : Option Nat :=
  if '0' ≤ c ∧ c ≤ '9' then some (c.toNat - '0'.toNat)
  else if 'a' ≤ c ∧ c ≤ 'f' then some (c.toNat - 'a'.toNat + 10)
  else if 'A' ≤ c ∧ c ≤ 'F' then some (c.toNat - 'A'.toNat + 10)
  else none

/-- The value of a digit of a base up to sixteen. -/
def digit? (base : Nat) (c : Char) : Option Nat :=
  (hexDigit? c).filter (· < base)

/-- The number that `value` becomes when the digits are written after it. -/
def digitsFrom (base limit value : Nat) : List Char → Except NumeralFault Nat
  | [] => .ok value
  | c :: cs =>
    match digit? base c with
    | none => .error .invalidDigit
    | some d =>
      if limit < value * base + d then .error .tooLarge
      else digitsFrom base limit (value * base + d) cs

/-- The number that one or more digits spell. -/
def digits (base limit : Nat) (cs : List Char) : Except NumeralFault Nat :=
  if cs.isEmpty then .error .empty else digitsFrom base limit 0 cs

/-- A decimal number up to a limit, written with any number of leading zeros and an optional `+`. -/
def decimal? (limit : Nat) (s : String) : Option Nat :=
  (digits 10 limit (match s.toList with
    | '+' :: cs => cs
    | cs => cs)).toOption

/-- A decimal number of one byte. -/
def byte? (s : String) : Option UInt8 :=
  (decimal? 255 s).map UInt8.ofNat

end Carta.Text
