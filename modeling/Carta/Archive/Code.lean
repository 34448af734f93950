import Carta.Archive.Bits

/-!
# Codes of symbols

A code gives each symbol in use a sequence of bits, none of which begins another one. It is told by
the lengths of these sequences alone: within a length, and from shorter to longer ones, the
sequences are consecutive numbers in the order of the symbols. Lengths that leave sequences over
make no complete code; such a code is of use only where it has no symbol, or one with a single bit.
-/

namespace Carta.Archive

/-- Why compressed data cannot be expanded. -/
inductive Damage
  /-- The bits end too early. -/
  | truncated
  /-- The bits make no sense; so many of them are left where that shows. -/
  | corrupt (left : Nat)
  deriving Repr, DecidableEq

/-- A code: for each length from one on, the symbols with a sequence of that length, in order. -/
structure Code where
  groups : List (List Nat)
  deriving Repr, DecidableEq

/-- The longest sequence of a code. -/
def Code.maxLength : Nat := 15

/-- The symbols whose sequences have a length. -/
def symbolsOfLength (lengths : List Nat) (length : Nat) : List Nat :=
  (lengths.zipIdx.filter (·.1 = length)).map (·.2)

/-- How much of the sequences of the maximal length is taken up. -/
def usedSpace : List Nat → Nat
  | [] => 0
  | length :: rest =>
    (if length = 0 then 0 else Nat.pow 2 (Code.maxLength - length)) + usedSpace rest

/-- The code with the given lengths of sequences, where zero is for symbols not in use. Its groups
go up to the longest sequence, and there is one at least. -/
def Code.ofLengths (lengths : List Nat) : Code :=
  ⟨(List.range (lengths.foldl max 1)).map fun length => symbolsOfLength lengths (length + 1)⟩

/-- The code with the given lengths, if it leaves no sequence over. -/
def Code.complete? (lengths : List Nat) : Option Code :=
  if usedSpace lengths = Nat.pow 2 Code.maxLength then some (Code.ofLengths lengths) else none

/-- The code with the given lengths, if it leaves no sequence over, or has no symbol or one with a
single bit. -/
def Code.ofLengths? (lengths : List Nat) : Option Code :=
  let used := lengths.filter (· ≠ 0)
  if used = [] ∨ used = [1] then some (Code.ofLengths lengths) else Code.complete? lengths

/-- The symbol whose sequence the bits begin with, and the bits after it. The bits read before have
the number `code`, and `first` is the first number of their length plus one. -/
def decodeFrom (code first : Nat) : List (List Nat) → List Bool → Except Damage (Nat × List Bool)
  | [], bits => .error (.corrupt bits.length)
  | _ :: _, [] => .error .truncated
  | symbols :: groups, b :: bits =>
    let code := 2 * code + b.toNat
    match symbols[code - first]? with
    | some symbol => .ok (symbol, bits)
    | none => decodeFrom code (2 * (first + symbols.length)) groups bits

/-- The symbol whose sequence the bits begin with, and the bits after it. -/
def Code.decode (code : Code) (bits : List Bool) : Except Damage (Nat × List Bool) :=
  decodeFrom 0 0 code.groups bits

/-- Decoding uses up bits. -/
theorem length_of_decodeFrom {code first symbol : Nat} {groups : List (List Nat)}
    {bits rest : List Bool} (h : decodeFrom code first groups bits = .ok (symbol, rest)) :
    rest.length < bits.length := by
  induction groups generalizing code first bits with
  | nil => simp [decodeFrom] at h
  | cons symbols groups ih =>
    cases bits with
    | nil => simp [decodeFrom] at h
    | cons b bits =>
      simp only [decodeFrom] at h
      simp only [List.length_cons]
      split at h
      next found hs =>
        obtain ⟨-, rfl⟩ : found = symbol ∧ bits = rest := by simpa using h
        omega
      next => exact Nat.lt_succ_of_lt (ih h)

end Carta.Archive
