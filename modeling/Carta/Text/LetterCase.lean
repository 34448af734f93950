import Carta.Text.CaseTable

/-!
# Changing the case of a text

A text is changed letter by letter. The one exception is the capital sigma: its small form at the
end of a word differs from that elsewhere. It ends a word when a letter with a case comes before it
and none comes after it, characters such as accents and apostrophes being passed over.
-/

namespace Carta.Text

/-- The characters with the given numbers. -/
def charactersOf (numbers : List Nat) : List Char :=
  numbers.map Char.ofNat

/-- The form of a character by tables of long and of single forms, itself where none is listed. -/
def formOf (long : List (Nat × List Nat)) (runs : List CaseRun) (c : Char) : List Char :=
  match long.find? (·.1 = c.toNat) with
  | some (_, form) => charactersOf form
  | none =>
    match runs.findSome? (·.other? c.toNat) with
    | some n => [Char.ofNat n]
    | none => [c]

/-- The capital form of a character. -/
def capitalForm (c : Char) : List Char :=
  formOf longCapitals capitalRuns c

/-- The small form of a character. -/
def smallForm (c : Char) : List Char :=
  formOf longSmalls smallRuns c

/-- Whether a character is in one of the ranges. -/
def inRanges (ranges : List (Nat × Nat)) (c : Char) : Bool :=
  ranges.any fun (first, last) => first ≤ c.toNat ∧ c.toNat ≤ last

/-- Whether the first character that is not passed over has a case. -/
def meetsCased (cs : List Char) : Bool :=
  match cs.dropWhile (inRanges caseIgnorableRanges) with
  | c :: _ => inRanges casedRanges c
  | [] => false

/-- The capital sigma, the small one, and the small one at the end of a word. -/
def capitalSigma : Char := Char.ofNat 0x3A3

@[inherit_doc capitalSigma] def smallSigma : Char := Char.ofNat 0x3C3

@[inherit_doc capitalSigma] def finalSigma : Char := Char.ofNat 0x3C2

/-- The small form of characters that follow the given ones, which are in reverse order. -/
def lowerAfter (before : List Char) : List Char → List Char
  | [] => []
  | c :: cs =>
    (if c = capitalSigma then
      [if meetsCased before && !meetsCased cs then finalSigma else smallSigma]
    else smallForm c) ++ lowerAfter (c :: before) cs

/-- The text in small letters. -/
def toLowercase (s : String) : String :=
  String.ofList (lowerAfter [] s.toList)

/-- The text in capital letters. -/
def toUppercase (s : String) : String :=
  String.ofList (s.toList.flatMap capitalForm)

end Carta.Text
