import Carta.Text.Numeral

/-!
# References to characters

In text and attribute values `&name;` stands for one of five characters and `&#n;` or `&#xh;` for
the character with that number. References are resolved from left to right; the first faulty one
is reported by its byte offsets in the undecoded text.
-/

namespace Carta.Xml

open Carta.Text (NumeralFault)

/-- Why a numeric reference names no character. -/
inductive NumberFault
  | sign
  | numeral (fault : NumeralFault)
  | noCharacter (number : Nat)
  | zero
  deriving Repr, DecidableEq

/-- The wording of a fault in a numeric reference. -/
def NumberFault.message : NumberFault → String
  | .sign => "unexpected number sign"
  | .numeral fault => fault.message
  | .noCharacter number => s!"`{number}` is not a valid codepoint"
  | .zero => "0x0 character is not permitted in XML"

/-- Why a reference cannot be resolved. Offsets count the bytes of the undecoded text. -/
inductive EntityFault
  | unterminated (start stop : Nat)
  | unknown (start stop : Nat) (name : String)
  | number (fault : NumberFault)
  deriving Repr, DecidableEq

/-- The wording of a fault in a reference. -/
def EntityFault.message : EntityFault → String
  | .unterminated start stop =>
    s!"Error while escaping character at range {start}..{stop}: Cannot find ';' after '&'"
  | .unknown start stop name => s!"at {start}..{stop}: unrecognized entity `{name}`"
  | .number fault => "invalid character reference: " ++ fault.message

/-- The characters with a name of their own. -/
def namedCharacter? (name : List Char) : Option Char :=
  if name = "lt".toList then some '<'
  else if name = "gt".toList then some '>'
  else if name = "amp".toList then some '&'
  else if name = "apos".toList then some (Char.ofNat 39)
  else if name = "quot".toList then some (Char.ofNat 34)
  else none

/-- The number of a reference, in a base. No sign may precede it. -/
def referenceNumber (base : Nat) (digits : List Char) : Except NumberFault Nat :=
  match digits with
  | '+' :: _ => .error .sign
  | '-' :: _ => .error .sign
  | _ => (Text.digits base 0xFFFFFFFF digits).mapError .numeral

/-- The character with a number; zero and the numbers outside Unicode have none. -/
def characterOfNumber (number : Nat) : Except NumberFault Char :=
  if number = 0 then .error .zero
  else if number.isValidChar then .ok (Char.ofNat number)
  else .error (.noCharacter number)

/-- The character of a numeric reference, written after the number sign. -/
def numberedCharacter (digits : List Char) : Except NumberFault Char := do
  let number ← match digits with
    | 'x' :: hex => referenceNumber 16 hex
    | _ => referenceNumber 10 digits
  characterOfNumber number

/-- The character that the reference with a name stands for. The name begins at an offset. -/
def referencedCharacter (start stop : Nat) (name : List Char) : Except EntityFault Char :=
  match name with
  | '#' :: digits => (numberedCharacter digits).mapError .number
  | _ =>
    match namedCharacter? name with
    | some c => .ok c
    | none => .error (.unknown start stop (String.ofList name))

/-- A reference whose `&` is at an offset, and as much of its name as is read. -/
structure OpenReference where
  start : Nat
  name : List Char

/-- Resolves the references in the characters from an offset on, in a text of `size` bytes. -/
def resolveFrom (size offset : Nat) : Option OpenReference → List Char →
    Except EntityFault (List Char)
  | none, [] => .ok []
  | some reference, [] => .error (.unterminated reference.start size)
  | none, c :: cs =>
    if c = '&' then resolveFrom size (offset + 1) (some ⟨offset, []⟩) cs
    else (resolveFrom size (offset + c.utf8Size) none cs).map (c :: ·)
  | some reference, c :: cs =>
    if c = '&' then .error (.unterminated reference.start size)
    else if c = ';' then do
      let resolved ← referencedCharacter (reference.start + 1) offset reference.name
      let rest ← resolveFrom size (offset + 1) none cs
      .ok (resolved :: rest)
    else
      resolveFrom size (offset + c.utf8Size) (some ⟨reference.start, reference.name ++ [c]⟩) cs

/-- The text with its references resolved. -/
def resolve (s : String) : Except EntityFault String :=
  (resolveFrom s.utf8ByteSize 0 none s.toList).map String.ofList

end Carta.Xml
