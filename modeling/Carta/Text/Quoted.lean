import Carta.Text.Hidden
import Carta.Text.Utf8

/-!
# Quoted text

Bytes are shown as a text between double quotes so that every one of them can be told: double quotes
and backslashes follow a backslash, line breaks and tabs have a letter of their own, and characters
that show nothing by themselves are given by number, as are the bytes that belong to no character.
-/

namespace Carta.Text

/-- The hexadecimal digits of a number. -/
def hexDigits (n : Nat) : List Char :=
  Nat.toDigits 16 n

/-- The characters that stand for one in a quoted text. -/
def quotedForm (c : Char) : List Char :=
  if c.toNat = 0 then ['\\', '0']
  else if c = '\t' then ['\\', 't']
  else if c = '\n' then ['\\', 'n']
  else if c = '\r' then ['\\', 'r']
  else if c = '\\' || c.toNat = 34 then ['\\', c]
  else if isHidden c then '\\' :: 'u' :: Char.ofNat 0x7B :: (hexDigits c.toNat ++ [Char.ofNat 0x7D])
  else [c]

/-- How a byte is shown that belongs to no character. -/
def quotedByte (b : UInt8) : List Char :=
  '\\' :: 'x' :: [b.toNat / 16, b.toNat % 16].map fun digit => (Nat.digitChar digit).toUpper

/-- How bytes that are divided into pieces are shown. -/
def quotedPieces : List Utf8.Piece → List UInt8 → List Char
  | [], _ => []
  | .char c :: rest, bytes => quotedForm c ++ quotedPieces rest (bytes.drop c.utf8Size)
  | .malformed size :: rest, bytes =>
    (bytes.take size).flatMap quotedByte ++ quotedPieces rest (bytes.drop size)
  | .cut size :: rest, bytes =>
    (bytes.take size).flatMap quotedByte ++ quotedPieces rest (bytes.drop size)

/-- The bytes between double quotes, every character and every byte in its quoted form. -/
def quoted (bytes : List UInt8) : String :=
  "\"" ++ String.ofList (quotedPieces (Utf8.pieces bytes) bytes) ++ "\""

end Carta.Text
