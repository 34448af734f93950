/-!
# UTF-8

Bytes are divided into pieces: characters, malformed sequences and a sequence that the end of the
input cuts off. A malformed sequence is the longest start of a character that the bytes still
spell, and one byte when they spell none. Strict decoding stops at the first piece that is no
character and says where it is; lenient decoding puts U+FFFD in its place.
-/

namespace Carta.Text.Utf8

/-- What a stretch of bytes is. -/
inductive Piece
  /-- A character. -/
  | char (c : Char)
  /-- Bytes that start no character, or only the beginning of one. -/
  | malformed (size : Nat)
  /-- The beginning of a character at the very end of the input. -/
  | cut (size : Nat)
  deriving Repr, DecidableEq

/-- A character whose first `seen` bytes are read. The next of the `owed` bytes is in `low`..`high`,
the later ones are in `80`..`BF`. -/
structure Pending where
  owed : Nat
  low : UInt8
  high : UInt8
  value : Nat
  seen : Nat

/-- The piece a byte is by itself, or the character it begins. -/
def start (b : UInt8) : Piece ⊕ Pending :=
  if b < 0x80 then .inl (.char (Char.ofNat b.toNat))
  else if b < 0xC2 then .inl (.malformed 1)
  else if b < 0xE0 then .inr ⟨1, 0x80, 0xBF, b.toNat - 0xC0, 1⟩
  else if b < 0xF0 then
    .inr ⟨2, if b = 0xE0 then 0xA0 else 0x80, if b = 0xED then 0x9F else 0xBF, b.toNat - 0xE0, 1⟩
  else if b < 0xF5 then
    .inr ⟨3, if b = 0xF0 then 0x90 else 0x80, if b = 0xF4 then 0x8F else 0xBF, b.toNat - 0xF0, 1⟩
  else .inl (.malformed 1)

/-- The character with one more of its bytes read. -/
def Pending.push (p : Pending) (b : UInt8) : Piece ⊕ Pending :=
  let value := p.value * 64 + (b.toNat - 0x80)
  if p.owed ≤ 1 then .inl (.char (Char.ofNat value))
  else .inr ⟨p.owed - 1, 0x80, 0xBF, value, p.seen + 1⟩

/-- The pieces of the bytes that follow the beginning of a character. -/
def piecesFrom : Option Pending → List UInt8 → List Piece
  | none, [] => []
  | some p, [] => [.cut p.seen]
  | none, b :: bytes =>
    match start b with
    | .inl piece => piece :: piecesFrom none bytes
    | .inr p => piecesFrom (some p) bytes
  | some p, b :: bytes =>
    if p.low ≤ b && b ≤ p.high then
      match p.push b with
      | .inl piece => piece :: piecesFrom none bytes
      | .inr p => piecesFrom (some p) bytes
    else
      .malformed p.seen ::
        match start b with
        | .inl piece => piece :: piecesFrom none bytes
        | .inr p => piecesFrom (some p) bytes

/-- The pieces of an input, in order. -/
def pieces (bytes : List UInt8) : List Piece :=
  piecesFrom none bytes

/-- Why bytes are no text: the first piece that is no character, and its byte offset. -/
inductive Fault
  | malformed (size offset : Nat)
  | cut (offset : Nat)
  deriving Repr, DecidableEq

/-- The wording of a fault. -/
def Fault.message : Fault → String
  | .malformed size offset => s!"invalid utf-8 sequence of {size} bytes from index {offset}"
  | .cut offset => s!"incomplete utf-8 byte sequence from index {offset}"

/-- The characters of the pieces that stand at an offset, unless one is none. -/
def characters (offset : Nat) : List Piece → Except Fault (List Char)
  | [] => .ok []
  | .char c :: rest => (characters (offset + c.utf8Size) rest).map (c :: ·)
  | .malformed size :: _ => .error (.malformed size offset)
  | .cut _ :: _ => .error (.cut offset)

/-- The text that the bytes spell. -/
def decode (bytes : List UInt8) : Except Fault String :=
  (characters 0 (pieces bytes)).map String.ofList

/-- The character shown for a piece. -/
def Piece.shown : Piece → Char
  | .char c => c
  | _ => Char.ofNat 0xFFFD

/-- The text that the bytes spell, with U+FFFD for every piece that is no character. -/
def decodeLenient (bytes : List UInt8) : String :=
  String.ofList ((pieces bytes).map Piece.shown)

/-- The text that the bytes spell, and no text when they spell none. -/
def decodeOrEmpty (bytes : List UInt8) : String :=
  match decode bytes with
  | .ok text => text
  | .error _ => ""

/-- The bytes of a text. -/
def encode (s : String) : List UInt8 :=
  s.toList.flatMap String.utf8EncodeChar

end Carta.Text.Utf8
