import Carta.Text.Quoted

/-!
# Names of files

The names of files and directories, and the paths that are made of them, are bytes. Most of them spell
a text, but any bytes will do: a text is needed only where a name is made part of a mapfile, and where
a name is told it is shown with a sign in the place of what spells no text.
-/

namespace Carta

/-- The name of a file or of a directory: bytes, which may or may not spell a text. -/
abbrev Name := List UInt8

/-- A text stands for the name that it spells. -/
instance : Coe String Name where
  coe := Text.Utf8.encode

namespace Name

/-- The slash, which divides paths into names. -/
@[match_pattern] abbrev slash : UInt8 := 0x2F

/-- The dot, which divides names into stems and extensions. -/
@[match_pattern] abbrev dot : UInt8 := 0x2E

/-- The text that a name spells, if it spells one. -/
def text? (name : Name) : Option String :=
  (Text.Utf8.decode name).toOption

/-- Whether a name spells a text. -/
def isText (name : Name) : Bool :=
  (text? name).isSome

/-- The text that is shown for a name, with U+FFFD for what spells none. -/
def shown (name : Name) : String :=
  Text.Utf8.decodeLenient name

/-- Whether a byte is a letter or a digit of ASCII. -/
def isLetterOrDigit (b : UInt8) : Bool :=
  (0x30 ≤ b && b ≤ 0x39) || (0x41 ≤ b && b ≤ 0x5A) || (0x61 ≤ b && b ≤ 0x7A)

/-- A byte, or the small letter for a capital of ASCII. -/
def lowerByte (b : UInt8) : UInt8 :=
  if 0x41 ≤ b && b ≤ 0x5A then b + 0x20 else b

/-- The name with small letters for the capitals of ASCII, and all else as it is. -/
def lowerAscii (name : Name) : Name :=
  name.map lowerByte

end Name

end Carta
