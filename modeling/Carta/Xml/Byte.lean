/-!
# Bytes with a meaning in markup

Markup is recognised on bytes, before any text is decoded, so each character that has a meaning in
it is named here once.
-/

namespace Carta.Xml.Byte

/-- `<`, which begins markup. -/
def less : UInt8 := 0x3C

/-- `>`, which ends markup. -/
def greater : UInt8 := 0x3E

/-- `/`, which begins a closing tag and ends an empty-element tag. -/
def slash : UInt8 := 0x2F

/-- `=`, between an attribute's key and its value. -/
def equals : UInt8 := 0x3D

/-- The double quote. -/
def quote : UInt8 := 0x22

/-- The single quote. -/
def apostrophe : UInt8 := 0x27

/-- `!`, which begins comments, character data sections and document type declarations. -/
def bang : UInt8 := 0x21

/-- `?`, which begins and ends processing instructions. -/
def question : UInt8 := 0x3F

/-- `-`, two of which begin and end a comment. -/
def dash : UInt8 := 0x2D

/-- `[`, in the beginning of a character data section. -/
def bracket : UInt8 := 0x5B

/-- `]`, two of which end a character data section. -/
def closingBracket : UInt8 := 0x5D

/-- Space, tab, line feed and carriage return separate the parts of a tag. -/
def isSpace (b : UInt8) : Bool :=
  b == 0x20 || b == 0x09 || b == 0x0A || b == 0x0D

/-- A byte that delimits an attribute value. -/
def isQuote (b : UInt8) : Bool :=
  b == quote || b == apostrophe

/-- The bytes without the spaces at their end. -/
def trimEnd (bytes : List UInt8) : List UInt8 :=
  (bytes.reverse.dropWhile isSpace).reverse

end Carta.Xml.Byte
