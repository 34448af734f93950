import Carta.Text.Split

/-!
# Blank characters

Values in a project are separated and surrounded by blanks. A blank is any character with the
Unicode property White_Space, so no-break and ideographic spaces count, and a zero width space does
not. Texts are trimmed at both ends and divided into the runs that hold no blank.
-/

namespace Carta.Text

/-- The twenty-five characters with the Unicode property White_Space. -/
def isBlank (c : Char) : Bool :=
  let n := c.toNat
  (9 ≤ n && n ≤ 13) || n == 0x20 || n == 0x85 || n == 0xA0 || n == 0x1680 ||
    (0x2000 ≤ n && n ≤ 0x200A) || n == 0x2028 || n == 0x2029 || n == 0x202F || n == 0x205F ||
    n == 0x3000

/-- The characters without the blanks at their end. -/
def trimEnd (cs : List Char) : List Char :=
  (cs.reverse.dropWhile isBlank).reverse

/-- The characters without the blanks at either end. -/
def trimChars (cs : List Char) : List Char :=
  trimEnd (cs.dropWhile isBlank)

/-- The text without the blanks at either end. -/
def trim (s : String) : String :=
  String.ofList (trimChars s.toList)

/-- The text with small letters for the capitals of ASCII, and all else as it is. -/
def lowerAscii (s : String) : String :=
  String.ofList (s.toList.map Char.toLower)

/-- The maximal runs of characters that hold no blank, in order. -/
def wordsOf (cs : List Char) : List (List Char) :=
  (splitWhere isBlank cs).filter (!·.isEmpty)

/-- The maximal runs of a text that hold no blank, in order. -/
def words (s : String) : List String :=
  (wordsOf s.toList).map String.ofList

end Carta.Text
