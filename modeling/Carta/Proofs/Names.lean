import Carta.Name
import Carta.Proofs.ExactDecoding

/-!
# Names that spell a text

A name spells at most one text, whose bytes it is. Such a name is shown as its text, and between
quotes with the quoted forms of the characters of the text.
-/

namespace Carta

namespace Text

namespace Utf8

/-- The bytes of texts that stand together stand together. -/
theorem encode_append (s t : String) : encode (s ++ t) = encode s ++ encode t := by
  simp [encode]

end Utf8

/-- The bytes of characters are shown by the quoted forms of the characters. -/
theorem quotedPieces_encodeChars (cs : List Char) :
    quotedPieces (cs.map .char) (Utf8.encodeChars cs) = cs.flatMap quotedForm := by
  induction cs with
  | nil => rfl
  | cons c cs ih =>
    have hdrop : (Utf8.encodeChars (c :: cs)).drop c.utf8Size = Utf8.encodeChars cs := by
      rw [Utf8.encodeChars, List.flatMap_cons]
      exact List.drop_left' (String.length_utf8EncodeChar c)
    rw [List.map_cons, quotedPieces, hdrop, ih, List.flatMap_cons]

/-- The bytes of a text are shown by the quoted forms of its characters. -/
theorem quoted_encode (s : String) :
    quoted (Utf8.encode s) = "\"" ++ String.ofList (s.toList.flatMap quotedForm) ++ "\"" := by
  have hpieces : quotedPieces (Utf8.pieces (Utf8.encode s)) (Utf8.encode s) =
      s.toList.flatMap quotedForm := by
    rw [← quotedPieces_encodeChars, ← Utf8.pieces_encodeChars]
    rfl
  rw [quoted, hpieces]

end Text

namespace Name

open Text.Utf8 (encode)

/-- A name spells a text when it has the bytes of that. -/
theorem text?_eq_some_iff {name : Name} {s : String} : text? name = some s ↔ name = encode s := by
  rw [← Text.Utf8.decode_eq_ok_iff, text?]
  cases Text.Utf8.decode name <;> simp [Except.toOption]

/-- Names that spell a text are those of texts. -/
theorem isText_iff {name : Name} : isText name = true ↔ ∃ s, name = encode s := by
  simp only [isText, Option.isSome_iff_exists, text?_eq_some_iff]

/-- A name that spells a text is shown as that. -/
theorem shown_encode (s : String) : shown (encode s) = s :=
  Text.Utf8.decodeLenient_encode s

end Name

end Carta
