/-!
# Dividing a text

A text, which consists of characters or of bytes, is divided at those of them that pass a test. The
parts between them are kept in order, also those with nothing in them, so there is one part more than
there are such characters.
-/

namespace Carta.Text

variable {A : Type}

/-- The parts of a text between the characters that pass a test. -/
def splitWhere (test : A → Bool) : List A → List (List A)
  | [] => [[]]
  | c :: cs =>
    if test c then [] :: splitWhere test cs
    else
      match splitWhere test cs with
      | part :: rest => (c :: part) :: rest
      | [] => [[c]]

/-- The number of parts is one more than that of the characters that divide them. -/
theorem length_splitWhere (test : A → Bool) (cs : List A) :
    (splitWhere test cs).length = cs.countP test + 1 := by
  induction cs with
  | nil => rfl
  | cons c cs ih =>
    rw [splitWhere]
    split
    next h => rw [List.length_cons, ih, List.countP_cons_of_pos h]
    next h =>
      rw [List.countP_cons_of_neg h]
      split
      next hs => rw [← ih, hs, List.length_cons, List.length_cons]
      next hs => simp [hs] at ih

end Carta.Text
