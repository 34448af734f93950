/-!
# Delimited stretches of bytes

Every kind of markup, and every attribute value, ends at a delimiter, but not at every occurrence
of it: what was read before decides whether an occurrence counts. A stretch is read with a state
that each of its bytes advances; the first delimiter that the state accepts ends it.

Nothing is lost: a stretch, its delimiter and the rest are the bytes that were given.
-/

namespace Carta.Xml

/-- How far a stretch goes: the state before it, how a byte changes the state, and the states in
which the delimiter ends it. -/
structure Extent (State : Type) where
  delimiter : UInt8
  advance : State → UInt8 → State
  ends : State → Bool

/-- The stretch before the first delimiter that ends it, and the bytes after that delimiter. -/
def Extent.split? {State : Type} (extent : Extent State) (state : State) :
    List UInt8 → Option (List UInt8 × List UInt8)
  | [] => none
  | b :: bytes =>
    if b = extent.delimiter ∧ extent.ends state = true then some ([], bytes)
    else (extent.split? (extent.advance state b) bytes).map fun (stretch, rest) =>
      (b :: stretch, rest)

/-- A stretch, its delimiter and the rest make up the bytes. -/
theorem Extent.eq_of_split? {State : Type} {extent : Extent State} {state : State}
    {bytes stretch rest : List UInt8} (h : extent.split? state bytes = some (stretch, rest)) :
    bytes = stretch ++ extent.delimiter :: rest := by
  induction bytes generalizing state stretch with
  | nil => simp [split?] at h
  | cons b bytes ih =>
    rw [split?] at h
    split at h
    next hb =>
      obtain ⟨rfl, rfl⟩ : [] = stretch ∧ bytes = rest := by simpa using h
      simp [hb.1]
    next =>
      obtain ⟨⟨stretch', rest'⟩, hs, he⟩ := Option.map_eq_some_iff.1 h
      obtain ⟨rfl, rfl⟩ : b :: stretch' = stretch ∧ rest' = rest := by simpa using he
      rw [ih hs, List.cons_append]

/-- What follows a stretch is shorter than what was given. -/
theorem Extent.length_of_split? {State : Type} {extent : Extent State} {state : State}
    {bytes stretch rest : List UInt8} (h : extent.split? state bytes = some (stretch, rest)) :
    rest.length < bytes.length := by
  rw [Extent.eq_of_split? h]
  simp only [List.length_append, List.length_cons]
  omega

/-- A stretch that the first delimiter ends. -/
def Extent.upTo (delimiter : UInt8) : Extent Unit where
  delimiter := delimiter
  advance _ _ := ()
  ends _ := true

end Carta.Xml
