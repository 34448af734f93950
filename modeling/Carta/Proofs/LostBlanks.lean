import Carta.Proofs.Lines

/-!
# Blanks that are lost from a text

Some of the characters of a text are kept and the others, all of them blanks, are lost. When the text
is trimmed anyway, it does not matter that blanks at its ends are lost. It matters wherever a lost
blank stands between two characters that are no blanks.
-/

namespace Carta.Text

/-- The characters without the blanks at either end, unless nothing else is among them. -/
def trimmed? (cs : List Char) : Option String :=
  if trimChars cs = [] then none else some (String.ofList (trimChars cs))

/-- What is left of two texts is the same when they are the same but for the blanks at their
ends. -/
theorem trimmed?_inj {cs ds : List Char} :
    trimmed? cs = trimmed? ds ↔ trimChars cs = trimChars ds := by
  constructor
  · intro h
    unfold trimmed? at h
    split at h <;> split at h
    · next hcs hds => rw [hcs, hds]
    · cases h
    · cases h
    · exact String.ofList_injective (Option.some.inj h)
  · intro h
    rw [trimmed?, trimmed?, h]

/-- Nothing but blanks. -/
def Blank (cs : List Char) : Prop :=
  ∀ c ∈ cs, isBlank c = true

/-- A blank at the end is trimmed away. -/
theorem trimEnd_concat_of_blank {c : Char} (hc : isBlank c = true) (cs : List Char) :
    trimEnd (cs ++ [c]) = trimEnd cs :=
  List.rdropWhile_concat_pos isBlank cs c hc

/-- Nothing is trimmed behind a character that is no blank. -/
theorem trimEnd_concat_of_not_blank {c : Char} (hc : isBlank c = false) (cs : List Char) :
    trimEnd (cs ++ [c]) = cs ++ [c] :=
  List.rdropWhile_concat_neg isBlank cs c (by simp [hc])

/-- Blanks behind a text are trimmed away. -/
theorem trimChars_append_of_blank {blanks : List Char} (h : Blank blanks) (cs : List Char) :
    trimChars (cs ++ blanks) = trimChars cs := by
  induction blanks using List.reverseRecOn with
  | nil => rw [List.append_nil]
  | append_singleton blanks c ih =>
    have hc : isBlank c = true := h c (by simp)
    rw [← ih fun d hd => h d (List.mem_append_left _ hd), ← List.append_assoc]
    generalize cs ++ blanks = ds
    rw [trimChars, trimChars, List.dropWhile_append]
    split
    next hnil => simp [hc, List.isEmpty_iff.mp hnil]
    next => exact trimEnd_concat_of_blank hc _

/-- Nothing is trimmed before a character that is no blank. -/
theorem trimChars_cons_of_not_blank {c : Char} (hc : isBlank c = false) (cs : List Char) :
    trimChars (c :: cs) = c :: trimEnd cs := by
  rw [trimChars, List.dropWhile_cons_of_neg (by simp [hc]), trimEnd_cons_of_not_blank hc]

section Marked

/-- Of characters with marks, those that are kept. -/
def keptOf (cs : List (Char × Bool)) : List Char :=
  (cs.filter (·.2)).map (·.1)

/-- Of characters with marks, all of them. -/
def wholeOf (cs : List (Char × Bool)) : List Char :=
  cs.map (·.1)

variable {cs : List (Char × Bool)}

/-- What is kept of marked characters is what is kept of each part. -/
theorem keptOf_append (cs ds : List (Char × Bool)) : keptOf (cs ++ ds) = keptOf cs ++ keptOf ds := by
  simp [keptOf]

/-- The whole of marked characters is the whole of each part. -/
theorem wholeOf_append (cs ds : List (Char × Bool)) :
    wholeOf (cs ++ ds) = wholeOf cs ++ wholeOf ds := by
  simp [wholeOf]

/-- Characters that are all lost, and characters that are all kept. -/
theorem keptOf_map (cs : List Char) :
    keptOf (cs.map (·, false)) = [] ∧ keptOf (cs.map (·, true)) = cs := by
  simp [keptOf, List.filter_map, Function.comp_def]

/-- The whole of characters is these characters, however they are marked. -/
theorem wholeOf_map (mark : Bool) (cs : List Char) : wholeOf (cs.map (·, mark)) = cs := by
  simp [wholeOf, Function.comp_def]

/-- All characters are kept when each of them is. -/
theorem keptOf_eq_wholeOf_iff : keptOf cs = wholeOf cs ↔ ∀ c, (c, false) ∉ cs := by
  have hall : (∀ c, (c, false) ∉ cs) ↔ ∀ entry ∈ cs, entry.2 = true :=
    ⟨fun h entry hentry => eq_true_of_ne_false fun hlost => h entry.1 (hlost ▸ hentry),
      fun h c hc => nomatch h _ hc⟩
  rw [hall]
  constructor
  · intro h
    have hlength := congrArg List.length h
    rw [keptOf, wholeOf, List.length_map, List.length_map] at hlength
    exact List.length_filter_eq_length_iff.mp hlength
  · intro h
    rw [keptOf, wholeOf, List.filter_eq_self.mpr h]

/-- When only blanks are lost, what is no blank is kept. -/
theorem mark_of_not_blank (hblank : ∀ c, (c, false) ∈ cs → isBlank c = true)
    {entry : Char × Bool} (hentry : entry ∈ cs) (h : isBlank entry.1 = false) : entry.2 = true := by
  refine eq_true_of_ne_false fun hlost => ?_
  rw [hblank entry.1 (hlost ▸ hentry)] at h
  cases h

/-- What holds wherever a character is lost, and one more character at the end. -/
theorem forall_lost_concat {P : List (Char × Bool) → Prop} {last : Char × Bool} :
    (∀ before c after, cs ++ [last] = before ++ (c, false) :: after → P after) ↔
      (last.2 = false → P []) ∧
        ∀ before c after, cs = before ++ (c, false) :: after → P (after ++ [last]) := by
  constructor
  · intro h
    refine ⟨fun hlast => h cs last.1 [] (by rw [← hlast]), fun before c after hcs => ?_⟩
    exact h before c (after ++ [last]) (by simp [hcs])
  · rintro ⟨hlast, hearlier⟩ before c after hcs
    rcases List.eq_nil_or_concat after with rfl | ⟨after, d, rfl⟩
    · obtain ⟨-, hd⟩ := List.append_inj' hcs rfl
      exact hlast (by rw [(List.cons.inj hd).1])
    · have hparts : cs ++ [last] = (before ++ (c, false) :: after) ++ [d] := by simpa using hcs
      obtain ⟨hearly, hd⟩ := List.append_inj' hparts rfl
      rw [List.concat_eq_append, ← (List.cons.inj hd).1]
      exact hearlier before c after hearly

/-- What holds wherever a character is lost, and one more character at the beginning. -/
theorem forall_lost_cons {P : List (Char × Bool) → List (Char × Bool) → Prop}
    {first : Char × Bool} :
    (∀ before c after, first :: cs = before ++ (c, false) :: after → P before after) ↔
      (first.2 = false → P [] cs) ∧
        ∀ before c after, cs = before ++ (c, false) :: after → P (first :: before) after := by
  constructor
  · intro h
    refine ⟨fun hfirst => h [] first.1 cs (by rw [← hfirst]; rfl), fun before c after hcs => ?_⟩
    exact h (first :: before) c after (by simp [hcs])
  · rintro ⟨hfirst, hlater⟩ before c after hcs
    cases before with
    | nil =>
      obtain ⟨rfl, rfl⟩ := List.cons.inj hcs
      exact hfirst rfl
    | cons b before =>
      obtain ⟨rfl, hrest⟩ := List.cons.inj hcs
      exact hlater before c after hrest

/-- When the end is trimmed, a lost blank is missed unless only blanks are behind it. -/
theorem trimEnd_keptOf_iff (hblank : ∀ c, (c, false) ∈ cs → isBlank c = true) :
    trimEnd (keptOf cs) = trimEnd (wholeOf cs) ↔
      ∀ before c after, cs = before ++ (c, false) :: after → Blank (wholeOf after) := by
  induction cs using List.reverseRecOn with
  | nil => simp [keptOf, wholeOf]
  | append_singleton cs last ih =>
    have hearlier : ∀ c, (c, false) ∈ cs → isBlank c = true := fun c hc =>
      hblank c (List.mem_append_left _ hc)
    have hwhole : wholeOf (cs ++ [last]) = wholeOf cs ++ [last.1] := wholeOf_append _ _
    rw [forall_lost_concat, keptOf_append, hwhole]
    by_cases hlast : isBlank last.1 = true
    · have hkept : trimEnd (keptOf cs ++ keptOf [last]) = trimEnd (keptOf cs) := by
        by_cases hmark : last.2 = true
        · simp [keptOf, hmark, trimEnd_concat_of_blank hlast]
        · simp [keptOf, hmark]
      rw [hkept, trimEnd_concat_of_blank hlast, ih hearlier]
      simp [wholeOf, Blank, or_imp, forall_and, hlast]
    · rw [Bool.not_eq_true] at hlast
      have hmark : last.2 = true := mark_of_not_blank hblank (by simp) hlast
      have hkept : keptOf [last] = [last.1] := by simp [keptOf, hmark]
      rw [hkept, trimEnd_concat_of_not_blank hlast, trimEnd_concat_of_not_blank hlast,
        List.append_left_inj, keptOf_eq_wholeOf_iff]
      constructor
      · intro hnone
        refine ⟨by simp [hmark], fun before c after hcs => absurd ?_ (hnone c)⟩
        simp [hcs]
      · rintro ⟨-, h⟩ c hc
        obtain ⟨before, after, hcs⟩ := List.append_of_mem hc
        have hafter := h before c after hcs last.1 (by simp [wholeOf])
        rw [hlast] at hafter
        cases hafter

/-- When both ends are trimmed, a lost blank is missed when it stands between two characters that are
no blanks. -/
theorem trimChars_keptOf_iff (hblank : ∀ c, (c, false) ∈ cs → isBlank c = true) :
    trimChars (keptOf cs) = trimChars (wholeOf cs) ↔
      ∀ before c after, cs = before ++ (c, false) :: after →
        Blank (wholeOf before) ∨ Blank (wholeOf after) := by
  induction cs with
  | nil => simp [keptOf, wholeOf]
  | cons first cs ih =>
    have hlater : ∀ c, (c, false) ∈ cs → isBlank c = true := fun c hc =>
      hblank c (List.mem_cons_of_mem _ hc)
    have hwhole : wholeOf (first :: cs) = first.1 :: wholeOf cs := rfl
    rw [forall_lost_cons]
    by_cases hfirst : isBlank first.1 = true
    · have hkept : trimChars (keptOf (first :: cs)) = trimChars (keptOf cs) := by
        by_cases hmark : first.2 = true
        · simp [keptOf, hmark, trimChars, hfirst]
        · simp [keptOf, hmark]
      have hsame : trimChars (wholeOf (first :: cs)) = trimChars (wholeOf cs) := by
        simp [hwhole, trimChars, hfirst]
      rw [hkept, hsame, ih hlater]
      simp [wholeOf, Blank, hfirst]
    · rw [Bool.not_eq_true] at hfirst
      have hmark : first.2 = true := mark_of_not_blank hblank List.mem_cons_self hfirst
      have hkept : keptOf (first :: cs) = first.1 :: keptOf cs := by simp [keptOf, hmark]
      rw [hkept, hwhole, trimChars_cons_of_not_blank hfirst, trimChars_cons_of_not_blank hfirst,
        List.cons.injEq, eq_self, true_and, trimEnd_keptOf_iff hlater]
      simp [hmark, wholeOf, Blank, hfirst]

end Marked

end Carta.Text
