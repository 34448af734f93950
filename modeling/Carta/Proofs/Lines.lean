import Carta.Mapfile.Entry
import Carta.Text.Blank
import Mathlib.Data.List.DropRight

/-!
# Lines and the blanks around them

A text is read line by line: its lines are the parts between its line feeds. A line is told by what
stands between the blanks at its ends, so its indentation does not count. A line that begins with
a character that is no blank keeps it when it is trimmed.
-/

namespace Carta

namespace Text

/-- A text without line feeds. -/
def SingleLine (s : String) : Prop :=
  '\n' ∉ s.toList

instance : DecidablePred SingleLine :=
  fun s => inferInstanceAs (Decidable ('\n' ∉ s.toList))

/-- The lines of a text. -/
def linesOf (s : String) : List String :=
  (splitWhere (· = '\n') s.toList).map String.ofList

/-- A text is on one line when no character of it is a line feed. For a fixed text this is much less
work to check than to divide it into characters again. -/
theorem singleLine_ofList {cs : List Char} (h : cs.contains '\n' = false) :
    SingleLine (String.ofList cs) := by
  simpa [SingleLine] using h

/-- Texts that stand together are on one line when each of them is. -/
@[simp] theorem singleLine_append {s t : String} :
    SingleLine (s ++ t) ↔ SingleLine s ∧ SingleLine t := by
  simp [SingleLine, not_or]

/-- Texts that are joined are on one line when each of them and what is put between them are. -/
theorem singleLine_intercalate {separator : String} (hseparator : SingleLine separator)
    {texts : List String} (h : ∀ text ∈ texts, SingleLine text) :
    SingleLine (separator.intercalate texts) := by
  induction texts with
  | nil => simp [SingleLine]
  | cons text rest ih =>
    rw [List.forall_mem_cons] at h
    cases rest with
    | nil => simpa using h.1
    | cons next rest =>
      rw [String.intercalate_cons_cons, singleLine_append, singleLine_append]
      exact ⟨⟨h.1, hseparator⟩, ih h.2⟩

/-- A text without blanks is on one line. -/
theorem singleLine_of_not_blank {s : String} (h : ∀ c ∈ s.toList, isBlank c = false) :
    SingleLine s :=
  fun hmem => absurd (h '\n' hmem) (by decide)

section Division

variable {A : Type}

/-- A text in which nothing divides is its only part. -/
theorem splitWhere_eq_singleton {test : A → Bool} {cs : List A} (h : ∀ c ∈ cs, test c = false) :
    splitWhere test cs = [cs] := by
  induction cs with
  | nil => rfl
  | cons c cs ih =>
    rw [List.forall_mem_cons] at h
    rw [splitWhere, ih h.2, h.1]
    rfl

/-- A text has a part. -/
theorem splitWhere_ne_nil (test : A → Bool) (cs : List A) : splitWhere test cs ≠ [] := by
  apply List.ne_nil_of_length_pos
  rw [length_splitWhere]
  exact Nat.succ_pos _

/-- No character of a part passes the test that divides. -/
theorem eq_false_of_mem_splitWhere {test : A → Bool} {cs part : List A}
    (h : part ∈ splitWhere test cs) : ∀ c ∈ part, test c = false := by
  induction cs generalizing part with
  | nil =>
    obtain rfl := List.mem_singleton.mp h
    simp
  | cons c cs ih =>
    rw [splitWhere] at h
    split at h
    next hc =>
      rcases List.mem_cons.mp h with rfl | h
      · simp
      · exact ih h
    next hc =>
      split at h
      next first rest hparts =>
        rw [hparts, List.forall_mem_cons] at ih
        rcases List.mem_cons.mp h with rfl | h
        · rw [List.forall_mem_cons]
          exact ⟨by simpa using hc, ih.1⟩
        · exact ih.2 part h
      next hparts =>
        obtain rfl := List.mem_singleton.mp h
        simpa using hc

/-- A character that divides ends one part and begins the next. -/
theorem splitWhere_append_cons {test : A → Bool} {c : A} (hc : test c = true)
    (before after : List A) :
    splitWhere test (before ++ c :: after) = splitWhere test before ++ splitWhere test after := by
  induction before with
  | nil => simp [splitWhere, hc]
  | cons b before ih =>
    rw [List.cons_append, splitWhere, splitWhere, ih]
    by_cases hb : test b = true
    · rw [if_pos hb, if_pos hb, List.cons_append]
    · obtain ⟨part, parts, hparts⟩ := List.exists_cons_of_ne_nil (splitWhere_ne_nil test before)
      rw [if_neg hb, if_neg hb, hparts]
      rfl

/-- Characters are not divided at one that is not among them. -/
theorem splitWhere_eq_singleton_of_notMem [DecidableEq A] {d : A} {cs : List A} (h : d ∉ cs) :
    splitWhere (· = d) cs = [cs] :=
  splitWhere_eq_singleton fun c hc => by simpa using ne_of_mem_of_not_mem hc h

end Division

/-- A text without a character is not divided at it. -/
theorem map_splitWhere_eq_singleton {d : Char} {text : String} (h : d ∉ text.toList) :
    (splitWhere (· = d) text.toList).map String.ofList = [text] := by
  rw [splitWhere_eq_singleton_of_notMem h, List.map_singleton, String.ofList_toList]

/-- Two parts are told from their whole by the first character of a kind between them. -/
theorem eq_and_eq_of_append_cons {d : Char} {first second rest others : List Char}
    (hfirst : d ∉ first) (hsecond : d ∉ second) (h : first ++ d :: rest = second ++ d :: others) :
    first = second ∧ rest = others := by
  have hsplit := congrArg (splitWhere (· = d)) h
  rw [splitWhere_append_cons (by simp), splitWhere_append_cons (by simp),
    splitWhere_eq_singleton_of_notMem hfirst, splitWhere_eq_singleton_of_notMem hsecond] at hsplit
  obtain ⟨rfl, -⟩ := List.cons.inj hsplit
  exact ⟨rfl, (List.cons.inj (List.append_cancel_left h)).2⟩

/-- Parts without a character are divided again where they are joined by it. -/
theorem splitWhere_intercalate {A : Type} [DecidableEq A] {d : A} {parts : List (List A)}
    (hne : parts ≠ []) (h : ∀ part ∈ parts, d ∉ part) :
    splitWhere (· = d) ([d].intercalate parts) = parts := by
  induction parts with
  | nil => exact absurd rfl hne
  | cons part rest ih =>
    rw [List.forall_mem_cons] at h
    cases rest with
    | nil => simpa using splitWhere_eq_singleton_of_notMem h.1
    | cons next rest =>
      rw [List.intercalate_cons_cons, List.append_assoc, List.singleton_append,
        splitWhere_append_cons (by simp), splitWhere_eq_singleton_of_notMem h.1,
        ih (List.cons_ne_nil _ _) h.2, List.singleton_append]

/-- Texts without a character are divided again where they are joined by it. -/
theorem map_splitWhere_intercalate {d : Char} {separator : String} (hseparator : separator.toList = [d])
    {texts : List String} (hne : texts ≠ []) (h : ∀ text ∈ texts, d ∉ text.toList) :
    (splitWhere (· = d) (separator.intercalate texts).toList).map String.ofList = texts := by
  rw [String.toList_intercalate, hseparator,
    splitWhere_intercalate (by simpa using hne) (by simpa using h), List.map_map]
  simp [Function.comp_def]

/-- Lines that are each ended by a line feed are read as they are, with what comes after them. -/
theorem linesOf_textOfLines_append {lines : List String} (h : ∀ line ∈ lines, SingleLine line)
    {last : String} (hlast : SingleLine last) :
    linesOf (Mapfile.Entry.textOfLines lines ++ last) = lines ++ [last] := by
  induction lines with
  | nil => simpa [linesOf, Mapfile.Entry.textOfLines] using map_splitWhere_eq_singleton hlast
  | cons line rest ih =>
    rw [List.forall_mem_cons] at h
    have hsplit : (Mapfile.Entry.textOfLines (line :: rest) ++ last).toList =
        line.toList ++ '\n' :: (Mapfile.Entry.textOfLines rest ++ last).toList := by
      simp [Mapfile.Entry.textOfLines]
    rw [linesOf, hsplit, splitWhere_append_cons (by decide), List.map_append,
      map_splitWhere_eq_singleton h.1]
    change [line] ++ linesOf (Mapfile.Entry.textOfLines rest ++ last) = _
    rw [ih h.2]
    rfl

/-- Blanks before a text are trimmed away. -/
theorem trim_append_of_blank {s : String} (hs : ∀ c ∈ s.toList, isBlank c = true) (t : String) :
    trim (s ++ t) = trim t := by
  unfold trim trimChars
  rw [String.toList_append, List.dropWhile_append_of_pos hs]

/-- Trimming the end keeps a character that is no blank, whatever follows it. -/
theorem trimEnd_cons_of_not_blank {c : Char} (hc : isBlank c = false) (cs : List Char) :
    trimEnd (c :: cs) = c :: trimEnd cs := by
  unfold trimEnd
  rw [List.reverse_cons, List.dropWhile_append]
  split
  next h => simp [hc, List.isEmpty_iff.mp h]
  next h => simp

/-- Trimming the end keeps a text without blanks, whatever follows it. -/
theorem trimEnd_append_of_not_blank {word : List Char} (hword : ∀ c ∈ word, isBlank c = false)
    (cs : List Char) : trimEnd (word ++ cs) = word ++ trimEnd cs := by
  induction word with
  | nil => rfl
  | cons c word ih =>
    rw [List.forall_mem_cons] at hword
    rw [List.cons_append, trimEnd_cons_of_not_blank hword.1, ih hword.2, List.cons_append]

/-- A text without blanks is not trimmed. -/
theorem trim_of_not_blank {s : String} (h : ∀ c ∈ s.toList, isBlank c = false) : trim s = s := by
  have hstart : s.toList.dropWhile isBlank = s.toList := by
    rw [List.dropWhile_eq_self_iff]
    exact fun hpos => by simp [h _ (List.getElem_mem hpos)]
  have hend : trimEnd s.toList = s.toList := by
    have hnothing : trimEnd [] = [] := rfl
    rw [← List.append_nil s.toList, trimEnd_append_of_not_blank h, hnothing]
  rw [trim, trimChars, hstart, hend, String.ofList_toList]

/-- A digit is no blank. -/
theorem isBlank_of_isDigit {c : Char} (h : c.isDigit = true) : isBlank c = false := by
  have hbounds : 48 ≤ c.toNat ∧ c.toNat ≤ 57 := by
    simp only [Char.isDigit, Bool.and_eq_true, decide_eq_true_eq, ge_iff_le,
      UInt32.le_iff_toNat_le] at h
    exact h
  simp only [isBlank, Bool.or_eq_false_iff, Bool.and_eq_false_iff, decide_eq_false_iff_not,
    beq_eq_false_iff_ne]
  omega

/-- No blank is among the digits of a number. -/
theorem isBlank_of_mem_toString {n : Nat} {c : Char} (h : c ∈ (toString n).toList) :
    isBlank c = false := by
  rw [Nat.toString_eq_ofList_toDigits, String.toList_ofList] at h
  exact isBlank_of_isDigit (Nat.isDigit_of_mem_toDigits (by decide) (by decide) h)

/-- Trimming drops nothing before a first character that is no blank. -/
theorem toList_trim_cons {s : String} {c : Char} {cs : List Char} (hs : s.toList = c :: cs)
    (hc : isBlank c = false) : (trim s).toList = c :: trimEnd cs := by
  unfold trim trimChars
  rw [hs, List.dropWhile_cons_of_neg (by simp [hc]), trimEnd_cons_of_not_blank hc,
    String.toList_ofList]

/-- Nothing remains of a text that is trimmed when there are only blanks in it. -/
theorem trim_eq_empty_iff {s : String} : trim s = "" ↔ ∀ c ∈ s.toList, isBlank c = true := by
  have hend (cs : List Char) : trimEnd cs = [] ↔ ∀ c ∈ cs, isBlank c = true :=
    List.rdropWhile_eq_nil_iff
  rw [trim, String.ofList_eq_empty_iff, trimChars, hend]
  generalize s.toList = cs
  induction cs with
  | nil => simp
  | cons c cs ih =>
    by_cases hc : isBlank c = true
    · rw [List.dropWhile_cons_of_pos hc, List.forall_mem_cons, and_iff_right hc]
      exact ih
    · rw [List.dropWhile_cons_of_neg hc]

/-- What remains of a text when its end is trimmed begins as the text does. -/
theorem trimEnd_eq_nil_or_cons (c : Char) (cs : List Char) :
    trimEnd (c :: cs) = [] ∨ ∃ rest, trimEnd (c :: cs) = c :: rest := by
  cases h : trimEnd (c :: cs) with
  | nil => exact Or.inl rfl
  | cons d rest =>
    have hbefore : trimEnd (c :: cs) <+: c :: cs := List.rdropWhile_prefix isBlank _
    rw [h, List.cons_prefix_cons] at hbefore
    exact Or.inr ⟨rest, by rw [hbefore.1]⟩

/-- A word that is followed by a blank is trimmed to itself, or else to something with that blank. -/
theorem trim_word_append {word : String} (hne : word ≠ "") (hword : ∀ c ∈ word.toList, isBlank c = false)
    (value : String) :
    (trim (word ++ " " ++ value) = word ∧ ∀ c ∈ value.toList, isBlank c = true) ∨
      ' ' ∈ (trim (word ++ " " ++ value)).toList := by
  have hspace : (word ++ " " ++ value).toList = word.toList ++ ' ' :: value.toList := by simp
  have htrim : (trim (word ++ " " ++ value)).toList = word.toList ++ trimEnd (' ' :: value.toList) := by
    cases hlist : word.toList with
    | nil => exact absurd (String.toList_eq_nil_iff.mp hlist) hne
    | cons c cs =>
      rw [hlist, List.forall_mem_cons] at hword
      rw [hlist, List.cons_append] at hspace
      rw [toList_trim_cons hspace hword.1, trimEnd_append_of_not_blank hword.2, List.cons_append]
  rcases trimEnd_eq_nil_or_cons ' ' value.toList with hnil | ⟨rest, hrest⟩
  · left
    constructor
    · rw [hnil, List.append_nil] at htrim
      exact String.toList_inj.mp htrim
    · have hall := List.rdropWhile_eq_nil_iff.mp hnil
      exact fun c hc => hall c (List.mem_cons_of_mem _ hc)
  · right
    rw [htrim, hrest]
    simp

end Text

end Carta
