import Carta.Proofs.Lines
import Mathlib.Algebra.Order.Ring.Int

/-!
# Blocks in the lines of a text

A text can be read line by line with nothing but the number of blocks that are open: a line that is
a block's keyword opens one, a line that is `END` closes one. This reads a mapfile without knowing
how it was written. The lines of entries are nested: they close what they open, never close a block
around them, and are indented by the blocks that are open. What is needed of the entries is only
that a directive is one line and is not itself such a keyword.
-/

namespace Carta.Mapfile

open Carta.Text (SingleLine isBlank linesOf trim trimEnd)

/-- The keywords of blocks. -/
def blockKeywords : List String :=
  ["MAP", "PROJECTION", "OUTPUTFORMAT", "LEGEND", "LABEL", "WEB", "METADATA", "LAYER", "CLASS",
    "STYLE", "SYMBOL", "POINTS"]

/-- Whether a line opens a block. -/
def opens (line : String) : Bool :=
  trim line ∈ blockKeywords

/-- Whether a line closes a block. -/
def closes (line : String) : Bool :=
  trim line = "END"

/-- The number of blanks that a line begins with. -/
def indentation (line : String) : Nat :=
  (line.toList.takeWhile (· = ' ')).length

/-- How many blocks more are open after a line than before it. -/
def lineChange (line : String) : Int :=
  if opens line then 1 else if closes line then -1 else 0

/-- How many blocks more are open after lines than before them. -/
def depthChange (lines : List String) : Int :=
  (lines.map lineChange).sum

/-- The lines, each with the number of blocks that are open around it, where the given number is
open before them. The lines that open and close a block are not in it. -/
def readLines (depth : Int) : List String → List (Int × String)
  | [] => []
  | line :: rest =>
    (if closes line then depth - 1 else depth, line) :: readLines (depth + lineChange line) rest

/-- The blocks that are opened in lines where `level` blocks are open, each by its keyword and the
line after it. -/
def blocksAt (level depth : Int) : List String → List (String × Option String)
  | [] => []
  | line :: rest =>
    (if opens line ∧ depth = level then [(trim line, rest.head?)] else []) ++
      blocksAt level (depth + lineChange line) rest

/-- Lines that close what they open and nothing else, with no block but theirs below a depth and an
indentation of two blanks for each block. -/
structure Nested (depth : Nat) (lines : List String) : Prop where
  settled : depthChange lines = 0
  inside : ∀ read ∈ readLines depth lines, depth ≤ read.1
  indented : ∀ read ∈ readLines depth lines, trim read.2 ≠ "" → indentation read.2 = 2 * read.1

/-- Lines that stand together change the depth by what each of them changes. -/
theorem depthChange_append (first second : List String) :
    depthChange (first ++ second) = depthChange first + depthChange second := by
  simp [depthChange]

/-- Lines are read one after the other, with the blocks that those before have left open. -/
theorem readLines_append (depth : Int) (first second : List String) :
    readLines depth (first ++ second) =
      readLines depth first ++ readLines (depth + depthChange first) second := by
  induction first generalizing depth with
  | nil => simp [readLines, depthChange]
  | cons line rest ih => simp [readLines, depthChange, ih, Int.add_assoc]

/-- An empty list of lines is nested. -/
theorem Nested.nil (depth : Nat) : Nested depth [] where
  settled := rfl
  inside := by simp [readLines]
  indented := by simp [readLines]

/-- Nested lines after nested lines are nested. -/
theorem Nested.append {depth : Nat} {first second : List String} (hfirst : Nested depth first)
    (hsecond : Nested depth second) : Nested depth (first ++ second) := by
  have hread : readLines depth (first ++ second) = readLines depth first ++ readLines depth second := by
    rw [readLines_append, hfirst.settled, Int.add_zero]
  constructor
  · rw [depthChange_append, hfirst.settled, hsecond.settled, Int.add_zero]
  · rw [hread, List.forall_mem_append]
    exact ⟨hfirst.inside, hsecond.inside⟩
  · rw [hread, List.forall_mem_append]
    exact ⟨hfirst.indented, hsecond.indented⟩

/-- A line that neither opens nor closes a block is nested where it is indented for. -/
theorem Nested.line {depth : Nat} {line : String} (hopens : opens line = false)
    (hcloses : closes line = false) (h : trim line ≠ "" → indentation line = 2 * depth) :
    Nested depth [line] := by
  have hchange : lineChange line = 0 := by simp [lineChange, hopens, hcloses]
  constructor
  · simp [depthChange, hchange]
  · simp [readLines, hcloses]
  · simpa [readLines, hcloses] using fun hne => by exact_mod_cast h hne

/-- A line that opens a block closes none. -/
theorem closes_eq_false_of_opens {line : String} (h : opens line = true) : closes line = false := by
  have hkeyword : ∀ keyword ∈ blockKeywords, keyword ≠ "END" := by decide
  simpa [closes] using hkeyword _ (by simpa [opens] using h)

/-- A line that closes a block opens none. -/
theorem opens_eq_false_of_closes {line : String} (h : closes line = true) : opens line = false := by
  by_contra hopens
  rw [Bool.not_eq_false] at hopens
  rw [closes_eq_false_of_opens hopens] at h
  cases h

/-- The reading of a block: its two lines outside, and what is in it one deeper. -/
theorem readLines_block (depth : Int) {opening closing : String} {body : List String}
    (hopens : opens opening = true) (hcloses : closes closing = true)
    (hbody : depthChange body = 0) :
    readLines depth (opening :: (body ++ [closing])) =
      (depth, opening) :: (readLines (depth + 1) body ++ [(depth, closing)]) := by
  have hopening : lineChange opening = 1 := by simp [lineChange, hopens]
  rw [readLines, closes_eq_false_of_opens hopens, hopening, readLines_append, hbody]
  simp [readLines, hcloses]

/-- The lines of a block around nested lines are nested. -/
theorem Nested.block {depth : Nat} {opening closing : String} {body : List String}
    (hopens : opens opening = true) (hopening : indentation opening = 2 * depth)
    (hcloses : closes closing = true) (hclosing : indentation closing = 2 * depth)
    (hbody : Nested (depth + 1) body) : Nested depth (opening :: (body ++ [closing])) := by
  have hread := readLines_block depth hopens hcloses hbody.settled
  constructor
  · have hopening : lineChange opening = 1 := by simp [lineChange, hopens]
    have hclosing : lineChange closing = -1 := by
      simp [lineChange, opens_eq_false_of_closes hcloses, hcloses]
    have hsettled := hbody.settled
    unfold depthChange at hsettled ⊢
    simp [hsettled, hopening, hclosing]
  · have hinside := hbody.inside
    rw [hread]
    intro read hmem
    simp only [List.mem_cons, List.mem_append, List.not_mem_nil, or_false] at hmem
    rcases hmem with rfl | hmem | rfl
    · exact Int.le_refl _
    · have := hinside read (by exact_mod_cast hmem)
      omega
    · exact Int.le_refl _
  · rw [hread]
    intro read hmem hne
    simp only [List.mem_cons, List.mem_append, List.not_mem_nil, or_false] at hmem
    rcases hmem with rfl | hmem | rfl
    · change (indentation opening : Int) = 2 * depth
      exact_mod_cast hopening
    · exact hbody.indented read (by exact_mod_cast hmem) hne
    · change (indentation closing : Int) = 2 * depth
      exact_mod_cast hclosing

/-- Where all lines are at some depth or deeper, so many blocks are open after any of them. -/
theorem le_depthChange_of_readLines {least depth : Int} {before after : List String}
    (hdepth : least ≤ depth) (h : ∀ read ∈ readLines depth (before ++ after), least ≤ read.1) :
    least ≤ depth + depthChange before := by
  induction before generalizing depth with
  | nil => simpa [depthChange] using hdepth
  | cons line before ih =>
    rw [List.cons_append, readLines, List.forall_mem_cons] at h
    have hline : least ≤ depth + lineChange line := by
      have hread := h.1
      cases hopens : opens line with
      | true =>
        simp only [lineChange, hopens, if_true]
        omega
      | false =>
        cases hcloses : closes line with
        | true => simpa [lineChange, hopens, hcloses, ← Int.sub_eq_add_neg] using hread
        | false => simpa [lineChange, hopens, hcloses] using hdepth
    have hrest := ih hline h.2
    simpa [depthChange, Int.add_assoc] using hrest

/-- No block is closed in nested lines that was open before them. -/
theorem Nested.depthChange_nonneg {depth : Nat} {before after : List String}
    (h : Nested depth (before ++ after)) : 0 ≤ depthChange before := by
  have hle := le_depthChange_of_readLines (Int.le_refl _) h.inside
  omega

/-- No block is opened at a level by lines that are all deeper. -/
theorem blocksAt_append_of_lt {level depth : Int} {lines : List String}
    (h : ∀ read ∈ readLines depth lines, level < read.1) (rest : List String) :
    blocksAt level depth (lines ++ rest) = blocksAt level (depth + depthChange lines) rest := by
  induction lines generalizing depth with
  | nil => simp [depthChange]
  | cons line lines ih =>
    rw [readLines, List.forall_mem_cons] at h
    have hlevel : ¬(opens line = true ∧ depth = level) := by
      rintro ⟨hopens, rfl⟩
      have hdepth := h.1
      rw [closes_eq_false_of_opens hopens] at hdepth
      exact Int.lt_irrefl _ hdepth
    rw [List.cons_append, blocksAt, if_neg hlevel, ih h.2]
    simp [depthChange, Int.add_assoc]

/-- A line that opens no block does not matter for the blocks that are opened. -/
theorem blocksAt_cons_of_not_opens {level depth : Int} {line : String} (hopens : opens line = false)
    (rest : List String) :
    blocksAt level depth (line :: rest) = blocksAt level (depth + lineChange line) rest := by
  rw [blocksAt, if_neg (by simp [hopens]), List.nil_append]

/-- A line that neither opens nor closes a block does not matter for the blocks that are opened. -/
theorem blocksAt_cons_of_plain {level depth : Int} {line : String} (hopens : opens line = false)
    (hcloses : closes line = false) (rest : List String) :
    blocksAt level depth (line :: rest) = blocksAt level depth rest := by
  have hchange : lineChange line = 0 := by simp [lineChange, hopens, hcloses]
  rw [blocksAt_cons_of_not_opens hopens, hchange, Int.add_zero]

/-- Lines that neither open nor close a block do not matter for the blocks that are opened. -/
theorem blocksAt_append_of_plain {level depth : Int} {lines : List String}
    (h : ∀ line ∈ lines, opens line = false ∧ closes line = false) (rest : List String) :
    blocksAt level depth (lines ++ rest) = blocksAt level depth rest := by
  induction lines with
  | nil => rfl
  | cons line lines ih =>
    rw [List.forall_mem_cons] at h
    rw [List.cons_append, blocksAt_cons_of_plain h.1.1 h.1.2, ih h.2]

/-- A block is opened by its first line, and none of the blocks in it is opened at its level. -/
theorem blocksAt_block {depth : Nat} {opening closing : String} {body : List String}
    (hopens : opens opening = true) (hcloses : closes closing = true) (hbody : Nested (depth + 1) body)
    (rest : List String) :
    blocksAt depth depth (opening :: (body ++ [closing]) ++ rest) =
      (trim opening, (body ++ [closing]).head?) :: blocksAt depth depth rest := by
  have hopening : lineChange opening = 1 := by simp [lineChange, hopens]
  have hclosing : lineChange closing = -1 := by
    simp [lineChange, opens_eq_false_of_closes hcloses, hcloses]
  have hhead : (body ++ [closing] ++ rest).head? = (body ++ [closing]).head? := by
    cases body <;> rfl
  have hdeeper : ∀ read ∈ readLines (depth + 1) body, (depth : Int) < read.1 := by
    intro read hread
    have := hbody.inside read (by exact_mod_cast hread)
    omega
  have hclosed : blocksAt depth (depth + 1) (closing :: rest) = blocksAt depth depth rest := by
    rw [blocksAt_cons_of_not_opens (opens_eq_false_of_closes hcloses), hclosing,
      Int.add_neg_cancel_right]
  rw [List.cons_append, blocksAt, if_pos ⟨hopens, rfl⟩, hhead, hopening, List.append_assoc,
    blocksAt_append_of_lt hdeeper, hbody.settled, Int.add_zero]
  exact congrArg ((trim opening, (body ++ [closing]).head?) :: ·) hclosed

end Carta.Mapfile
