import Carta.Command.Plan
import Mathlib.Data.List.Nodup

/-!
# The order of paths

Paths are ordered by their components, of which any two can be compared, and two that come before
each other are the same. Paths that are all different are put into a strict order, which does not
depend on the order in which they come.
-/

namespace Carta

namespace Component

/-- Of two components one comes no later than the other. -/
theorem le_or_le (a b : Component) : a.le b = true ∨ b.le a = true := by
  cases a <;> cases b <;> simp [le, rank, List.le_total]

/-- The order of components is transitive. -/
theorem le_of_le_of_le {a b c : Component} (hab : a.le b = true) (hbc : b.le c = true) :
    a.le c = true := by
  cases a <;> cases b <;> cases c <;> simp_all [le, rank]
  exact List.le_trans hab hbc

/-- Components that come no later than each other are equal. -/
theorem eq_of_le_of_le {a b : Component} (hab : a.le b = true) (hba : b.le a = true) : a = b := by
  cases a <;> cases b <;> simp_all [le, rank]
  exact List.le_antisymm hab hba

end Component

namespace Path

/-- Of two lists of components one comes no later than the other. -/
theorem componentsLe_or (first second : List Component) :
    componentsLe first second = true ∨ componentsLe second first = true := by
  induction first generalizing second with
  | nil => exact .inl rfl
  | cons a as ih =>
    cases second with
    | nil => exact .inr rfl
    | cons b bs =>
      rw [componentsLe, componentsLe]
      by_cases hab : a = b
      · rw [if_pos hab, if_pos hab.symm]
        exact ih bs
      · rw [if_neg hab, if_neg (Ne.symm hab)]
        exact a.le_or_le b

/-- Components that come before each other are the same. -/
theorem eq_of_componentsLe {first second : List Component} (h : componentsLe first second = true)
    (h' : componentsLe second first = true) : first = second := by
  induction first generalizing second with
  | nil =>
    cases second with
    | nil => rfl
    | cons => cases h'
  | cons a as ih =>
    cases second with
    | nil => cases h
    | cons b bs =>
      rw [componentsLe] at h h'
      by_cases hab : a = b
      · rw [if_pos hab] at h
        rw [if_pos hab.symm] at h'
        rw [hab, ih h h']
      · rw [if_neg hab] at h
        rw [if_neg (Ne.symm hab)] at h'
        exact absurd (Component.eq_of_le_of_le h h') hab

/-- The order of lists of components is transitive. -/
theorem componentsLe_trans {first second third : List Component}
    (h : componentsLe first second = true) (h' : componentsLe second third = true) :
    componentsLe first third = true := by
  induction first generalizing second third with
  | nil => rfl
  | cons a as ih =>
    cases second with
    | nil => cases h
    | cons b bs =>
      cases third with
      | nil => cases h'
      | cons c cs =>
        rw [componentsLe] at h h' ⊢
        by_cases hab : a = b
        · obtain rfl := hab
          rw [if_pos rfl] at h
          split at h'
          next hac => rw [if_pos hac, ih h h']
          next hac => rw [if_neg hac, h']
        · rw [if_neg hab] at h
          by_cases hbc : b = c
          · obtain rfl := hbc
            rw [if_neg hab, h]
          · rw [if_neg hbc] at h'
            have hac : a ≠ c := by
              rintro rfl
              exact hab (Component.eq_of_le_of_le h h')
            rw [if_neg hac]
            exact Component.le_of_le_of_le h h'

end Path

namespace Command

section Sorting

variable {paths others : List Path}

/-- Sorting paths keeps all of them. -/
theorem sortPaths_perm (paths : List Path) : (sortPaths paths).Perm paths :=
  List.mergeSort_perm _ _

/-- Paths are put in the order of their components. -/
theorem pairwise_sortPaths (paths : List Path) :
    (sortPaths paths).Pairwise fun first second => first.le second = true := by
  have htrans (first second third : Path) (h : first.le second = true)
      (h' : second.le third = true) : first.le third = true := Path.componentsLe_trans h h'
  have htotal (first second : Path) : (first.le second || second.le first) = true := by
    simpa [Path.le] using Path.componentsLe_or first.components second.components
  exact List.pairwise_mergeSort htrans htotal paths

variable (hdistinct : ∀ first ∈ paths, ∀ second ∈ paths, first.same second = true → first = second)

include hdistinct

/-- Paths that are all different are put into a strict order. -/
theorem strict_sortPaths (hnodup : paths.Nodup) :
    (sortPaths paths).Pairwise fun first second =>
      first.le second = true ∧ ¬ first.same second = true := by
  have hperm := sortPaths_perm paths
  refine ((pairwise_sortPaths paths).and (hperm.symm.nodup hnodup)).imp_of_mem ?_
  intro first second hfirst hsecond ⟨hle, hne⟩
  exact ⟨hle, fun hsame => hne
    (hdistinct first (hperm.subset hfirst) second (hperm.subset hsecond) hsame)⟩

/-- The order in which different paths come does not matter when they are sorted. -/
theorem sortPaths_eq_of_perm (h : paths.Perm others) : sortPaths paths = sortPaths others := by
  have hpaths := sortPaths_perm paths
  have hothers := (sortPaths_perm others).trans h.symm
  refine List.Perm.eq_of_pairwise ?_ (pairwise_sortPaths paths) (pairwise_sortPaths others)
    (hpaths.trans hothers.symm)
  intro first second hfirst hsecond hle hle'
  refine hdistinct first (hpaths.subset hfirst) second (hothers.subset hsecond) ?_
  exact decide_eq_true (Path.eq_of_componentsLe hle hle')

end Sorting

end Command

end Carta
