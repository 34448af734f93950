import Carta.Error
import Mathlib.Data.List.Forall2

/-!
# Outcomes of sequences

A conversion is a sequence of steps of which the first failing one decides the error. These lemmas
open such a sequence step by step: it succeeds when every step does, and it fails with the error of
one step after all before it succeeded. Lists are traversed in order, so the same holds of their
items.
-/

namespace Carta

variable {E A B : Type}

/-- A sequence of two steps succeeds when both do. -/
theorem bind_eq_ok_iff {first : Except E A} {next : A → Except E B} {b : B} :
    (first >>= next) = .ok b ↔ ∃ a, first = .ok a ∧ next a = .ok b := by
  cases first with
  | error e => simp [bind, Except.bind]
  | ok a => simp [bind, Except.bind]

/-- A sequence of two steps fails with the first step, or else with the second. -/
theorem bind_eq_error_iff {first : Except E A} {next : A → Except E B} {e : E} :
    (first >>= next) = .error e ↔ first = .error e ∨ ∃ a, first = .ok a ∧ next a = .error e := by
  cases first with
  | error e' => simp [bind, Except.bind]
  | ok a => simp [bind, Except.bind]

/-- A sequence of two steps fails with the first step, or else for a reason that the second has
whatever it is given. -/
theorem bind_eq_error_iff_of {first : Except E A} {next : A → Except E B} {e : E} {P : Prop}
    (hnext : ∀ a, next a = .error e ↔ P) :
    (first >>= next) = .error e ↔ first = .error e ∨ (∃ a, first = .ok a) ∧ P := by
  simp only [bind_eq_error_iff, hnext, exists_and_right]

/-- A result that is only changed in form is there when the result is. -/
theorem map_eq_ok_iff {result : Except E A} {f : A → B} {b : B} :
    result.map f = .ok b ↔ ∃ a, result = .ok a ∧ f a = b := by
  cases result <;> simp [Except.map]

/-- Changing the form of a result keeps its error. -/
theorem map_eq_error_iff {result : Except E A} {f : A → B} {e : E} :
    result.map f = .error e ↔ result = .error e := by
  cases result <;> simp [Except.map]

/-- Two changes of form are one. -/
theorem map_map_outcome {C : Type} (result : Except E A) (f : A → B) (g : B → C) :
    (result.map f).map g = result.map (g ∘ f) := by
  cases result <;> rfl

/-- What is known to succeed has a value. -/
theorem exists_eq_ok_of_isOk {result : Except E A} (h : result.isOk = true) :
    ∃ a, result = .ok a := by
  cases result with
  | error e => cases h
  | ok a => exact ⟨a, rfl⟩

/-- Traversing a list succeeds when every item does, and keeps their order. -/
theorem mapM_eq_ok_iff {f : A → Except E B} {items : List A} {results : List B} :
    items.mapM f = .ok results ↔
      List.Forall₂ (fun item result => f item = .ok result) items results := by
  induction items generalizing results with
  | nil => cases results <;> simp [pure, Except.pure]
  | cons item rest ih =>
    rw [List.mapM_cons, bind_eq_ok_iff]
    constructor
    · rintro ⟨result, hitem, hrest⟩
      obtain ⟨others, hothers, hpure⟩ := bind_eq_ok_iff.mp hrest
      obtain rfl := Except.ok.inj hpure
      exact List.Forall₂.cons hitem (ih.mp hothers)
    · intro h
      cases h with
      | cons hitem hrest => exact ⟨_, hitem, bind_eq_ok_iff.mpr ⟨_, ih.mpr hrest, rfl⟩⟩

/-- Every result of a traversal is that of an item. -/
theorem exists_of_mem_mapM {f : A → Except E B} {items : List A} {results : List B}
    (h : items.mapM f = .ok results) {result : B} (hresult : result ∈ results) :
    ∃ item ∈ items, f item = .ok result := by
  induction mapM_eq_ok_iff.mp h with
  | nil => cases hresult
  | cons hitem hrest ih =>
    rcases List.mem_cons.mp hresult with rfl | hmem
    · exact ⟨_, List.mem_cons_self, hitem⟩
    · obtain ⟨item, hitems, hsame⟩ := ih (mapM_eq_ok_iff.mpr hrest) hmem
      exact ⟨item, List.mem_cons_of_mem _ hitems, hsame⟩

/-- Traversing a list fails with the error of the first item that fails. -/
theorem mapM_eq_error_iff {f : A → Except E B} {items : List A} {e : E} :
    items.mapM f = .error e ↔ ∃ before item after, items = before ++ item :: after ∧
      (∀ earlier ∈ before, ∃ result, f earlier = .ok result) ∧ f item = .error e := by
  induction items with
  | nil => simp [pure, Except.pure]
  | cons item rest ih =>
    rw [List.mapM_cons, bind_eq_error_iff]
    constructor
    · rintro (hitem | ⟨result, hitem, hrest⟩)
      · exact ⟨[], item, rest, rfl, by simp, hitem⟩
      · rcases bind_eq_error_iff.mp hrest with hrest | ⟨_, _, hpure⟩
        · obtain ⟨before, failing, after, rfl, hbefore, hfailing⟩ := ih.mp hrest
          refine ⟨item :: before, failing, after, rfl, ?_, hfailing⟩
          intro earlier hearlier
          rcases List.mem_cons.mp hearlier with rfl | hearlier
          · exact ⟨result, hitem⟩
          · exact hbefore earlier hearlier
        · cases hpure
    · rintro ⟨before, failing, after, hsplit, hbefore, hfailing⟩
      cases before with
      | nil =>
        obtain ⟨rfl, rfl⟩ := List.cons.inj hsplit
        exact Or.inl hfailing
      | cons earlier before =>
        obtain ⟨rfl, rfl⟩ := List.cons.inj hsplit
        obtain ⟨result, hitem⟩ := hbefore item List.mem_cons_self
        refine Or.inr ⟨result, hitem, bind_eq_error_iff.mpr (Or.inl ?_)⟩
        exact ih.mpr ⟨before, failing, after, rfl,
          fun earlier hearlier => hbefore earlier (List.mem_cons_of_mem _ hearlier), hfailing⟩

/-- Traversing a list succeeds unless one of its items fails. -/
theorem exists_mapM_eq_ok_iff {f : A → Except E B} {items : List A} :
    (∃ results, items.mapM f = .ok results) ↔ ∀ item ∈ items, ∃ result, f item = .ok result := by
  induction items with
  | nil => simp [pure, Except.pure]
  | cons item rest ih =>
    simp only [List.mapM_cons, bind_eq_ok_iff, List.forall_mem_cons, ← ih]
    constructor
    · rintro ⟨_, result, hitem, others, hothers, _⟩
      exact ⟨⟨result, hitem⟩, others, hothers⟩
    · rintro ⟨⟨result, hitem⟩, others, hothers⟩
      exact ⟨_, result, hitem, others, hothers, rfl⟩

/-- Changing the form of each result of a traversal can be done after it. -/
theorem mapM_map_eq_map_mapM {C : Type} (f : A → Except E B) (g : B → C) (items : List A) :
    (items.mapM fun item => (f item).map g) = (items.mapM f).map (List.map g) := by
  induction items with
  | nil => rfl
  | cons item rest ih =>
    rw [List.mapM_cons, List.mapM_cons, ih]
    cases f item with
    | error e => rfl
    | ok result => cases rest.mapM f <;> rfl

/-- What holds item by item from one list to a second and from that to a third holds through it. -/
theorem forall₂_through {C : Type} {R : A → B → Prop} {S : B → C → Prop} {T : A → C → Prop}
    (hthrough : ∀ a b c, R a b → S b c → T a c) {first : List A} {second : List B} {third : List C}
    (hfirst : List.Forall₂ R first second) (hsecond : List.Forall₂ S second third) :
    List.Forall₂ T first third := by
  induction hfirst generalizing third with
  | nil =>
    cases hsecond
    exact List.Forall₂.nil
  | cons hhead _ ih =>
    cases hsecond with
    | cons hhead' htail' => exact List.Forall₂.cons (hthrough _ _ _ hhead hhead') (ih htail')

/-- Traversing related lists with what makes the same of related items is the same. -/
theorem mapM_eq_of_forall₂ {C : Type} {R : A → B → Prop} {first : List A} {second : List B}
    {f : A → Except E C} {g : B → Except E C} (h : List.Forall₂ R first second)
    (hsame : ∀ a b, R a b → f a = g b) : first.mapM f = second.mapM g := by
  induction h with
  | nil => rfl
  | cons hrel _ ih => rw [List.mapM_cons, List.mapM_cons, hsame _ _ hrel, ih]

/-- A required field is there when it has a value. -/
theorem require_eq_ok_iff {field : String} {value : Option A} {a : A} :
    require field value = .ok a ↔ value = some a := by
  cases value <;> simp [require]

/-- A required field fails when it has no value, and then by its name. -/
theorem require_eq_error_iff {field : String} {value : Option A} {e : Error} :
    require field value = .error e ↔ value = none ∧ e = .missing field := by
  cases value <;> simp [require, eq_comm]

/-- Naming the layer changes no success. -/
theorem inLayer_eq_ok_iff {name : String} {result : Except Error A} {a : A} :
    inLayer name result = .ok a ↔ result = .ok a := by
  cases result <;> simp [inLayer, Except.mapError]

/-- Naming the layer and changing the form of a result do not disturb each other. -/
theorem inLayer_map (name : String) (result : Except Error A) (f : A → B) :
    inLayer name (result.map f) = (inLayer name result).map f := by
  cases result <;> rfl

/-- Naming the layer changes nothing but the error. -/
theorem inLayer_eq_error_iff {name : String} {result : Except Error A} {e : Error} :
    inLayer name result = .error e ↔ ∃ cause, result = .error cause ∧ cause.inLayer name = e := by
  cases result <;> simp [inLayer, Except.mapError]

end Carta
