import Carta.Proofs.Redraws

/-!
# Tasks that are settled

When a task has been performed, all is there that it makes, or something stands against it for good.
Other tasks do not undo this, since their mapfiles have other places. So performing tasks a second
time changes nothing, and the same ones fail.
-/

namespace Carta.Command

open Storage (Location Occupant LeadsTo withWay)

namespace Errand

/-- An errand that has come to its end: it is done, or something keeps it from being done for good. -/
inductive Settled (place : Location) (errand : Errand) (occupant? : Location → Option Occupant) :
    Bool → Prop
  | done {content : List UInt8} (hreachable : errand.reachable = true)
    (hway : ∀ before, before <+: errand.directories → occupant? (place ++ before) = some .directory)
    (hcontent : errand.content? = some content)
    (hgoal : occupant? (errand.goal place) = some (.file content)) : Settled place errand occupant? true
  | unreachable (h : errand.reachable = false) : Settled place errand occupant? false
  | blocked {before : List Name} {content : List UInt8} (hbefore : before <+: errand.directories)
    (hfile : occupant? (place ++ before) = some (.file content)) :
    Settled place errand occupant? false
  | contentless
    (hway : ∀ before, before <+: errand.directories → occupant? (place ++ before) = some .directory)
    (hcontent : errand.content? = none) : Settled place errand occupant? false
  | occupied
    (hway : ∀ before, before <+: errand.directories → occupant? (place ++ before) = some .directory)
    (hgoal : occupant? (errand.goal place) = some .directory) : Settled place errand occupant? false

variable {place : Location} {errand other : Errand} {occupant? : Location → Option Occupant} {ok : Bool}

/-- A way of directories is not changed by making it. -/
theorem withWay_of_way {names : List Name}
    (h : ∀ before, before <+: names → occupant? (place ++ before) = some .directory) :
    withWay occupant? place names = occupant? := by
  funext location
  rw [withWay]
  split
  next hbetween =>
    obtain ⟨before, rfl⟩ := hbetween.1
    exact (h before ((List.prefix_append_right_inj _).mp hbetween.2)).symm
  next => rfl

/-- On a way that is made there are directories. -/
theorem withWay_of_isPrefix {before names : List Name} (h : before <+: names) :
    withWay occupant? place names (place ++ before) = some .directory :=
  if_pos ⟨List.prefix_append _ _, (List.prefix_append_right_inj place).mpr h⟩

/-- No file stands in a way of directories. -/
theorem unblocked_of_way {names : List Name}
    (h : ∀ before, before <+: names → occupant? (place ++ before) = some .directory) :
    Storage.Unblocked occupant? place names := by
  intro before hbefore content
  simp [h before hbefore]

/-- Whether a settled errand succeeds is settled. -/
theorem Settled.succeeds_iff (h : Settled place errand occupant? ok) :
    errand.Succeeds place occupant? ↔ ok = true := by
  cases h with
  | done hreachable hway hcontent hgoal =>
    refine iff_of_true ⟨⟨hreachable, unblocked_of_way hway⟩, ?_, ?_⟩ rfl
    · rw [hcontent]
      rfl
    · simp [hgoal]
  | unreachable h =>
    exact iff_of_false (fun hsucceeds => Bool.false_ne_true (h.symm.trans hsucceeds.1.1)) nofun
  | @blocked before content hbefore hfile =>
    exact iff_of_false (fun hsucceeds => hsucceeds.1.2 before hbefore content hfile) nofun
  | contentless hway hcontent =>
    refine iff_of_false (fun hsucceeds => ?_) nofun
    obtain ⟨-, hsome, -⟩ := hsucceeds
    simp [hcontent] at hsome
  | occupied hway hgoal => exact iff_of_false (fun hsucceeds => hsucceeds.2.2 hgoal) nofun

/-- A settled errand does nothing more. -/
theorem Settled.after_eq (h : Settled place errand occupant? ok) :
    errand.after place occupant? = occupant? := by
  have hsucceeds := h.succeeds_iff
  cases h with
  | done hreachable hway hcontent hgoal =>
    rw [after_of_succeeds (hsucceeds.mpr rfl), withWay_of_way hway, hcontent]
    exact Function.update_eq_self_iff.mpr hgoal.symm
  | unreachable h =>
    exact after_of_not_isOpen fun hopen => Bool.false_ne_true (h.symm.trans hopen.1)
  | @blocked before content hbefore hfile =>
    exact after_of_not_isOpen fun hopen => hopen.2 before hbefore content hfile
  | contentless hway hcontent =>
    by_cases hopen : errand.IsOpen place occupant?
    · rw [after_of_not_succeeds hopen (hsucceeds.not.mpr nofun), withWay_of_way hway]
    · exact after_of_not_isOpen hopen
  | occupied hway hgoal =>
    by_cases hopen : errand.IsOpen place occupant?
    · rw [after_of_not_succeeds hopen (hsucceeds.not.mpr nofun), withWay_of_way hway]
    · exact after_of_not_isOpen hopen

/-- An errand is settled when it has been run. -/
theorem settled_after (hok : errand.Succeeds place occupant? ↔ ok = true) :
    Settled place errand (errand.after place occupant?) ok := by
  cases ok with
  | true =>
    have hsucceeds := hok.mpr rfl
    obtain ⟨content, hcontent⟩ := Option.isSome_iff_exists.mp hsucceeds.2.1
    refine .done hsucceeds.1.1 (fun before hbefore => ?_) hcontent ?_
    · rw [after_of_succeeds hsucceeds, Function.update_of_ne, withWay_of_isPrefix hbefore]
      exact fun hgoal => goal_not_isPrefix hbefore (by rw [hgoal])
    · rw [after_goal hsucceeds, hcontent]
      rfl
  | false =>
    have hfails : ¬ errand.Succeeds place occupant? := fun h => Bool.false_ne_true (hok.mp h)
    by_cases hopen : errand.IsOpen place occupant?
    · rw [after_of_not_succeeds hopen hfails]
      have hway (before : List Name) (hbefore : before <+: errand.directories) :
          withWay occupant? place errand.directories (place ++ before) = some .directory :=
        withWay_of_isPrefix hbefore
      cases hcontent : errand.content? with
      | none => exact .contentless hway hcontent
      | some content =>
        refine .occupied hway ?_
        rw [withWay_goal]
        by_contra hgoal
        exact hfails ⟨hopen, by rw [hcontent]; rfl, hgoal⟩
    · rw [after_of_not_isOpen hopen]
      cases hreachable : errand.reachable with
      | false => exact .unreachable hreachable
      | true =>
        obtain ⟨before, hbefore, content, hfile⟩ : ∃ before, before <+: errand.directories ∧
            ∃ content, occupant? (place ++ before) = some (.file content) := by
          by_contra hnone
          push Not at hnone
          exact hopen ⟨hreachable, hnone⟩
        exact .blocked hbefore hfile

/-- Where a file is, an errand leaves a file. -/
theorem exists_after_eq_file {location : Location} {content : List UInt8}
    (h : occupant? location = some (.file content)) :
    ∃ content', errand.after place occupant? location = some (.file content') := by
  by_cases hgoal : errand.Succeeds place occupant? ∧ location = errand.goal place
  · obtain ⟨hsucceeds, rfl⟩ := hgoal
    obtain ⟨content', hcontent⟩ := Option.isSome_iff_exists.mp hsucceeds.2.1
    exact ⟨content', by rw [after_goal hsucceeds, hcontent]; rfl⟩
  · exact ⟨content, (after_eq_file_iff fun hsucceeds heq => hgoal ⟨hsucceeds, heq⟩).mpr h⟩

/-- An errand to another place leaves an errand settled. -/
theorem Settled.after_other (h : Settled place errand occupant? ok)
    (hgoal : errand.goal place ≠ other.goal place) :
    Settled place errand (other.after place occupant?) ok := by
  cases h with
  | done hreachable hway hcontent hthere =>
    refine .done hreachable (fun before hbefore => after_directory (hway before hbefore)) hcontent ?_
    exact (after_eq_file_iff fun _ => hgoal).mpr hthere
  | unreachable h => exact .unreachable h
  | blocked hbefore hfile =>
    obtain ⟨content, hfile⟩ := exists_after_eq_file hfile
    exact .blocked hbefore hfile
  | contentless hway hcontent =>
    exact .contentless (fun before hbefore => after_directory (hway before hbefore)) hcontent
  | occupied hway hthere =>
    exact .occupied (fun before hbefore => after_directory (hway before hbefore))
      (after_directory hthere)

/-- An errand changes nothing outside of the directory it is below. -/
theorem after_outside {location : Location} (h : ¬ place <+: location) :
    errand.after place occupant? location = occupant? location := by
  have hgoal : ¬ (errand.Succeeds place occupant? ∧ location = errand.goal place) := by
    rintro ⟨-, rfl⟩
    rw [goal, List.append_assoc] at h
    exact h (List.prefix_append _ _)
  have hway : withWay occupant? place errand.directories location = occupant? location :=
    if_neg fun hbetween => h hbetween.1
  rw [after, if_neg hgoal, hway, ite_self]

end Errand

section Perform

variable {arguments : Arguments} {storage : Storage} {place : Location} {task first : Task}
  {tasks rest : List Task}

/-- A task that has come to its end, with success or without. -/
def Settled (arguments : Arguments) (place : Location) (storage : Storage) (task : Task) (ok : Bool) :
    Prop :=
  (errandOf arguments storage task).Settled place storage.root.occupant? ok

/-- A task is settled whatever is drawn. -/
theorem Settled.redraw {ok : Bool} (h : Settled arguments place storage task ok)
    (draws : Path → Storage.Suffix) : Settled arguments place (storage.redraw draws) task ok := by
  rw [Settled, errandOf_redraw]
  exact h

/-- The errand of a task has the place of its mapfile for its goal. -/
theorem IsReady.goal_errandOf (h : IsReady arguments storage task) :
    (errandOf arguments storage task).goal place = task.goal arguments.output place := by
  obtain ⟨directories, name, haimed⟩ := h.aimed
  exact Command.goal_errandOf haimed place

/-- A task does what its errand does. -/
theorem IsReady.perform_eq (h : IsReady arguments storage task) (hordered : storage.root.Ordered)
    (hleads : storage.LeadsTo arguments.output place) :
    ∃ root : Storage.Node, (perform arguments storage task).2 = { storage with root } ∧
      root.Ordered ∧
      root.occupant? = (errandOf arguments storage task).after place storage.root.occupant? ∧
      ((perform arguments storage task).1.isOk = true ↔
        (errandOf arguments storage task).Succeeds place storage.root.occupant?) := by
  obtain ⟨directories, name, haimed⟩ := h.aimed
  exact perform_eq_errand haimed hordered hleads h.steady h.project

/-- Performing a settled task changes nothing. -/
theorem perform_of_settled (hready : IsReady arguments storage task)
    (hordered : storage.root.Ordered) (hleads : storage.LeadsTo arguments.output place) {ok : Bool}
    (h : Settled arguments place storage task ok) :
    (perform arguments storage task).2 = storage ∧
      (perform arguments storage task).1.isOk = ok := by
  obtain ⟨root, hafter, hroot, hoccupant, hok⟩ := hready.perform_eq hordered hleads
  rw [h.after_eq] at hoccupant
  rw [h.succeeds_iff] at hok
  obtain rfl := Storage.Node.eq_of_occupant?_eq hroot hordered hoccupant
  exact ⟨hafter, Bool.eq_iff_iff.mpr hok⟩

/-- Performing settled tasks changes nothing, and those fail that are settled without success. -/
theorem performAll_of_settled {failed : List Task}
    (hready : ∀ task ∈ tasks, IsReady arguments storage task) (hordered : storage.root.Ordered)
    (hleads : storage.LeadsTo arguments.output place)
    (h : ∀ task ∈ tasks, Settled arguments place storage task (decide (task ∉ failed))) :
    performAll arguments storage tasks = (tasks.filter (· ∈ failed), storage) := by
  induction tasks with
  | nil => rfl
  | cons task rest ih =>
    rw [List.forall_mem_cons] at hready h
    obtain ⟨hsame, hok⟩ := perform_of_settled hready.1 hordered hleads h.1
    rw [performAll_cons, hsame, hok, ih hready.2 h.2]
    by_cases hfailed : task ∈ failed
    · rw [List.filter_cons_of_pos (by simpa using hfailed)]
      simp [hfailed]
    · rw [List.filter_cons_of_neg (by simpa using hfailed)]
      simp [hfailed]

section First

variable (hready : ∀ other ∈ first :: rest, IsReady arguments storage other)
  (hordered : storage.root.Ordered) (hleads : storage.LeadsTo arguments.output place)

include hready hordered hleads

/-- What a task comes to is what it would come to before another one is performed. -/
theorem errandOf_perform : ∀ other ∈ rest,
    errandOf arguments (perform arguments storage first).2 other = errandOf arguments storage other := by
  intro other hother
  obtain ⟨-, hcontent⟩ := isReady_perform hready hordered hleads other hother
  rw [errandOf, errandOf, hcontent]

/-- A task that has been performed is settled. -/
theorem settled_perform : Settled arguments place (perform arguments storage first).2 first
    (perform arguments storage first).1.isOk := by
  have hfirst := hready first List.mem_cons_self
  obtain ⟨root, hafter, -, hoccupant, hok⟩ := hfirst.perform_eq hordered hleads
  have hboth : ∀ other ∈ first :: [first], IsReady arguments storage other := by simpa using hfirst
  have hsame := errandOf_perform hboth hordered hleads first (List.mem_singleton_self first)
  rw [Settled, hsame, hafter, hoccupant]
  exact Errand.settled_after hok.symm

/-- A settled task stays settled when one with another place is performed. -/
theorem Settled.perform {ok : Bool} (hmem : task ∈ rest) (h : Settled arguments place storage task ok)
    (hgoal : first.goal arguments.output place ≠ task.goal arguments.output place) :
    Settled arguments place (perform arguments storage first).2 task ok := by
  obtain ⟨root, hafter, -, hoccupant, -⟩ :=
    (hready first List.mem_cons_self).perform_eq hordered hleads
  have hsame := errandOf_perform hready hordered hleads task hmem
  rw [Settled, hsame, hafter, hoccupant]
  refine Errand.Settled.after_other h ?_
  rw [(hready task (List.mem_cons_of_mem _ hmem)).goal_errandOf,
    (hready first List.mem_cons_self).goal_errandOf]
  exact hgoal.symm

end First

/-- A settled task stays settled when tasks with other places are performed. -/
theorem Settled.performAll {ok : Bool}
    (hready : ∀ other ∈ task :: tasks, IsReady arguments storage other)
    (hordered : storage.root.Ordered) (hleads : storage.LeadsTo arguments.output place)
    (hgoals : ∀ other ∈ tasks, task.goal arguments.output place ≠ other.goal arguments.output place)
    (h : Settled arguments place storage task ok) :
    Settled arguments place (performAll arguments storage tasks).2 task ok := by
  induction tasks generalizing storage with
  | nil => exact h
  | cons first rest ih =>
    rw [List.forall_mem_cons] at hgoals
    have hmoved : ∀ other ∈ first :: task :: rest, IsReady arguments storage other := fun other hother =>
      hready other ((List.Perm.swap task first rest).mem_iff.mp hother)
    obtain ⟨hgrows, -⟩ := perform_grows (hmoved first List.mem_cons_self) hordered hleads
    rw [performAll_cons]
    exact ih (fun other hother => (isReady_perform hmoved hordered hleads other hother).1)
      (hgrows.ordered hordered) (hgrows.leadsTo hleads) hgoals.2
      (h.perform hmoved hordered hleads List.mem_cons_self hgoals.1.symm)

/-- Tasks that have been performed are settled, those that failed without success. -/
theorem settled_performAll (hready : ∀ task ∈ tasks, IsReady arguments storage task)
    (hdistinct : tasks.Pairwise fun first second =>
      first.goal arguments.output place ≠ second.goal arguments.output place)
    (hordered : storage.root.Ordered) (hleads : storage.LeadsTo arguments.output place) :
    ∀ task ∈ tasks, Settled arguments place (performAll arguments storage tasks).2 task
      (decide (task ∉ (performAll arguments storage tasks).1)) := by
  induction tasks generalizing storage with
  | nil => exact nofun
  | cons first rest ih =>
    obtain ⟨hfirst, hrest⟩ := List.pairwise_cons.mp hdistinct
    obtain ⟨hgrows, -⟩ := perform_grows (hready first List.mem_cons_self) hordered hleads
    have hagain : ∀ other ∈ first :: first :: rest, IsReady arguments storage other :=
      List.forall_mem_cons.mpr ⟨hready first List.mem_cons_self, hready⟩
    have hall := fun other hother => (isReady_perform hagain hordered hleads other hother).1
    have hready' := fun other hother => hall other (List.mem_cons_of_mem first hother)
    have hothers := ih hready' hrest (hgrows.ordered hordered) (hgrows.leadsTo hleads)
    have hnew : first ∉ rest := fun hmem => hfirst first hmem rfl
    have hfailed := (performAll_grows hready' hrest (hgrows.ordered hordered)
      (hgrows.leadsTo hleads)).sublist.subset
    rw [performAll_cons, List.forall_mem_cons]
    constructor
    · have hsettled := (settled_perform hready hordered hleads).performAll hall
        (hgrows.ordered hordered) (hgrows.leadsTo hleads) hfirst
      have hnone : first ∉ (performAll arguments (perform arguments storage first).2 rest).1 :=
        fun hmem => hnew (hfailed hmem)
      cases hok : (perform arguments storage first).1.isOk with
      | true => simpa [hok, hnone] using hsettled
      | false => simpa [hok] using hsettled
    · intro other hother
      have hne : other ≠ first := fun heq => hnew (heq ▸ hother)
      have hsame := hothers other hother
      cases hok : (perform arguments storage first).1.isOk with
      | true => simpa using hsame
      | false => simpa [hne] using hsame

/-- Performing tasks changes nothing outside of the output directory. -/
theorem performAll_outside (hready : ∀ task ∈ tasks, IsReady arguments storage task)
    (hordered : storage.root.Ordered) (hleads : storage.LeadsTo arguments.output place)
    {location : Location} (h : ¬ place <+: location) :
    (performAll arguments storage tasks).2.root.occupant? location =
      storage.root.occupant? location := by
  induction tasks generalizing storage with
  | nil => rfl
  | cons first rest ih =>
    obtain ⟨hgrows, -⟩ := perform_grows (hready first List.mem_cons_self) hordered hleads
    obtain ⟨root, hafter, -, hoccupant, -⟩ :=
      (hready first List.mem_cons_self).perform_eq hordered hleads
    rw [performAll_cons, ih (fun other hother =>
      (isReady_perform hready hordered hleads other hother).1) (hgrows.ordered hordered)
      (hgrows.leadsTo hleads), hafter]
    exact (congrFun hoccupant location).trans (Errand.after_outside h)

end Perform

end Carta.Command
