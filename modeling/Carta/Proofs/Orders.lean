import Carta.Proofs.Completion

/-!
# In which order tasks are performed

Two errands whose goals are not one below the other have nothing to do with each other: each of them
succeeds or not whether or not the other one comes first, and both together have the same effect. So
tasks whose mapfiles are not one below the other can be performed in any order. Where the mapfile of
one is to be a directory above that of another, the first of them that comes keeps the other from
being made.
-/

namespace Carta.Command

open Storage (Location Occupant Unblocked withWay)

namespace Errand

variable {place : Location} {first second errand : Errand}
  {occupant? : Location → Option Occupant}

/-- Neither of two goals is the other one or below it. -/
def Apart (place : Location) (first second : Errand) : Prop :=
  ¬ first.goal place <+: second.goal place ∧ ¬ second.goal place <+: first.goal place

/-- Two tasks are apart from each other in either order. -/
theorem Apart.symm (h : Apart place first second) : Apart place second first :=
  And.symm h

/-- Tasks that are apart have different goals. -/
theorem Apart.goal_ne (h : Apart place first second) : first.goal place ≠ second.goal place :=
  fun heq => h.1 (heq ▸ List.prefix_rfl)

/-- The way to a goal is the beginning of the goal. -/
theorem isPrefix_goal {names : List Name} (h : names <+: errand.directories) :
    place ++ names <+: errand.goal place := by
  rw [goal, List.append_assoc, List.prefix_append_right_inj]
  exact h.trans (List.prefix_append _ _)

/-- An errand that does not succeed leaves what is at its goal. -/
theorem after_goal_of_not_succeeds (h : ¬ errand.Succeeds place occupant?) :
    errand.after place occupant? (errand.goal place) = occupant? (errand.goal place) := by
  by_cases hopen : errand.IsOpen place occupant?
  · rw [after_of_not_succeeds hopen h, withWay_goal]
  · rw [after_of_not_isOpen hopen]

open Classical in
/-- Elsewhere an errand that is open makes directories on its way. -/
theorem after_of_ne {location : Location} (h : location ≠ errand.goal place) :
    errand.after place occupant? location =
      if errand.IsOpen place occupant? ∧
          place <+: location ∧ location <+: place ++ errand.directories then some .directory
      else occupant? location := by
  rw [after, if_neg fun hgoal => h hgoal.2]
  by_cases hopen : errand.IsOpen place occupant?
  · rw [if_pos hopen, withWay]
    simp only [hopen, true_and]
  · rw [if_neg hopen, if_neg fun hway => hopen hway.1]

section Apart

variable (h : Apart place first second)

include h

/-- An errand leaves what is at the goal of another one. -/
theorem Apart.after_goal_eq : second.after place occupant? (first.goal place) =
    occupant? (first.goal place) := by
  rw [after_of_ne h.goal_ne, if_neg]
  rintro ⟨-, -, hway⟩
  exact h.1 (hway.trans (isPrefix_goal List.prefix_rfl))

/-- An errand is as open after another one as before. -/
theorem Apart.isOpen_iff :
    first.IsOpen place (second.after place occupant?) ↔ first.IsOpen place occupant? := by
  refine and_congr_right' (forall₃_congr fun before hbefore content => not_congr ?_)
  refine after_eq_file_iff fun _ hgoal => h.2 ?_
  rw [← hgoal]
  exact isPrefix_goal hbefore

/-- An errand succeeds after another one when it does before. -/
theorem Apart.succeeds_iff :
    first.Succeeds place (second.after place occupant?) ↔ first.Succeeds place occupant? := by
  rw [Succeeds, Succeeds, h.isOpen_iff, h.after_goal_eq]

/-- What two errands leave at the goal of the first of them. -/
theorem Apart.after_after_goal :
    first.after place (second.after place occupant?) (first.goal place) =
      second.after place (first.after place occupant?) (first.goal place) := by
  rw [h.after_goal_eq]
  by_cases hsucceeds : first.Succeeds place occupant?
  · rw [after_goal hsucceeds, after_goal (h.succeeds_iff.mpr hsucceeds)]
  · rw [after_goal_of_not_succeeds hsucceeds,
      after_goal_of_not_succeeds (mt h.succeeds_iff.mp hsucceeds), h.after_goal_eq]

/-- Two errands whose goals are apart have the same effect in either order. -/
theorem Apart.after_comm :
    first.after place (second.after place occupant?) =
      second.after place (first.after place occupant?) := by
  funext location
  by_cases hfirst : location = first.goal place
  · subst hfirst
    exact h.after_after_goal
  by_cases hsecond : location = second.goal place
  · subst hsecond
    exact h.symm.after_after_goal.symm
  -- Elsewhere both make directories on their ways.
  rw [after_of_ne hfirst, after_of_ne hsecond, after_of_ne hsecond, after_of_ne hfirst, h.isOpen_iff,
    h.symm.isOpen_iff]
  split_ifs <;> rfl

end Apart

end Errand

section

variable {arguments : Arguments} {storage : Storage} {place : Location} {first second : Task}
  {tasks : List Task}

/-- Neither of the mapfiles of two tasks is the other one or below it. -/
def Task.Apart (output : Path) (first second : Task) : Prop :=
  ¬ first.names output <+: second.names output ∧ ¬ second.names output <+: first.names output

/-- Tasks that can be performed in any order. -/
structure AreApart (arguments : Arguments) (place : Location) (storage : Storage)
    (tasks : List Task) : Prop where
  ready : ∀ task ∈ tasks, IsReady arguments storage task
  apart : tasks.Pairwise (Task.Apart arguments.output)
  ordered : storage.root.Ordered
  leadsTo : storage.LeadsTo arguments.output place

namespace AreApart

/-- Tasks that are apart are so in any order. -/
theorem of_perm {others : List Task} (h : AreApart arguments place storage tasks)
    (hperm : others.Perm tasks) : AreApart arguments place storage others where
  ready task htask := h.ready task (hperm.mem_iff.mp htask)
  apart := (hperm.pairwise_iff fun hapart => And.symm hapart).mpr h.apart
  ordered := h.ordered
  leadsTo := h.leadsTo

/-- Tasks can be performed in any order after one of them. -/
theorem perform (h : AreApart arguments place storage (first :: tasks)) :
    AreApart arguments place (perform arguments storage first).2 tasks := by
  obtain ⟨hgrows, -⟩ := perform_grows (h.ready first List.mem_cons_self) h.ordered h.leadsTo
  exact ⟨fun task htask => (isReady_perform h.ready h.ordered h.leadsTo task htask).1,
    (List.pairwise_cons.mp h.apart).2, hgrows.ordered h.ordered, hgrows.leadsTo h.leadsTo⟩

/-- The errand of a task is the same after another task. -/
theorem errandOf_eq (h : AreApart arguments place storage (first :: second :: tasks)) :
    errandOf arguments (Command.perform arguments storage first).2 second =
      errandOf arguments storage second := by
  rw [errandOf, errandOf,
    (isReady_perform h.ready h.ordered h.leadsTo second List.mem_cons_self).2]

/-- What a task does is what its errand does. -/
theorem exists_root (h : AreApart arguments place storage (first :: tasks)) : ∃ root,
    (Command.perform arguments storage first).2 = { storage with root } ∧ root.Ordered ∧
    root.occupant? = (errandOf arguments storage first).after place storage.root.occupant? ∧
    ((Command.perform arguments storage first).1.isOk = true ↔
      (errandOf arguments storage first).Succeeds place storage.root.occupant?) := by
  have hready := h.ready first List.mem_cons_self
  obtain ⟨directories, name, haimed⟩ := hready.aimed
  exact perform_eq_errand haimed h.ordered h.leadsTo hready.steady hready.project

/-- The errands of tasks whose mapfiles are apart are apart. -/
theorem errands_apart (h : AreApart arguments place storage (first :: second :: tasks)) :
    (errandOf arguments storage first).Apart place (errandOf arguments storage second) := by
  obtain ⟨hready, hother, -⟩ : _ ∧ _ ∧ _ := by simpa using h.ready
  obtain ⟨directories, name, haimed⟩ := hready.aimed
  obtain ⟨directories', name', haimed'⟩ := hother.aimed
  have hapart := (List.pairwise_cons.mp h.apart).1 second List.mem_cons_self
  rw [Errand.Apart, goal_errandOf haimed, goal_errandOf haimed', Task.goal, Task.goal,
    List.prefix_append_right_inj, List.prefix_append_right_inj]
  exact hapart

/-- Two tasks do the same in either order, and each of them fails or not. -/
theorem perform_comm (h : AreApart arguments place storage (first :: second :: tasks)) :
    (Command.perform arguments (Command.perform arguments storage first).2 second).2 =
      (Command.perform arguments (Command.perform arguments storage second).2 first).2 ∧
    (Command.perform arguments (Command.perform arguments storage first).2 second).1.isOk =
      (Command.perform arguments storage second).1.isOk := by
  have hswap : AreApart arguments place storage (second :: first :: tasks) :=
    h.of_perm (.swap _ _ _)
  obtain ⟨root₁, hfirst, -, hoccupant₁, -⟩ := h.exists_root
  obtain ⟨root₂, hsecond, -, hoccupant₂, hok₂⟩ := hswap.exists_root
  obtain ⟨root₁₂, hboth, hordered, hoccupant₁₂, hok₁₂⟩ := h.perform.exists_root
  obtain ⟨root₂₁, hboth', hordered', hoccupant₂₁, -⟩ := hswap.perform.exists_root
  rw [h.errandOf_eq, hfirst] at hoccupant₁₂ hok₁₂
  rw [hswap.errandOf_eq, hsecond] at hoccupant₂₁
  dsimp only at hoccupant₁₂ hoccupant₂₁ hok₁₂
  rw [hoccupant₁] at hoccupant₁₂ hok₁₂
  rw [hoccupant₂] at hoccupant₂₁
  have hroots : root₁₂ = root₂₁ := by
    refine Storage.Node.eq_of_occupant?_eq hordered hordered' ?_
    rw [hoccupant₁₂, hoccupant₂₁, h.errands_apart.after_comm]
  constructor
  · rw [hboth, hboth', hroots, hfirst, hsecond]
  · rw [Bool.eq_iff_iff, hfirst, hok₁₂, hok₂, h.errands_apart.symm.succeeds_iff]

end AreApart

/-- Tasks whose mapfiles are not one below the other come to the same in every order. -/
theorem performAll_perm {others : List Task} (hperm : tasks.Perm others)
    (h : AreApart arguments place storage tasks) :
    (performAll arguments storage tasks).2 = (performAll arguments storage others).2 ∧
      (performAll arguments storage tasks).1.Perm (performAll arguments storage others).1 := by
  induction hperm generalizing storage with
  | nil => exact ⟨rfl, .refl _⟩
  | @cons task tasks others hperm ih =>
    obtain ⟨hafter, hfailed⟩ := ih h.perform
    rw [performAll_cons, performAll_cons]
    refine ⟨hafter, ?_⟩
    dsimp only
    split
    next => exact hfailed
    next => exact hfailed.cons task
  | swap first second rest =>
    have hswap := h.of_perm (.swap _ _ _)
    obtain ⟨hsame, hsecond⟩ := h.perform_comm
    obtain ⟨-, hfirst⟩ := hswap.perform_comm
    rw [performAll_cons, performAll_cons, performAll_cons, performAll_cons, hsame, hsecond, hfirst]
    refine ⟨rfl, ?_⟩
    dsimp only
    split
    next => exact .refl _
    next =>
      split
      next => exact .refl _
      next => exact .swap _ _ _
  | trans hfirst _ ih ih' =>
    obtain ⟨hafter, hfailed⟩ := ih h
    obtain ⟨hafter', hfailed'⟩ := ih' (h.of_perm hfirst.symm)
    exact ⟨hafter.trans hafter', hfailed.trans hfailed'⟩

/-- Names that lead further lead to paths with more components. -/
theorem isPrefix_components (hfirst : IsReady arguments storage first)
    (hsecond : IsReady arguments storage second)
    (h : first.names arguments.output <+: second.names arguments.output) :
    first.mapFile.components <+: second.mapFile.components := by
  obtain ⟨directories, name, haimed⟩ := hfirst.aimed
  obtain ⟨directories', name', haimed'⟩ := hsecond.aimed
  rw [haimed.names_eq, haimed'.names_eq] at h
  rw [Path.components, Path.components, haimed.parts, haimed'.parts]
  exact ((List.prefix_append_right_inj _).mpr (h.map _)).filterMap _

/-- No mapfile of a run is planned at the path of another one or above it. -/
def NoneAbove (tasks : List Task) : Prop :=
  ∀ first ∈ tasks, ∀ second ∈ tasks,
    first.mapFile.components <+: second.mapFile.components → first = second

instance (tasks : List Task) : Decidable (NoneAbove tasks) :=
  inferInstanceAs (Decidable (∀ first ∈ tasks, ∀ second ∈ tasks, _ → _))

/-- The tasks of a run are apart when no mapfile is above another one. -/
theorem Course.areApart {prepared after : Storage} {failed : List Task}
    (course : Course arguments place prepared tasks failed after) (h : NoneAbove tasks) :
    AreApart arguments place prepared tasks where
  ready := course.ready
  apart := by
    refine course.distinct.imp_of_mem fun {first second} hfirst hsecond hne => ?_
    have hdifferent : first ≠ second := fun heq => hne (by rw [heq])
    have hready := course.ready first hfirst
    have hother := course.ready second hsecond
    constructor
    · exact fun hpre => hdifferent (h first hfirst second hsecond
        (isPrefix_components hready hother hpre))
    · exact fun hpre => hdifferent (h second hsecond first hfirst
        (isPrefix_components hother hready hpre)).symm
  ordered := course.prepared_wellFormed.ordered
  leadsTo := course.leadsTo

end

/-- The tasks of a run come to the same tree, and the same of them fail, in whatever order they are
performed, unless the mapfile of one is planned above that of another. -/
theorem performAll_apart {words : List Name} {arguments : Arguments}
    (hwords : Arguments.ofWords words = .ok arguments) {storage : Storage}
    (hwell : storage.WellFormed) {tasks : List Task}
    (hplanned : plannedTasks? arguments storage = some tasks) (hnone : NoneAbove tasks)
    {order other : List Task} (horder : order.Perm tasks) (hother : other.Perm tasks) :
    (performAll arguments (storage.makeDirectories arguments.output).2 order).2 =
      (performAll arguments (storage.makeDirectories arguments.output).2 other).2 ∧
    (performAll arguments (storage.makeDirectories arguments.output).2 order).1.Perm
      (performAll arguments (storage.makeDirectories arguments.output).2 other).1 := by
  obtain ⟨-, houtput⟩ := Arguments.text_ne_empty_of_ofWords hwords
  obtain ⟨place, course⟩ := exists_course .asPlanned hwell houtput hplanned
  exact performAll_perm (horder.trans hother.symm) ((course.areApart hnone).of_perm horder)

/-- The fields come to the same when the survey comes first. -/
theorem fieldsStorage_apart :
    Arguments.ofWords ["fields", "-o", "maps"] = .ok fieldsArguments ∧ fieldsStorage.WellFormed ∧
    plannedTasks? fieldsArguments fieldsStorage = some fieldsTasks ∧ NoneAbove fieldsTasks ∧
    (performAll fieldsArguments (fieldsStorage.makeDirectories ⟨"maps"⟩).2 fieldsTasks).2 =
      (performAll fieldsArguments (fieldsStorage.makeDirectories ⟨"maps"⟩).2 fieldsTasks.reverse).2 ∧
    (performAll fieldsArguments (fieldsStorage.makeDirectories ⟨"maps"⟩).2 fieldsTasks).1.Perm
      (performAll fieldsArguments (fieldsStorage.makeDirectories ⟨"maps"⟩).2
        fieldsTasks.reverse).1 := by
  have hwords : Arguments.ofWords ["fields", "-o", "maps"] = .ok fieldsArguments := rfl
  have hwell : fieldsStorage.WellFormed := .of_check (by decide +kernel)
  have hnone : NoneAbove fieldsTasks := by decide +kernel
  exact ⟨hwords, hwell, plannedTasks?_fields, hnone,
    performAll_apart hwords hwell plannedTasks?_fields hnone (.refl _) (List.reverse_perm _)⟩

/-- Fields with a directory that is called like a mapfile. -/
def nestedStorage : Storage where
  root := .directory
    [("fields", .directory
      [("a.map", .directory [("b.qgs", .file Mapfile.surveyDocument.root.serialize)]),
        ("a.qgs", .file Mapfile.surveyDocument.root.serialize)]),
      ("maps", .directory [])]

/-- The tasks of a run on these fields. The mapfile of the second one is above that of the first. -/
def nestedTasks : List Task :=
  [⟨⟨"fields/a.map/b.qgs"⟩, ⟨"maps/a.map/b.map"⟩⟩, ⟨⟨"fields/a.qgs"⟩, ⟨"maps/a.map"⟩⟩]

/-- The output of the nested fields is there. -/
theorem leadsTo_nested : nestedStorage.LeadsTo ⟨"maps"⟩ ["maps"] :=
  ⟨by decide +kernel, rfl⟩

/-- The projects that are found below the nested fields. -/
theorem collectProjects_nested :
    collectProjects nestedStorage ⟨"fields"⟩ = .ok (nestedTasks.map (·.project)) := by
  have hlocate : nestedStorage.locate ⟨"fields"⟩ = .ok ["fields"] := by decide +kernel
  have hentries := Storage.open?_eq_ok_iff.mpr ⟨_, hlocate, rfl⟩
  have hinner : projectsAmong ⟨"fields/a.map"⟩
      [("b.qgs", .file Mapfile.surveyDocument.root.serialize)] = [⟨"fields/a.map/b.qgs"⟩] := by
    decide +kernel
  have hlast : projectsAmong ⟨"fields"⟩
      [("a.qgs", .file Mapfile.surveyDocument.root.serialize)] = [⟨"fields/a.qgs"⟩] := by
    decide +kernel
  have hjoin : (⟨"fields"⟩ : Path).join ⟨"a.map"⟩ = ⟨"fields/a.map"⟩ := by decide +kernel
  have hfault : Storage.pathFault? ⟨"fields/a.map"⟩ = none := by decide +kernel
  have hsorted : sortPaths (nestedTasks.map (·.project)) = nestedTasks.map (·.project) :=
    List.mergeSort_of_pairwise (by decide +kernel)
  have hone : sortPaths [⟨"fields/a.map/b.qgs"⟩] = [⟨"fields/a.map/b.qgs"⟩] :=
    List.mergeSort_singleton _
  rw [collectProjects, Storage.entries, hentries]
  simp only [bind, Except.bind]
  rw [projectsAmong, hjoin, hlast, projectsBelow, hinner, hone, hfault]
  exact congrArg Except.ok hsorted

/-- What is planned for the nested fields. -/
theorem plannedTasks?_nested : plannedTasks? fieldsArguments nestedStorage = some nestedTasks := by
  have hmade : nestedStorage.makeDirectories fieldsArguments.output = (.ok (), nestedStorage) :=
    leadsTo_nested.makeDirectories
  have hfile : nestedStorage.isFile fieldsArguments.input = false := by decide +kernel
  have hprojects : collectProjects nestedStorage fieldsArguments.input =
      .ok (nestedTasks.map (·.project)) := collectProjects_nested
  have hplan : (planOutputs fieldsArguments.input (nestedTasks.map (·.project))
      fieldsArguments.output).toOption = some nestedTasks := by decide +kernel
  rw [plannedTasks?, hmade]
  dsimp only
  rw [tasksFor?, if_neg (by simp [hfile]), hprojects]
  exact hplan

/-- Where the mapfile of one project is above that of another, the order decides which of them
fails. -/
theorem nestedStorage_orders :
    Arguments.ofWords ["fields", "-o", "maps"] = .ok fieldsArguments ∧ nestedStorage.WellFormed ∧
    plannedTasks? fieldsArguments nestedStorage = some nestedTasks ∧
    (performAll fieldsArguments (nestedStorage.makeDirectories ⟨"maps"⟩).2 nestedTasks).1 =
      [⟨⟨"fields/a.qgs"⟩, ⟨"maps/a.map"⟩⟩] ∧
    (performAll fieldsArguments (nestedStorage.makeDirectories ⟨"maps"⟩).2 nestedTasks.reverse).1 =
      [⟨⟨"fields/a.map/b.qgs"⟩, ⟨"maps/a.map/b.map"⟩⟩] := by
  rw [leadsTo_nested.makeDirectories]
  exact ⟨rfl, .of_check (by decide +kernel), plannedTasks?_nested, by decide +kernel,
    by decide +kernel⟩

/-- A run comes to the same on every schedule, unless the mapfile of one project is planned above that
of another. -/
theorem runOn_schedules {words : List Name} {arguments : Arguments}
    (hwords : Arguments.ofWords words = .ok arguments) {storage : Storage}
    (hwell : storage.WellFormed)
    (hnone : ∀ tasks, plannedTasks? arguments storage = some tasks → NoneAbove tasks)
    (schedule other : Schedule) : runOn schedule words storage = runOn other words storage := by
  obtain ⟨-, houtput⟩ := Arguments.text_ne_empty_of_ofWords hwords
  have hsame : runArguments schedule arguments storage = runArguments other arguments storage := by
    refine runArguments_congr fun tasks hplanned => ?_
    obtain ⟨place, course⟩ := exists_course schedule hwell houtput hplanned
    have hperm := schedule.perm tasks
    obtain ⟨hafter, hfailed⟩ := performAll_perm (hperm.trans (other.perm tasks).symm)
      ((course.areApart (hnone tasks hplanned)).of_perm hperm)
    exact ⟨hafter, hfailed.length_eq⟩
  rw [runOn, runOn, hwords]
  dsimp only
  rw [hsame]

end Carta.Command
