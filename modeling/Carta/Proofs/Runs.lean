import Carta.Proofs.Tasks
import Mathlib.Data.Set.Insert

/-!
# What performing the tasks of a run does

The mapfiles of a run have places of their own and are no projects. So what one task does is not
undone by the next, the projects stay, and where a task fails nothing is put in the place of its
mapfile, whatever the order of the tasks.
-/

namespace Carta.Command

open Storage (Location Occupant Grows LeadsTo Spares)

/-- A task that can be performed on a tree, and on every one that it grows to. -/
structure IsReady (arguments : Arguments) (storage : Storage) (task : Task) : Prop where
  aimed : ∃ directories name, task.IsAimed arguments.output directories name
  steady : storage.IsSteady task.project
  project : isProjectFile task.project = true

/-- The places of the mapfiles of tasks that have not failed. -/
def goalsOf (output : Path) (place : Location) (tasks failed : List Task) : Set Location :=
  {location | ∃ task ∈ tasks, task ∉ failed ∧ location = task.goal output place}

section

variable {arguments : Arguments} {storage after : Storage} {place : Location} {task : Task}
  {tasks failed : List Task}

/-- A task stays ready when only directories are added and files put where no project is. -/
theorem IsReady.mono {changed : Set Location} (h : IsReady arguments storage task)
    (hgrows : Grows changed storage after) (hspares : Spares changed) :
    IsReady arguments after task :=
  ⟨h.aimed, hgrows.isSteady hspares h.project h.steady, h.project⟩

/-- No mapfile is in the place of a project. -/
theorem IsReady.spares (h : IsReady arguments storage task) (place : Location) :
    Spares {task.goal arguments.output place} := by
  intro directory name hmem
  obtain ⟨directories, last, haimed⟩ := h.aimed
  rw [Set.mem_singleton_iff, haimed.goal_eq] at hmem
  obtain ⟨-, hlast⟩ := List.append_inj' hmem rfl
  rw [List.singleton_inj.mp hlast]
  exact haimed.spared

/-- No project is where tasks that are ready put their mapfiles. -/
theorem spares_goalsOf (hready : ∀ task ∈ tasks, IsReady arguments storage task) :
    Spares (goalsOf arguments.output place tasks failed) := by
  rintro directory name ⟨task, htask, -, hgoal⟩
  exact (hready task htask).spares place directory name hgoal

/-- Tasks whose mapfiles have the same place have the same mapfile. -/
theorem same_of_goal_eq {other : Task} (h : IsReady arguments storage task)
    (hother : IsReady arguments storage other)
    (hgoal : task.goal arguments.output place = other.goal arguments.output place) :
    task.mapFile.same other.mapFile = true := by
  obtain ⟨directories, name, haimed⟩ := h.aimed
  obtain ⟨directories', name', haimed'⟩ := hother.aimed
  rw [Task.goal, Task.goal, List.append_cancel_left_eq, haimed.names_eq, haimed'.names_eq] at hgoal
  rw [Path.same, Path.components, Path.components, haimed.parts, haimed'.parts, hgoal]
  simp

/-- A task adds directories and puts its mapfile, if it succeeds, in its place. -/
theorem perform_grows (h : IsReady arguments storage task) (hordered : storage.root.Ordered)
    (hleads : storage.LeadsTo arguments.output place) :
    Grows {location | (perform arguments storage task).1.isOk = true ∧
        location = task.goal arguments.output place} storage (perform arguments storage task).2 ∧
    ((perform arguments storage task).1.isOk = true →
      ∃ content, contentOf? arguments storage task = some content ∧
        (perform arguments storage task).2.root.occupant? (task.goal arguments.output place) =
          some (.file content)) := by
  obtain ⟨directories, name, haimed⟩ := h.aimed
  obtain ⟨root, hafter, hroot, hoccupant, hok⟩ :=
    perform_eq_errand haimed hordered hleads h.steady h.project
  rw [hafter]
  refine ⟨⟨rfl, rfl, fun _ => hroot, ?_, ?_⟩, ?_⟩
  · intro location hlocation
    exact (congrFun hoccupant location).trans (Errand.after_directory hlocation)
  · intro location hlocation content
    change _ ↔ root.occupant? location = _
    rw [hoccupant, Errand.after_eq_file_iff]
    intro hsucceeds hgoal
    rw [goal_errandOf haimed] at hgoal
    exact hlocation ⟨hok.mpr hsucceeds, hgoal⟩
  · intro hisOk
    have hsucceeds := hok.mp hisOk
    have hcontent : (errandOf arguments storage task).content? = contentOf? arguments storage task :=
      congrArg Errand.content? (errandOf_eq haimed)
    obtain ⟨content, hsome⟩ := Option.isSome_iff_exists.mp hsucceeds.2.1
    refine ⟨content, hcontent.symm.trans hsome, ?_⟩
    change root.occupant? _ = _
    rw [hoccupant, ← goal_errandOf haimed, Errand.after_goal hsucceeds, hsome]
    rfl

/-- A task adds only names that entries have. -/
theorem named_of_perform (h : IsReady arguments storage task) (hordered : storage.root.Ordered)
    (hleads : storage.LeadsTo arguments.output place) (hnamed : Named storage.root) :
    Named (perform arguments storage task).2.root := by
  obtain ⟨directories, name, haimed⟩ := h.aimed
  obtain ⟨root, hafter, -, hoccupant, -⟩ :=
    perform_eq_errand haimed hordered hleads h.steady h.project
  rw [hafter]
  intro location last hsome
  change root.occupant? (location ++ [last]) ≠ none at hsome
  rw [hoccupant, Errand.after, goal_errandOf haimed, haimed.goal_eq] at hsome
  split at hsome
  next hgoal =>
    obtain ⟨-, hlast⟩ := List.append_inj' hgoal.2 rfl
    rw [List.singleton_inj.mp hlast]
    exact haimed.own
  next =>
    split at hsome
    next =>
      rw [Storage.withWay, errandOf_eq haimed] at hsome
      split at hsome
      next hway =>
        obtain ⟨⟨before, hbefore⟩, hpre⟩ := hway
        rw [← hbefore, List.prefix_append_right_inj] at hpre
        cases before using List.reverseRecOn with
        | nil =>
          rw [List.append_nil] at hbefore
          exact hnamed location last (by simp [← hbefore, hleads.directory])
        | append_singleton before other =>
          rw [← List.append_assoc] at hbefore
          obtain ⟨-, hlast⟩ := List.append_inj' hbefore rfl
          rw [← List.singleton_inj.mp hlast]
          exact haimed.above other (hpre.subset (by simp))
      next => exact hnamed location last hsome
    next => exact hnamed location last hsome

/-- The first task is performed before the others. -/
theorem performAll_cons (arguments : Arguments) (storage : Storage) (task : Task)
    (rest : List Task) :
    performAll arguments storage (task :: rest) =
      (if (perform arguments storage task).1.isOk then
          (performAll arguments (perform arguments storage task).2 rest).1
        else task :: (performAll arguments (perform arguments storage task).2 rest).1,
        (performAll arguments (perform arguments storage task).2 rest).2) := by
  rw [performAll]
  generalize perform arguments storage task = performed
  obtain ⟨outcome, after⟩ := performed
  cases outcome <;> rfl

/-- What performing tasks comes to: the mapfiles of those that do not fail are put in their places,
and directories are added. -/
structure Performed (arguments : Arguments) (place : Location) (storage : Storage)
    (tasks failed : List Task) (after : Storage) : Prop where
  sublist : failed.Sublist tasks
  grows : Grows (goalsOf arguments.output place tasks failed) storage after
  put : ∀ task ∈ tasks, task ∉ failed → ∃ content, contentOf? arguments storage task = some content ∧
    after.root.occupant? (task.goal arguments.output place) = some (.file content)

section First

variable (hready : ∀ other ∈ task :: tasks, IsReady arguments storage other)
  (hordered : storage.root.Ordered) (hleads : storage.LeadsTo arguments.output place)

include hready hordered hleads

/-- The first task leaves the others ready, and what they write as it was. -/
theorem isReady_perform : ∀ other ∈ tasks,
    IsReady arguments (perform arguments storage task).2 other ∧
      contentOf? arguments (perform arguments storage task).2 other =
        contentOf? arguments storage other := by
  rw [List.forall_mem_cons] at hready
  obtain ⟨hgrows, -⟩ := perform_grows hready.1 hordered hleads
  have hspares : Spares {location | (perform arguments storage task).1.isOk = true ∧
      location = task.goal arguments.output place} :=
    fun directory name hmem => hready.1.spares place directory name hmem.2
  intro other hother
  have hrest := hready.2 other hother
  exact ⟨hrest.mono hgrows hspares,
    contentOf?_eq_of_grows hgrows hspares hrest.project hrest.steady⟩

variable (hfirst : ∀ other ∈ tasks,
    task.goal arguments.output place ≠ other.goal arguments.output place)
  (h : Performed arguments place (perform arguments storage task).2 tasks failed after)

include hfirst h

/-- A first task that succeeds puts its mapfile, and the others leave it, for they have other
places. -/
theorem Performed.cons_of_success (hok : (perform arguments storage task).1.isOk = true) :
    Performed arguments place storage (task :: tasks) failed after := by
  obtain ⟨hgrows, hput⟩ := perform_grows (hready task List.mem_cons_self) hordered hleads
  have hnew : task ∉ tasks := fun hmem => hfirst task hmem rfl
  refine ⟨h.sublist.cons _, (hgrows.trans h.grows).mono ?_, List.forall_mem_cons.mpr ⟨?_, ?_⟩⟩
  · rintro location (⟨-, hgoal⟩ | ⟨other, hother, hfine, hgoal⟩)
    · exact ⟨task, List.mem_cons_self, fun hmem => hnew (h.sublist.subset hmem), hgoal⟩
    · exact ⟨other, List.mem_cons_of_mem _ hother, hfine, hgoal⟩
  · intro _
    obtain ⟨content, hcontent, hthere⟩ := hput hok
    refine ⟨content, hcontent, (h.grows.files _ ?_ content).mp hthere⟩
    rintro ⟨other, hother, -, hgoal⟩
    exact hfirst other hother hgoal
  · intro other hother hfine
    rw [← (isReady_perform hready hordered hleads other hother).2]
    exact h.put other hother hfine

/-- A first task that fails puts nothing. -/
theorem Performed.cons_of_failure (hok : (perform arguments storage task).1.isOk = false) :
    Performed arguments place storage (task :: tasks) (task :: failed) after := by
  obtain ⟨hgrows, -⟩ := perform_grows (hready task List.mem_cons_self) hordered hleads
  have hnew : task ∉ tasks := fun hmem => hfirst task hmem rfl
  refine ⟨h.sublist.cons_cons _, (hgrows.trans h.grows).mono ?_, List.forall_mem_cons.mpr ⟨?_, ?_⟩⟩
  · rintro location (⟨hisOk, -⟩ | ⟨other, hother, hfine, hgoal⟩)
    · exact absurd (hok.symm.trans hisOk) Bool.false_ne_true
    · refine ⟨other, List.mem_cons_of_mem _ hother, ?_, hgoal⟩
      rintro (_ | ⟨_, hmem⟩)
      · exact hnew hother
      · exact hfine hmem
  · exact fun hfine => absurd List.mem_cons_self hfine
  · intro other hother hfine
    rw [← (isReady_perform hready hordered hleads other hother).2]
    exact h.put other hother fun hmem => hfine (List.mem_cons_of_mem _ hmem)

end First

/-- Performing tasks adds directories and puts the mapfiles of those that do not fail in their
places. -/
theorem performAll_grows (hready : ∀ task ∈ tasks, IsReady arguments storage task)
    (hdistinct : tasks.Pairwise fun first second =>
      first.goal arguments.output place ≠ second.goal arguments.output place)
    (hordered : storage.root.Ordered) (hleads : storage.LeadsTo arguments.output place) :
    Performed arguments place storage tasks (performAll arguments storage tasks).1
      (performAll arguments storage tasks).2 := by
  -- What is put by one task stays, for the others have other places.
  induction tasks generalizing storage with
  | nil => exact ⟨.slnil, (Grows.refl _).mono (Set.empty_subset _), nofun⟩
  | cons task rest ih =>
    obtain ⟨hfirst, hrest⟩ := List.pairwise_cons.mp hdistinct
    obtain ⟨hgrows, -⟩ := perform_grows (hready task List.mem_cons_self) hordered hleads
    have hothers := ih (fun other hother => (isReady_perform hready hordered hleads other hother).1)
      hrest (hgrows.ordered hordered) (hgrows.leadsTo hleads)
    rw [performAll_cons]
    cases hok : (perform arguments storage task).1.isOk with
    | true => exact hothers.cons_of_success hready hordered hleads hfirst hok
    | false => exact hothers.cons_of_failure hready hordered hleads hfirst hok

/-- Performing tasks adds only names that entries have. -/
theorem named_of_performAll (hready : ∀ task ∈ tasks, IsReady arguments storage task)
    (hordered : storage.root.Ordered) (hleads : storage.LeadsTo arguments.output place)
    (hnamed : Named storage.root) : Named (performAll arguments storage tasks).2.root := by
  induction tasks generalizing storage with
  | nil => exact hnamed
  | cons task rest ih =>
    have hfirst := hready task List.mem_cons_self
    obtain ⟨hgrows, -⟩ := perform_grows hfirst hordered hleads
    rw [performAll_cons]
    exact ih (fun other hother => (isReady_perform hready hordered hleads other hother).1)
      (hgrows.ordered hordered) (hgrows.leadsTo hleads)
      (named_of_perform hfirst hordered hleads hnamed)

end

end Carta.Command
