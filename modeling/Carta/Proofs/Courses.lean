import Carta.Proofs.Redraws
import Carta.Proofs.WellFormed
import Mathlib.Data.List.Pairwise
import Mathlib.Data.List.Perm.Subperm

/-!
# The course of a run

A run makes the output directory, plans its tasks and performs them on its schedule. Where it comes to
that, the projects that are there at the end are those that were planned, every task that did not
fail has its mapfile, and nothing but the mapfiles of such tasks was put anywhere.
-/

namespace Carta.Command

open Storage (Location LeadsTo Grows SameFile Spares)

/-- The tasks of a run, if it comes to planning any. -/
def plannedTasks? (arguments : Arguments) (storage : Storage) : Option (List Task) :=
  match storage.makeDirectories arguments.output with
  | (.ok (), prepared) => tasksFor? arguments prepared
  | (.error _, _) => none

/-- The tasks of a run that fail when it performs them on a schedule. -/
def failedTasks (schedule : Schedule) (arguments : Arguments) (storage : Storage) : List Task :=
  match plannedTasks? arguments storage with
  | some tasks =>
    (performAll arguments (storage.makeDirectories arguments.output).2 (schedule.order tasks)).1
  | none => []

/-- The message about projects that were not converted. -/
def failureMessage (failed : List Task) : String :=
  toString failed.length ++ " projects failed to convert"

/-- A project of a run: the input, if it is a file, or a project file below it. -/
inductive IsProject (arguments : Arguments) (storage : Storage) : Path → Prop
  | input (hfile : storage.isFile arguments.input = true) :
    IsProject arguments storage arguments.input
  | below {location : Location} {names : List Name} {content : List UInt8}
    (hleads : storage.LeadsTo arguments.input location) (hne : names ≠ [])
    (hfile : storage.root.occupant? (location ++ names) = some (.file content))
    (hproject : isProjectFile (arguments.input.descend names) = true) :
    IsProject arguments storage (arguments.input.descend names)

/-- The mapfile of a task has the text of the mapfile of its project. -/
def IsConverted (arguments : Arguments) (storage : Storage) (task : Task) : Prop :=
  ∃ document text, storage.load task.project = .ok document ∧
    Mapfile.render (arguments.optionsFor task.project) document = .ok text ∧
    storage.open? task.mapFile = .ok (.file (Text.Utf8.encode text))

section Outcome

variable (schedule : Schedule) {arguments : Arguments} {storage : Storage}

/-- A run that plans nothing fails, and tells the same whatever is drawn. -/
theorem runArguments_redraw_of_none (h : plannedTasks? arguments storage = none) :
    ∃ report, ∀ schedule draws, runArguments schedule arguments (storage.redraw draws) =
      (.error report, (storage.makeDirectories arguments.output).2.redraw draws) := by
  rw [plannedTasks?] at h
  simp only [runArguments, Storage.makeDirectories_redraw]
  split at h
  next prepared hmade =>
    have hisFile (draws : Path → Storage.Suffix) :
      (prepared.redraw draws).isFile arguments.input = prepared.isFile arguments.input := rfl
    have hisDirectory (draws : Path → Storage.Suffix) :
      (prepared.redraw draws).isDirectory arguments.input = prepared.isDirectory arguments.input := rfl
    simp only [hmade, hisFile, hisDirectory]
    rw [tasksFor?] at h
    split at h
    next hfile =>
      simp only [hfile, if_true, runFile]
      split at h
      next hproject =>
        simp only [hproject, Bool.not_true, Bool.false_eq_true, if_false]
        cases hmapFile : mapFileFor ⟨[]⟩ arguments.input arguments.output with
        | error fault => exact ⟨_, fun _ _ => rfl⟩
        | ok mapFile =>
          rw [hmapFile] at h
          cases h
      next hproject =>
        simp only [hproject, Bool.not_false, if_true]
        exact ⟨_, fun _ _ => rfl⟩
    next hfile =>
      simp only [hfile, Bool.false_eq_true, if_false]
      split
      next =>
        have hcollected (draws : Path → Storage.Suffix) :
          collectProjects (prepared.redraw draws) arguments.input =
            collectProjects prepared arguments.input := rfl
        simp only [runDirectory, hcollected]
        cases hprojects : collectProjects prepared arguments.input with
        | error fault => exact ⟨_, fun _ _ => rfl⟩
        | ok projects =>
          dsimp only
          cases hplan : planOutputs arguments.input projects arguments.output with
          | error fault => exact ⟨_, fun _ _ => rfl⟩
          | ok tasks =>
            simp only [hprojects, hplan, Except.toOption, Option.bind_some] at h
            cases h
      next => exact ⟨_, fun _ _ => rfl⟩
  next fault prepared hmade =>
    simp only [hmade]
    exact ⟨_, fun _ _ => rfl⟩

/-- A run that plans nothing fails. -/
theorem runArguments_of_none (h : plannedTasks? arguments storage = none) :
    ∃ report, runArguments schedule arguments storage =
      (.error report, (storage.makeDirectories arguments.output).2) := by
  obtain ⟨report, hreport⟩ := runArguments_redraw_of_none h
  have hfirst := hreport schedule storage.draw
  rw [storage.redraw_makeDirectories] at hfirst
  exact ⟨report, hfirst⟩

/-- A run that plans tasks performs them, and fails when one of them does. -/
theorem runArguments_of_some {tasks : List Task}
    (h : plannedTasks? arguments storage = some tasks) :
    (runArguments schedule arguments storage).2 =
      (performAll arguments (storage.makeDirectories arguments.output).2 (schedule.order tasks)).2 ∧
    (failedTasks schedule arguments storage = [] →
      (runArguments schedule arguments storage).1 = .ok ()) ∧
    (failedTasks schedule arguments storage ≠ [] → ∃ report,
      (runArguments schedule arguments storage).1 = .error report ∧
      ((storage.makeDirectories arguments.output).2.isFile arguments.input = true ∨
        report = { message := failureMessage (failedTasks schedule arguments storage) })) := by
  rw [failedTasks, h]
  dsimp only
  rw [plannedTasks?] at h
  rw [runArguments]
  split at h
  next prepared hmade =>
    rw [hmade]
    dsimp only
    rcases tasksFor?_cases h with
      ⟨hfile, hproject, mapFile, hmapFile, rfl⟩ | ⟨projects, hprojects, -, -, -⟩
    · have horder := List.perm_singleton.mp (schedule.perm [⟨arguments.input, mapFile⟩])
      rw [horder, performAll_cons, if_pos hfile, runFile, hmapFile]
      simp only [hproject, Bool.not_true, Bool.false_eq_true, if_false, performAll]
      generalize perform arguments prepared ⟨arguments.input, mapFile⟩ = performed
      obtain ⟨outcome, after⟩ := performed
      cases outcome with
      | error report =>
        exact ⟨trivial, fun hnil => absurd hnil (List.cons_ne_nil _ _),
          fun _ => ⟨report, rfl, .inl hfile⟩⟩
      | ok => exact ⟨trivial, fun _ => rfl, fun hne => absurd rfl hne⟩
    · obtain ⟨location, hleads, -, -⟩ := mem_collectProjects hprojects
      have hfile := not_isFile_of_leadsTo hleads
      have hplan : planOutputs arguments.input projects arguments.output = .ok tasks := by
        rw [tasksFor?, if_neg hfile, toOption_eq_some_iff.mpr hprojects, Option.bind_some] at h
        exact toOption_eq_some_iff.mp h
      rw [if_neg hfile, if_pos hleads.isDirectory, runDirectory, hprojects]
      dsimp only
      rw [hplan]
      dsimp only
      generalize performAll arguments prepared (schedule.order tasks) = performed
      obtain ⟨failed, after⟩ := performed
      cases failed with
      | nil => exact ⟨rfl, fun _ => rfl, fun hne => absurd rfl hne⟩
      | cons first rest =>
        exact ⟨rfl, fun hnil => absurd hnil (List.cons_ne_nil _ _), fun _ => ⟨_, rfl, .inr rfl⟩⟩
  next => cases h

/-- Schedules that lead to the same tree, with as many tasks failed, come to the same. -/
theorem runArguments_congr {schedule other : Schedule}
    (h : ∀ tasks, plannedTasks? arguments storage = some tasks →
      (performAll arguments (storage.makeDirectories arguments.output).2 (schedule.order tasks)).2 =
        (performAll arguments (storage.makeDirectories arguments.output).2 (other.order tasks)).2 ∧
      (performAll arguments (storage.makeDirectories arguments.output).2
          (schedule.order tasks)).1.length =
        (performAll arguments (storage.makeDirectories arguments.output).2
          (other.order tasks)).1.length) :
    runArguments schedule arguments storage = runArguments other arguments storage := by
  rw [plannedTasks?] at h
  rw [runArguments, runArguments]
  split at h
  next prepared hmade =>
    rw [hmade] at h ⊢
    dsimp only at h ⊢
    split
    next => rfl
    next hfile =>
      rw [tasksFor?, if_neg hfile] at h
      rw [runDirectory, runDirectory]
      cases hprojects : collectProjects prepared arguments.input with
      | error fault => rfl
      | ok projects =>
        dsimp only
        cases hplan : planOutputs arguments.input projects arguments.output with
        | error fault => rfl
        | ok tasks =>
          obtain ⟨hafter, hlength⟩ := h tasks (by
            rw [hprojects]
            exact toOption_eq_some_iff.mpr hplan)
          have hempty : (performAll arguments prepared (schedule.order tasks)).1.isEmpty =
              (performAll arguments prepared (other.order tasks)).1.isEmpty := by
            rw [Bool.eq_iff_iff, List.isEmpty_iff, List.isEmpty_iff, ← List.length_eq_zero_iff,
              hlength, List.length_eq_zero_iff]
          dsimp only
          rw [hafter, hempty, hlength]
  next hmade => rw [hmade]

end Outcome

/-- Making directories changes no file. -/
theorem grows_of_makeDirectories {storage : Storage} (hwell : storage.WellFormed) (path : Path) :
    Grows ∅ storage (storage.makeDirectories path).2 ∧
      (storage.makeDirectories path).2.WellFormed := by
  obtain ⟨hgrows, hnamed, -⟩ := storage.makeDirectories_makes path
  exact ⟨hgrows, hgrows.ordered hwell.ordered, hnamed hwell.named⟩

/-- A run that performs tasks: from the tree with the output directory to the tree at its end. -/
structure Course (arguments : Arguments) (place : Location) (prepared : Storage)
    (tasks failed : List Task) (after : Storage) : Prop where
  planned : tasksFor? arguments prepared = some tasks
  prepared_wellFormed : prepared.WellFormed
  leadsTo : prepared.LeadsTo arguments.output place
  ready : ∀ task ∈ tasks, IsReady arguments prepared task
  mapFiles : ∀ task ∈ tasks,
    mapFileFor (rootOf arguments prepared) task.project arguments.output = .ok task.mapFile
  distinct : tasks.Pairwise fun first second =>
    first.goal arguments.output place ≠ second.goal arguments.output place
  failed_subperm : failed.Subperm tasks
  after_wellFormed : after.WellFormed
  grows : Grows (goalsOf arguments.output place tasks failed) prepared after
  put : ∀ task ∈ tasks, task ∉ failed → ∃ content,
    contentOf? arguments prepared task = some content ∧
    after.root.occupant? (task.goal arguments.output place) = some (.file content)

/-- A run that plans tasks takes its course. -/
theorem exists_course (schedule : Schedule) {arguments : Arguments} {storage : Storage}
    (hwell : storage.WellFormed) (houtput : arguments.output.text ≠ []) {tasks : List Task}
    (h : plannedTasks? arguments storage = some tasks) :
    ∃ place, Course arguments place (storage.makeDirectories arguments.output).2 tasks
      (failedTasks schedule arguments storage) (runArguments schedule arguments storage).2 := by
  obtain ⟨hafter, -, -⟩ := runArguments_of_some schedule h
  obtain ⟨-, hwell'⟩ := grows_of_makeDirectories hwell arguments.output
  rw [hafter, failedTasks, h]
  dsimp only
  rw [plannedTasks?] at h
  split at h
  next prepared hmade =>
    obtain ⟨place, hleads⟩ : ∃ place, prepared.LeadsTo arguments.output place := by
      have hmakes := storage.makeDirectories_makes arguments.output
      rw [hmade] at hmakes
      exact hmakes.leadsTo rfl houtput
    rw [hmade] at hwell' ⊢
    obtain ⟨hready, hmapFiles, hpairwise⟩ :=
      isReady_of_tasksFor? houtput hwell'.ordered hwell'.named h
    have hdistinct : tasks.Pairwise fun first second =>
        first.goal arguments.output place ≠ second.goal arguments.output place :=
      hpairwise.imp_of_mem fun hfirst hsecond hne hgoal =>
        hne (same_of_goal_eq (hready _ hfirst) (hready _ hsecond) hgoal)
    -- The schedule changes the order of the tasks, and nothing that matters to them.
    have hperm := schedule.perm tasks
    have hready' : ∀ task ∈ schedule.order tasks, IsReady arguments prepared task :=
      fun task htask => hready task (hperm.mem_iff.mp htask)
    have hdistinct' := (hperm.pairwise_iff fun {first second} hne => Ne.symm hne).mpr hdistinct
    have hgoals : goalsOf arguments.output place (schedule.order tasks) =
        goalsOf arguments.output place tasks := by
      funext failed
      simp only [goalsOf, hperm.mem_iff]
    obtain ⟨hsublist, hgrows, hput⟩ := performAll_grows hready' hdistinct' hwell'.ordered hleads
    have hnamed := named_of_performAll hready' hwell'.ordered hleads hwell'.named
    rw [hgoals] at hgrows
    exact ⟨place, h, hwell', hleads, hready, hmapFiles, hdistinct,
      hsublist.subperm.trans hperm.subperm, ⟨hgrows.ordered hwell'.ordered, hnamed⟩, hgrows,
      fun task htask => hput task (hperm.mem_iff.mpr htask)⟩
  next => cases h

section Projects

variable {arguments : Arguments} {storage after : Storage} {changed : Set Location} {project : Path}

/-- The names that lead to a project file below the input. -/
theorem exists_names_of_below (hwell : storage.WellFormed) (hinput : arguments.input.text ≠ [])
    {location : Location} {names : List Name} {content : List UInt8} (hne : names ≠ [])
    (hfile : storage.root.occupant? (location ++ names) = some (.file content))
    (hproject : isProjectFile (arguments.input.descend names) = true) :
    (∀ name ∈ names, IsEntryName name ∧ name.length ≤ Storage.maxNameSize) ∧
    ∃ directories name, names = directories ++ [name] ∧ Path.isProjectName name = true := by
  have hsome : storage.root.occupant? (location ++ names) ≠ none := by simp [hfile]
  have hsizes := hwell.named.of_append hsome
  refine ⟨hsizes, ?_⟩
  obtain ⟨directories, name, rfl⟩ := (List.eq_nil_or_concat' names).resolve_left hne
  refine ⟨directories, name, rfl, ?_⟩
  simp only [List.forall_mem_append, List.forall_mem_singleton] at hsizes
  have hentries := fun other hother => (hsizes.1 other hother).1
  exact (Path.isProjectFile_descend hinput hentries hsizes.2.1).symm.trans hproject

/-- What is a project stays one and reads the same, as long as no project is changed and neither is
the input. -/
theorem IsProject.mono (hwell : storage.WellFormed) (h : IsProject arguments storage project)
    (hgrows : Grows changed storage after) (hspares : Spares changed)
    (hinput : ∀ location content, storage.locate arguments.input = .ok location →
      storage.root.occupant? location = some (.file content) → location ∉ changed) :
    IsProject arguments after project ∧ after.open? project = storage.open? project := by
  cases h with
  | input hfile =>
    obtain ⟨location, content, hlocate, hthere⟩ := isFile_eq_true_iff.mp hfile
    have hkept := hinput location content hlocate hthere
    obtain ⟨hlocate', hthere'⟩ := hgrows.locate_file hlocate hthere hkept
    exact ⟨.input (isFile_eq_true_iff.mpr ⟨location, content, hlocate', hthere'⟩),
      hgrows.open?_eq_of_file hlocate hthere hkept⟩
  | @below location names content hleads hne hfile hproject =>
    obtain ⟨hsizes, directories, name, hlast, hnamed⟩ :=
      exists_names_of_below hwell hleads.text_ne_empty hne hfile hproject
    have hkept : location ++ names ∉ changed := by
      rw [hlast, ← List.append_assoc]
      exact fun hmem => Bool.false_ne_true ((hspares _ name hmem).symm.trans hnamed)
    refine ⟨.below (hgrows.leadsTo hleads) hne ((hgrows.files _ hkept content).mp hfile) hproject, ?_⟩
    refine hgrows.open?_eq hspares hproject ?_
    cases hfault : Storage.pathFault? (arguments.input.descend names) with
    | some fault => exact .inl (by simp [hfault])
    | none =>
      have hentries := fun other hother => (hsizes other hother).1
      have hparts := Path.parts_descend hleads.text_ne_empty hentries hne
      exact .inr ⟨_, content, hleads.locate_of_occupant? hparts hsizes hfault (by simp [hfile]), hfile⟩

end Projects

section Course

variable {arguments : Arguments} {place : Location} {prepared after : Storage}
  {tasks failed : List Task} (course : Course arguments place prepared tasks failed after)

include course

/-- No project is where the tasks of a course put their mapfiles. -/
theorem Course.spares : Spares (goalsOf arguments.output place tasks failed) :=
  spares_goalsOf course.ready

/-- The input is what it was: a project file, or a directory. -/
theorem Course.input_cases :
    (prepared.isFile arguments.input = true ∧ after.isFile arguments.input = true ∧
      isProjectFile arguments.input = true ∧
      ∃ mapFile, tasks = [⟨arguments.input, mapFile⟩]) ∨
    ∃ location projects, prepared.LeadsTo arguments.input location ∧
      after.LeadsTo arguments.input location ∧
      collectProjects prepared arguments.input = .ok projects ∧ tasks.map (·.project) = projects := by
  rcases tasksFor?_cases course.planned with
    ⟨hfile, hproject, mapFile, -, rfl⟩ | ⟨projects, hprojects, hmap, -, -⟩
  · obtain ⟨location, content, hlocate, hthere⟩ := isFile_eq_true_iff.mp hfile
    have hkept := course.spares.not_mem hproject hlocate hthere
    have hafter := course.grows.locate_file hlocate hthere hkept
    exact .inl ⟨hfile, isFile_eq_true_iff.mpr ⟨location, content, hafter⟩, hproject, mapFile, rfl⟩
  · obtain ⟨location, hleads, -, -⟩ := mem_collectProjects hprojects
    exact .inr ⟨location, projects, hleads, course.grows.leadsTo hleads, hprojects, hmap⟩

/-- The projects of a course are searched from the same root. -/
theorem Course.rootOf_eq : rootOf arguments after = rootOf arguments prepared := by
  rcases course.input_cases with ⟨hfile, hfile', -⟩ | ⟨location, projects, hleads, hleads', -⟩
  · have hroot {storage : Storage} (hfile : storage.isFile arguments.input = true) :
        rootOf arguments storage = ⟨[]⟩ := by
      rw [rootOf, if_neg]
      rw [Storage.isDirectory_eq_true_iff]
      rintro ⟨location, hleads⟩
      exact not_isFile_of_leadsTo hleads hfile
    rw [hroot hfile, hroot hfile']
  · rw [rootOf, rootOf, if_pos hleads.isDirectory, if_pos hleads'.isDirectory]

/-- What is a project at the end was one before the tasks were performed. -/
theorem Course.isProject {project : Path} (h : IsProject arguments after project) :
    IsProject arguments prepared project := by
  cases h with
  | input hfile =>
    rcases course.input_cases with ⟨hfile', -⟩ | ⟨location, -, -, hleads, -⟩
    · exact .input hfile'
    · exact absurd hfile (not_isFile_of_leadsTo hleads)
  | @below location names content hleads hne hfile hproject =>
    rcases course.input_cases with ⟨-, hfile', -⟩ | ⟨location', -, hleads', hafter, -⟩
    · exact absurd hfile' (not_isFile_of_leadsTo hleads)
    · obtain rfl := Except.ok.inj (hleads.locate.symm.trans hafter.locate)
      obtain ⟨-, directories, name, hlast, hnamed⟩ :=
        exists_names_of_below course.after_wellFormed hleads.text_ne_empty hne hfile hproject
      refine .below hleads' hne ((course.grows.files _ ?_ content).mpr hfile) hproject
      rw [hlast, ← List.append_assoc]
      exact fun hmem => Bool.false_ne_true ((course.spares _ name hmem).symm.trans hnamed)

/-- Every project has a task, unless its path is too long. -/
theorem Course.exists_task {project : Path} (h : IsProject arguments prepared project)
    (hsize : project.text.length ≤ Storage.maxPathSize) :
    ∃ task ∈ tasks, task.project = project := by
  cases h with
  | input hfile =>
    rcases course.input_cases with ⟨-, -, -, mapFile, rfl⟩ | ⟨location, -, hleads, -⟩
    · exact ⟨_, List.mem_singleton_self _, rfl⟩
    · exact absurd hfile (not_isFile_of_leadsTo hleads)
  | @below location names content hleads hne hfile hproject =>
    rcases course.input_cases with ⟨hfile', -⟩ | ⟨-, projects, -, -, hprojects, hmap⟩
    · exact absurd hfile' (not_isFile_of_leadsTo hleads)
    · obtain ⟨location', hleads', -, hmem⟩ := mem_collectProjects hprojects
      obtain rfl := Except.ok.inj (hleads.locate.symm.trans hleads'.locate)
      obtain ⟨hsizes, -⟩ := exists_names_of_below course.prepared_wellFormed hleads.text_ne_empty hne
        hfile hproject
      have hentries := fun other hother => (hsizes other hother).1
      have hcollected := hmem names content hne hentries
        (Storage.Node.occupant?_eq_file_iff.mp hfile) hproject
        (Storage.pathFault?_descend hleads.pathFault? hentries hsize)
      rw [← hmap] at hcollected
      exact List.mem_map.mp hcollected

/-- A task that did not fail is converted. -/
theorem Course.isConverted {task : Task} (htask : task ∈ tasks) (hfine : task ∉ failed) :
    IsConverted arguments after task ∧
      after.locate task.mapFile = .ok (task.goal arguments.output place) := by
  obtain ⟨content, hcontent, hthere⟩ := course.put task htask hfine
  have hready := course.ready task htask
  have hread := course.grows.mapfileOf_eq course.spares hready.project hready.steady
    (arguments.optionsFor task.project)
  obtain ⟨directories, name, haimed⟩ := hready.aimed
  rw [contentOf?] at hcontent
  split at hcontent
  next => cases hcontent
  next text htext =>
    rw [← hread, Storage.mapfileOf, bind_eq_ok_iff] at htext
    obtain ⟨document, hload, hrender⟩ := htext
    dsimp only at hcontent
    split at hcontent
    next hfits =>
      obtain rfl := Option.some.inj hcontent
      have hleads := course.grows.leadsTo course.leadsTo
      have hlocate : after.locate task.mapFile = .ok (task.goal arguments.output place) := by
        rw [Task.goal, haimed.names_eq]
        refine hleads.locate_of_occupant? haimed.parts ?_ hfits.1 ?_
        · simp only [List.forall_mem_append, List.forall_mem_singleton]
          exact ⟨haimed.above, haimed.own⟩
        · rw [← List.append_assoc, ← haimed.goal_eq, hthere]
          exact Option.some_ne_none _
      exact ⟨⟨document, text, hload, hrender, Storage.open?_eq_ok_iff.mpr
        ⟨_, hlocate, Storage.Node.occupant?_eq_file_iff.mp hthere⟩⟩, hlocate⟩
    next => cases hcontent

/-- Every project at the end has a mapfile, if its task did not fail, unless its path is too long. -/
theorem Course.exists_mapFile {project : Path} (h : IsProject arguments after project)
    (hsize : project.text.length ≤ Storage.maxPathSize) : ∃ mapFile,
      mapFileFor (rootOf arguments after) project arguments.output = .ok mapFile ∧
      ⟨project, mapFile⟩ ∈ tasks ∧
      (⟨project, mapFile⟩ ∉ failed → IsConverted arguments after ⟨project, mapFile⟩) := by
  obtain ⟨task, htask, rfl⟩ := course.exists_task (course.isProject h) hsize
  rw [course.rootOf_eq]
  exact ⟨task.mapFile, course.mapFiles task htask, htask,
    fun hfine => (course.isConverted htask hfine).1⟩

/-- What was a project before the tasks were performed is one at the end, and reads the same. -/
theorem Course.found {project : Path} (h : IsProject arguments prepared project) :
    IsProject arguments after project ∧ after.open? project = prepared.open? project := by
  refine h.mono course.prepared_wellFormed course.grows course.spares
    fun location content hlocate hfile => ?_
  rcases course.input_cases with ⟨-, -, hproject, -⟩ | ⟨other, -, hleads, -⟩
  · exact course.spares.not_mem hproject hlocate hfile
  · exact absurd (isFile_eq_true_iff.mpr ⟨location, content, hlocate, hfile⟩)
      (not_isFile_of_leadsTo hleads)

/-- A project file is what it was. -/
theorem Course.sameFile_project (directory : Location) {name : Name}
    (hname : Path.isProjectName name = true) : SameFile prepared after (directory ++ [name]) :=
  course.grows.files _ fun hmem =>
    Bool.false_ne_true ((course.spares directory name hmem).symm.trans hname)

/-- Tasks that have the same place are the same. -/
theorem Course.eq_of_goal_eq {first second : Task} (hfirst : first ∈ tasks) (hsecond : second ∈ tasks)
    (h : first.goal arguments.output place = second.goal arguments.output place) :
    first = second := by
  by_contra hne
  have hsymm : Std.Symm fun first second : Task =>
      first.goal arguments.output place ≠ second.goal arguments.output place :=
    ⟨fun _ _ => Ne.symm⟩
  exact course.distinct.forall hfirst hsecond hne h

/-- In the place of a mapfile that could not be made, nothing was changed. -/
theorem Course.untouched {task : Task} (htask : task ∈ failed) {location : Location}
    (hlocate : after.locate task.mapFile = .ok location) : SameFile prepared after location := by
  have hmem := course.failed_subperm.subset htask
  obtain ⟨directories, name, haimed⟩ := (course.ready task hmem).aimed
  have hentries : ∀ other ∈ directories ++ [name], IsEntryName other := by
    simp only [List.forall_mem_append, List.forall_mem_singleton]
    exact ⟨fun other hother => (haimed.above other hother).1, haimed.own.1⟩
  have hgoal := (course.grows.leadsTo course.leadsTo).eq_of_locate haimed.parts hentries hlocate
  rw [← haimed.names_eq, ← Task.goal] at hgoal
  refine course.grows.files location ?_
  rintro ⟨other, hother, hfine, heq⟩
  obtain rfl := course.eq_of_goal_eq hmem hother (hgoal.symm.trans heq)
  exact hfine htask

/-- Where no mapfile is planned, nothing was changed. -/
theorem Course.others {location : Location}
    (h : ∀ task ∈ tasks, after.locate task.mapFile ≠ .ok location) :
    SameFile prepared after location := by
  refine course.grows.files location ?_
  rintro ⟨task, htask, hfine, rfl⟩
  exact h task htask (course.isConverted htask hfine).2

/-- The projects of tasks are distinct. -/
theorem Course.nodup : (failed.map (·.project)).Nodup := by
  have hnodup : (tasks.map (·.project)).Nodup := by
    rw [List.Nodup, List.pairwise_map]
    refine course.distinct.imp_of_mem fun {first second} hfirst hsecond hne heq => hne ?_
    have hmapFile := course.mapFiles first hfirst
    rw [heq, course.mapFiles second hsecond] at hmapFile
    rw [Task.goal, Task.goal, Task.names, Task.names, Except.ok.inj hmapFile]
  obtain ⟨others, hperm, hsublist⟩ := course.failed_subperm
  exact (hperm.map _).nodup_iff.mp ((hsublist.map _).nodup hnodup)

end Course

/-- What a run tells that ends so. -/
def outcomeOf : Except Report Unit → Outcome
  | .error report => .failure report
  | .ok () => .success

/-- A run on words that are read is a run on their arguments. -/
theorem runOn_eq (schedule : Schedule) {words : List Name} {arguments : Arguments}
    (hwords : Arguments.ofWords words = .ok arguments) (storage : Storage) :
    runOn schedule words storage =
      (outcomeOf (runArguments schedule arguments storage).1,
        (runArguments schedule arguments storage).2) := by
  rw [runOn, hwords]
  dsimp only
  generalize runArguments schedule arguments storage = ended
  obtain ⟨outcome, after⟩ := ended
  cases outcome <;> rfl

end Carta.Command
