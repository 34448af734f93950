import Carta.Proofs.Orders
import Carta.Proofs.Reach
import Carta.Proofs.RemadeDirectories

/-!
# Runs that are made again

A run that is made again finds the output directory and the projects of the first one, and its tasks
are settled. So it changes nothing and ends in the same way.
-/

namespace Carta.Command

open Storage (Location Occupant LeadsTo Grows)

/-- What is told when the output directory cannot be made. -/
def outputFailure (output : Path) (fault : Storage.Fault) : Report where
  message := "Failed to create output directory " ++ Text.quoted output.text
  causes := [fault.message]

section Course

variable {arguments : Arguments} {place : Location} {prepared after : Storage}
  {tasks failed : List Task} (course : Course arguments place prepared tasks failed after)

include course

/-- A file is where one was. -/
theorem Course.exists_file {location : Location} {content : List UInt8}
    (h : prepared.root.occupant? location = some (.file content)) :
    ∃ content', after.root.occupant? location = some (.file content') := by
  by_cases hgoal : location ∈ goalsOf arguments.output place tasks failed
  · obtain ⟨task, htask, hfine, rfl⟩ := hgoal
    obtain ⟨content', -, hthere⟩ := course.put task htask hfine
    exact ⟨content', hthere⟩
  · exact ⟨content, (course.grows.files location hgoal content).mp h⟩

section New

variable {location : Location} {names : List Name}
  (hleads : prepared.LeadsTo arguments.input location)
  (hbefore : prepared.root.occupant? (location ++ names) = none)

include hleads hbefore

/-- There are names that lead to something new, and they are names that entries have. -/
theorem Course.isEntryName_of_new (hafter : after.root.occupant? (location ++ names) ≠ none) :
    names ≠ [] ∧ ∀ name ∈ names, IsEntryName name := by
  constructor
  · rintro rfl
    rw [List.append_nil, hleads.directory] at hbefore
    cases hbefore
  · exact fun name hname => (course.after_wellFormed.named.of_append hafter name hname).1

/-- A new file is a mapfile, so it is no project. -/
theorem Course.isProjectFile_of_new {content : List UInt8}
    (hafter : after.root.occupant? (location ++ names) = some (.file content)) :
    isProjectFile (arguments.input.descend names) = false := by
  obtain ⟨hne, hentries⟩ := course.isEntryName_of_new hleads hbefore (by simp [hafter])
  obtain ⟨directories, name, rfl⟩ := (List.eq_nil_or_concat' names).resolve_left hne
  have hgoal : location ++ directories ++ [name] ∈
      goalsOf arguments.output place tasks failed := by
    rw [List.append_assoc]
    by_contra hno
    exact nomatch hbefore.symm.trans ((course.grows.files _ hno content).mpr hafter)
  simp only [List.forall_mem_append, List.forall_mem_singleton] at hentries
  rw [Path.isProjectFile_descend hleads.text_ne_empty hentries.1 hentries.2]
  exact course.spares (location ++ directories) name hgoal

/-- A new directory that has the name of a project can be looked at, if the one above it can. -/
theorem Course.pathFault?_of_new (hreach : StaysInReach arguments prepared after)
    (hafter : after.root.occupant? (location ++ names) = some .directory)
    (hproject : isProjectFile (arguments.input.descend names) = true)
    (habove : Storage.pathFault? (arguments.input.descend names.dropLast) = none) :
    Storage.pathFault? (arguments.input.descend names) = none := by
  obtain ⟨hne, hentries⟩ := course.isEntryName_of_new hleads hbefore (by simp [hafter])
  obtain ⟨-, -, hsize⟩ := Storage.pathFault?_eq_none_iff.mp habove
  refine Storage.pathFault?_descend hleads.pathFault? hentries ?_
  exact hreach location names (course.grows.leadsTo hleads) hne (by simp [hbefore]) hafter hproject
    hsize

end New

/-- What a run adds below the input is not taken for projects. -/
theorem Course.keeps (hreach : StaysInReach arguments prepared after) {location : Location}
    (hleads : prepared.LeadsTo arguments.input location) :
    Keeps arguments.input (fun names => prepared.root.occupant? (location ++ names))
      fun names => after.root.occupant? (location ++ names) := by
  intro names
  dsimp only
  cases hbefore : prepared.root.occupant? (location ++ names) with
  | some occupant =>
    cases occupant with
    | directory =>
      rw [course.grows.directories _ hbefore]
      exact .directory
    | file content =>
      obtain ⟨content', hafter⟩ := course.exists_file hbefore
      rw [hafter]
      exact .file content content'
  | none =>
    cases hafter : after.root.occupant? (location ++ names) with
    | none => exact .nothing
    | some occupant =>
      cases occupant with
      | directory => exact .newDirectory (course.pathFault?_of_new hleads hbefore hreach hafter)
      | file content => exact .newFile content (course.isProjectFile_of_new hleads hbefore hafter)

/-- The same tasks are planned again. -/
theorem Course.tasksFor?_eq (hreach : StaysInReach arguments prepared after) :
    tasksFor? arguments after = some tasks := by
  have hplanned := course.planned
  rcases course.input_cases with ⟨hfile, hfile', -⟩ | ⟨location, projects, hleads, hleads', -⟩
  · rw [tasksFor?, if_pos hfile] at hplanned
    rwa [tasksFor?, if_pos hfile']
  · have hsame := collectProjects_eq hleads hleads' course.prepared_wellFormed.ordered
      course.after_wellFormed.ordered (course.keeps hreach hleads)
    rw [tasksFor?, if_neg (not_isFile_of_leadsTo hleads)] at hplanned
    rwa [tasksFor?, if_neg (not_isFile_of_leadsTo hleads'), hsame]

/-- The tasks of a run are distinct. -/
theorem Course.tasks_nodup : tasks.Nodup :=
  course.distinct.imp fun hne heq => hne (by rw [heq])

/-- Performing the settled tasks of a run again, with other names for temporary files, changes nothing,
and the same ones fail. -/
theorem Course.performAll_again (draws : Path → Storage.Suffix)
    (hsettled : ∀ task ∈ tasks, Settled arguments place after task (decide (task ∉ failed)))
    {others : List Task} (hperm : others.Perm tasks) :
    (performAll arguments (after.redraw draws) others).1.Perm failed ∧
      (performAll arguments (after.redraw draws) others).2 = after.redraw draws := by
  have hready : ∀ task ∈ others, IsReady arguments (after.redraw draws) task := fun task htask =>
    ((course.ready task (hperm.mem_iff.mp htask)).mono course.grows course.spares).redraw draws
  rw [performAll_of_settled hready course.after_wellFormed.ordered
    ((course.grows.leadsTo course.leadsTo).redraw draws) fun task htask =>
      (hsettled task (hperm.mem_iff.mp htask)).redraw draws]
  refine ⟨?_, rfl⟩
  obtain ⟨kept, hkept, hsublist⟩ := course.failed_subperm
  have hfailed : failed.Nodup := hkept.nodup_iff.mp (hsublist.nodup course.tasks_nodup)
  have hothers : (others.filter (· ∈ failed)).Nodup :=
    (hperm.nodup_iff.mpr course.tasks_nodup).filter _
  refine (List.perm_ext_iff_of_nodup hothers hfailed).mpr fun task => ?_
  rw [List.mem_filter, decide_eq_true_eq]
  refine and_iff_right_of_imp fun hmem => ?_
  exact hperm.mem_iff.mpr (hsublist.subset (hkept.mem_iff.mpr hmem))

end Course

section Again

variable (schedule other : Schedule) {arguments : Arguments} {storage : Storage} {tasks : List Task}

/-- The tasks of a run are settled at its end. -/
theorem settled_of_planned (h : plannedTasks? arguments storage = some tasks) {place : Location}
    (course : Course arguments place (storage.makeDirectories arguments.output).2 tasks
      (failedTasks schedule arguments storage) (runArguments schedule arguments storage).2) :
    ∀ task ∈ tasks, Settled arguments place (runArguments schedule arguments storage).2 task
      (decide (task ∉ failedTasks schedule arguments storage)) := by
  obtain ⟨hafter, -, -⟩ := runArguments_of_some schedule h
  have hperm := schedule.perm tasks
  have hsettled := settled_performAll
    (fun task htask => course.ready task (hperm.mem_iff.mp htask))
    ((hperm.pairwise_iff fun {first second} hne => Ne.symm hne).mpr course.distinct)
    course.prepared_wellFormed.ordered course.leadsTo
  rw [hafter, failedTasks, h]
  exact fun task htask => hsettled task (hperm.mem_iff.mpr htask)

/-- A run on a tree that has the output directory already comes to the same as the one that made it. -/
theorem runArguments_prepared {prepared : Storage} (houtput : arguments.output.text ≠ [])
    (hmade : storage.makeDirectories arguments.output = (.ok (), prepared)) :
    runArguments schedule arguments prepared = runArguments schedule arguments storage := by
  have hmakes := storage.makeDirectories_makes arguments.output
  rw [hmade] at hmakes
  obtain ⟨place, hleads⟩ := hmakes.leadsTo rfl houtput
  rw [runArguments, runArguments, hmade, hleads.makeDirectories]

/-- A task that fails without directories to make leaves the tree as it was. -/
theorem perform_of_failure {task : Task} {name : Name} {place : Location}
    (haimed : task.IsAimed arguments.output [] name) (hready : IsReady arguments storage task)
    (hordered : storage.root.Ordered) (hleads : storage.LeadsTo arguments.output place)
    (h : (perform arguments storage task).1.isOk = false) :
    (perform arguments storage task).2 = storage := by
  obtain ⟨root, hafter, hroot, hoccupant, hok⟩ := hready.perform_eq hordered hleads
  have hfails := hok.not.mp (by simp [h])
  have hnone : (errandOf arguments storage task).directories = [] :=
    congrArg Errand.directories (errandOf_eq haimed)
  have hsame : root.occupant? = storage.root.occupant? := by
    rw [hoccupant]
    by_cases hopen : (errandOf arguments storage task).IsOpen place storage.root.occupant?
    · rw [Errand.after_of_not_succeeds hopen hfails, hnone]
      refine Errand.withWay_of_way fun before hbefore => ?_
      rw [List.prefix_nil.mp hbefore, List.append_nil]
      exact hleads.directory
    · exact Errand.after_of_not_isOpen hopen
  rw [hafter, Storage.Node.eq_of_occupant?_eq hroot hordered hsame]

/-- How a run on a directory ends depends on how many of its tasks fail. -/
theorem runArguments_eq_of_length {after : Storage}
    (h : plannedTasks? arguments storage = some tasks)
    (h' : plannedTasks? arguments after = some tasks)
    (hfile : ¬ (storage.makeDirectories arguments.output).2.isFile arguments.input = true)
    (hfile' : ¬ (after.makeDirectories arguments.output).2.isFile arguments.input = true)
    (hlength : (failedTasks other arguments after).length =
      (failedTasks schedule arguments storage).length) :
    (runArguments other arguments after).1 = (runArguments schedule arguments storage).1 := by
  obtain ⟨-, hsuccess, hfailure⟩ := runArguments_of_some schedule h
  obtain ⟨-, hsuccess', hfailure'⟩ := runArguments_of_some other h'
  by_cases hnone : failedTasks schedule arguments storage = []
  · have hnone' : failedTasks other arguments after = [] := by
      rw [← List.length_eq_zero_iff, hlength, hnone, List.length_nil]
    rw [hsuccess hnone, hsuccess' hnone']
  · have hnone' : failedTasks other arguments after ≠ [] := by
      rwa [ne_eq, ← List.length_eq_zero_iff, hlength, List.length_eq_zero_iff]
    obtain ⟨report, hreport, hmessage⟩ := hfailure hnone
    obtain ⟨report', hreport', hmessage'⟩ := hfailure' hnone'
    rw [hreport, hreport', hmessage.resolve_left hfile, hmessage'.resolve_left hfile',
      failureMessage, failureMessage, hlength]

/-- A run that performs tasks plans the same ones again, performs them without changing anything, and
as many of them fail, whatever names it draws. -/
theorem planned_again (draws : Path → Storage.Suffix) (hwell : storage.WellFormed)
    (houtput : arguments.output.text ≠ []) (h : plannedTasks? arguments storage = some tasks)
    (hreach : StaysInReach arguments (storage.makeDirectories arguments.output).2
      (runArguments schedule arguments storage).2) :
    plannedTasks? arguments ((runArguments schedule arguments storage).2.redraw draws) = some tasks ∧
    (runArguments other arguments ((runArguments schedule arguments storage).2.redraw draws)).2 =
      (runArguments schedule arguments storage).2.redraw draws ∧
    (failedTasks other arguments
        ((runArguments schedule arguments storage).2.redraw draws)).length =
      (failedTasks schedule arguments storage).length := by
  obtain ⟨place, course⟩ := exists_course schedule hwell houtput h
  have hsettled := settled_of_planned schedule h course
  have hmade := ((course.grows.leadsTo course.leadsTo).redraw draws).makeDirectories
  have hplanned := course.tasksFor?_eq hreach
  generalize (runArguments schedule arguments storage).2 = after at *
  have hagain : plannedTasks? arguments (after.redraw draws) = some tasks := by
    rw [plannedTasks?, hmade]
    exact hplanned
  obtain ⟨hfailed, hsame⟩ := course.performAll_again draws hsettled (other.perm tasks)
  obtain ⟨hafter, -, -⟩ := runArguments_of_some other hagain
  rw [hmade] at hafter
  refine ⟨hagain, hafter.trans hsame, ?_⟩
  rw [failedTasks, hagain]
  dsimp only
  rw [hmade]
  exact hfailed.length_eq

/-- A run on a single file that fails changes nothing but for making the output directory. -/
theorem runArguments_file_of_failure (hwell : storage.WellFormed)
    (houtput : arguments.output.text ≠ []) (h : plannedTasks? arguments storage = some tasks)
    (hfile : (storage.makeDirectories arguments.output).2.isFile arguments.input = true)
    (hfailed : failedTasks schedule arguments storage ≠ []) :
    (runArguments schedule arguments storage).2 = (storage.makeDirectories arguments.output).2 := by
  obtain ⟨place, course⟩ := exists_course schedule hwell houtput h
  obtain ⟨hafter, -, -⟩ := runArguments_of_some schedule h
  rw [failedTasks, h] at hfailed
  dsimp only at hfailed
  rcases tasksFor?_cases course.planned with
    ⟨-, hproject, mapFile, hmapFile, rfl⟩ | ⟨projects, hprojects, -, -, -⟩
  · have horder := List.perm_singleton.mp (schedule.perm [⟨arguments.input, mapFile⟩])
    obtain ⟨name, haimed⟩ := isAimed_file houtput hfile hproject hmapFile
    rw [horder, performAll_cons] at hafter hfailed
    refine hafter.trans (perform_of_failure haimed (course.ready _ List.mem_cons_self)
      course.prepared_wellFormed.ordered course.leadsTo ?_)
    by_contra hok
    rw [Bool.not_eq_false] at hok
    exact hfailed (if_pos hok)
  · obtain ⟨location, hleads, -, -⟩ := mem_collectProjects hprojects
    exact absurd hfile (not_isFile_of_leadsTo hleads)

/-- A run on a single project performs its task. -/
theorem runArguments_file {prepared : Storage} {mapFile : Path}
    (hmade : storage.makeDirectories arguments.output = (.ok (), prepared))
    (hfile : prepared.isFile arguments.input = true) (hproject : isProjectFile arguments.input = true)
    (hmapFile : mapFileFor ⟨[]⟩ arguments.input arguments.output = .ok mapFile) :
    runArguments schedule arguments storage =
      perform arguments prepared ⟨arguments.input, mapFile⟩ := by
  rw [runArguments, hmade]
  simp only [hfile, if_true, runFile, hproject, hmapFile, Bool.not_true, Bool.false_eq_true, if_false]

/-- What is told the second time, when other names are drawn: the same, or the same fault of the
temporary file of a single project, which is called otherwise. -/
def ToldAgain (arguments : Arguments) (storage : Storage) (draws : Path → Storage.Suffix)
    (first second : Except Report Unit) : Prop :=
  second = first ∨ ∃ mapFile fault,
    (storage.makeDirectories arguments.output).2.isFile arguments.input = true ∧
    mapFileFor ⟨[]⟩ arguments.input arguments.output = .ok mapFile ∧
    first = .error (temporaryFailure storage ⟨arguments.input, mapFile⟩ fault) ∧
    second = .error (temporaryFailure (storage.redraw draws) ⟨arguments.input, mapFile⟩ fault)

section Prepared

variable (draws : Path → Storage.Suffix) (houtput : arguments.output.text ≠ []) {prepared : Storage}
  (hmade : storage.makeDirectories arguments.output = (.ok (), prepared))

include houtput hmade

/-- A run on the tree with the output directory, with other names for temporary files, comes to what
one comes to that has to make the directory. -/
theorem runArguments_redraw_prepared : runArguments other arguments (prepared.redraw draws) =
    runArguments other arguments (storage.redraw draws) :=
  runArguments_prepared other houtput (by rw [Storage.makeDirectories_redraw, hmade])

/-- A run that plans nothing comes to the same again. -/
theorem runArguments_again_of_none (h : plannedTasks? arguments storage = none) :
    runArguments other arguments ((runArguments schedule arguments storage).2.redraw draws) =
      ((runArguments schedule arguments storage).1,
        (runArguments schedule arguments storage).2.redraw draws) := by
  obtain ⟨report, hreport⟩ := runArguments_redraw_of_none h
  have hfirst := hreport schedule storage.draw
  rw [storage.redraw_makeDirectories, hmade] at hfirst
  have hrun : runArguments schedule arguments storage = (.error report, prepared) := hfirst
  rw [hrun, runArguments_redraw_prepared other draws houtput hmade, hreport, hmade]

/-- A run on a single project that fails leaves the tree with the output directory as it is, and tells
so again. -/
theorem told_again_of_file (hwell : storage.WellFormed)
    (h : plannedTasks? arguments storage = some tasks)
    (hfile : prepared.isFile arguments.input = true)
    (hfailed : failedTasks schedule arguments storage ≠ []) :
    ToldAgain arguments storage draws (runArguments schedule arguments storage).1
      (runArguments other arguments
        ((runArguments schedule arguments storage).2.redraw draws)).1 := by
  have hprepared : prepared = (storage.makeDirectories arguments.output).2 := by rw [hmade]
  have hsame := runArguments_file_of_failure schedule hwell houtput h (hprepared ▸ hfile) hfailed
  rw [← hprepared] at hsame
  rw [hsame, runArguments_redraw_prepared other draws houtput hmade]
  rw [plannedTasks?, hmade] at h
  obtain ⟨place, hleads⟩ :=
    (storage.makeDirectories_makes arguments.output).leadsTo (by rw [hmade]) houtput
  rw [hmade] at hleads
  rcases tasksFor?_cases h with
    ⟨-, hproject, mapFile, hmapFile, rfl⟩ | ⟨projects, hprojects, -, -, -⟩
  · obtain ⟨name, haimed⟩ := isAimed_file houtput hfile hproject hmapFile
    have hmade' : (storage.redraw draws).makeDirectories arguments.output =
        (.ok (), prepared.redraw draws) := by rw [Storage.makeDirectories_redraw, hmade]
    rw [runArguments_file schedule hmade hfile hproject hmapFile,
      runArguments_file other hmade' hfile hproject hmapFile]
    rcases perform_redraw draws haimed hleads with hequal | ⟨fault, hfirst, hsecond⟩
    · exact .inl hequal
    · refine .inr ⟨mapFile, fault, hprepared ▸ hfile, hmapFile, hfirst.trans ?_, hsecond.trans ?_⟩
      · rw [hprepared, temporaryFailure_makeDirectories]
      · have htold := temporaryFailure_makeDirectories (storage.redraw draws) arguments.output
          ⟨arguments.input, mapFile⟩ fault
        rw [hmade'] at htold
        exact congrArg Except.error htold
  · obtain ⟨location, hdirectory, -, -⟩ := mem_collectProjects hprojects
    exact absurd hfile (not_isFile_of_leadsTo hdirectory)

/-- A run that performs tasks changes nothing the second time and tells what it told. -/
theorem runArguments_again_of_some (hwell : storage.WellFormed)
    (h : plannedTasks? arguments storage = some tasks)
    (hreach : StaysInReach arguments prepared (runArguments schedule arguments storage).2) :
    (runArguments other arguments ((runArguments schedule arguments storage).2.redraw draws)).2 =
      (runArguments schedule arguments storage).2.redraw draws ∧
    ToldAgain arguments storage draws (runArguments schedule arguments storage).1
      (runArguments other arguments
        ((runArguments schedule arguments storage).2.redraw draws)).1 := by
  have hprepared : prepared = (storage.makeDirectories arguments.output).2 := by rw [hmade]
  rw [hprepared] at hreach
  obtain ⟨place, course⟩ := exists_course schedule hwell houtput h
  obtain ⟨hagain, hafter, hlength⟩ := planned_again schedule other draws hwell houtput h hreach
  refine ⟨hafter, ?_⟩
  have hmade' := ((course.grows.leadsTo course.leadsTo).redraw draws).makeDirectories
  rcases course.input_cases with ⟨hfile, -⟩ | ⟨location, -, hleads, hleads', -⟩
  · obtain ⟨-, hsuccess, -⟩ := runArguments_of_some schedule h
    obtain ⟨-, hsuccess', -⟩ := runArguments_of_some other hagain
    by_cases hfailed : failedTasks schedule arguments storage = []
    · have hfailed' := hlength
      rw [hfailed, List.length_nil, List.length_eq_zero_iff] at hfailed'
      exact .inl ((hsuccess' hfailed').trans (hsuccess hfailed).symm)
    · exact told_again_of_file schedule other draws houtput hmade hwell h (hprepared ▸ hfile) hfailed
  · refine .inl (runArguments_eq_of_length schedule other h hagain (not_isFile_of_leadsTo hleads) ?_
      hlength)
    rw [hmade']
    exact not_isFile_of_leadsTo (hleads'.redraw draws)

end Prepared

/-- A run that is made again, with other names for temporary files, changes nothing and tells what it
told, unless it cannot make the output directory and there are two dots in the path of it. -/
theorem runArguments_again (draws : Path → Storage.Suffix) (hwell : storage.WellFormed)
    (houtput : arguments.output.text ≠ [])
    (hreach : StaysInReach arguments (storage.makeDirectories arguments.output).2
      (runArguments schedule arguments storage).2) :
    (runArguments other arguments ((runArguments schedule arguments storage).2.redraw draws)).2 =
      (runArguments schedule arguments storage).2.redraw draws ∧
    (ToldAgain arguments storage draws (runArguments schedule arguments storage).1
      (runArguments other arguments
        ((runArguments schedule arguments storage).2.redraw draws)).1 ∨
    Component.parent ∈ arguments.output.components ∧
      (runArguments schedule arguments storage).1 =
        .error (outputFailure arguments.output .alreadyExists) ∧
      (runArguments other arguments
        ((runArguments schedule arguments storage).2.redraw draws)).1 =
          .error (outputFailure arguments.output .notADirectory)) := by
  cases hmade : storage.makeDirectories arguments.output with
  | mk made prepared =>
    cases made with
    | error fault =>
      have hfails {schedule : Schedule} {storage after : Storage} {fault : Storage.Fault}
          (hmade : storage.makeDirectories arguments.output = (.error fault, after)) :
          runArguments schedule arguments storage =
            (.error (outputFailure arguments.output fault), after) := by
        rw [runArguments, hmade]
        rfl
      rw [hfails hmade]
      rcases Storage.makeDirectories_again hmade with hagain | ⟨hparent, rfl, hagain⟩
      all_goals
        have hredrawn := prepared.makeDirectories_redraw draws arguments.output
        rw [hagain] at hredrawn
        rw [hfails hredrawn]
      · exact ⟨rfl, .inl (.inl rfl)⟩
      · exact ⟨rfl, .inr ⟨hparent, rfl, rfl⟩⟩
    | ok =>
      rw [hmade] at hreach
      cases h : plannedTasks? arguments storage with
      | none =>
        rw [runArguments_again_of_none schedule other draws houtput hmade h]
        exact ⟨rfl, .inl (.inl rfl)⟩
      | some tasks =>
        obtain ⟨hafter, htold⟩ :=
          runArguments_again_of_some schedule other draws houtput hmade hwell h hreach
        exact ⟨hafter, .inl htold⟩

end Again

/-- **A run that is made again changes nothing**, whatever names it draws for temporary files and in
whatever order it performs its tasks. It ends with the same exit code and tells the same, but for two
things: where a single project is not converted for a fault of its temporary file, this is told with
the path of the file, which was drawn; and where the output directory cannot be made, and there are
two dots in the path of it, the cause can be told in other words. This leaves out runs that make,
below the input, a directory that has the name of a project and is the first on its way that cannot
be looked at. -/
theorem runOn_again (schedule other : Schedule) {words : List Name} {arguments : Arguments}
    (hwords : Arguments.ofWords words = .ok arguments) {storage : Storage}
    (hwell : storage.WellFormed) (draws : Path → Storage.Suffix)
    (hreach : StaysInReach arguments (storage.makeDirectories arguments.output).2
      (runOn schedule words storage).2) :
    (runOn other words ((runOn schedule words storage).2.redraw draws)).2 =
      (runOn schedule words storage).2.redraw draws ∧
    (runOn other words ((runOn schedule words storage).2.redraw draws)).1.exitCode =
      (runOn schedule words storage).1.exitCode ∧
    ((runOn other words ((runOn schedule words storage).2.redraw draws)).1 =
        (runOn schedule words storage).1 ∨
      (∃ mapFile fault,
        (storage.makeDirectories arguments.output).2.isFile arguments.input = true ∧
        mapFileFor ⟨[]⟩ arguments.input arguments.output = .ok mapFile ∧
        (runOn schedule words storage).1 =
          .failure (temporaryFailure storage ⟨arguments.input, mapFile⟩ fault) ∧
        (runOn other words ((runOn schedule words storage).2.redraw draws)).1 =
          .failure (temporaryFailure (storage.redraw draws) ⟨arguments.input, mapFile⟩ fault)) ∨
      Component.parent ∈ arguments.output.components ∧
      (runOn schedule words storage).1 =
        .failure (outputFailure arguments.output .alreadyExists) ∧
      (runOn other words ((runOn schedule words storage).2.redraw draws)).1 =
        .failure (outputFailure arguments.output .notADirectory)) := by
  obtain ⟨-, houtput⟩ := Arguments.text_ne_empty_of_ofWords hwords
  rw [runOn_eq schedule hwords] at hreach ⊢
  rw [runOn_eq other hwords]
  obtain ⟨hafter, htold⟩ := runArguments_again schedule other draws hwell houtput hreach
  refine ⟨hafter, ?_⟩
  rcases htold with (hsame | ⟨mapFile, fault, hfile, hmapFile, hfirst, hsecond⟩) |
    ⟨hparent, hfirst, hsecond⟩
  · rw [hsame]
    exact ⟨rfl, .inl rfl⟩
  · rw [hfirst, hsecond]
    exact ⟨rfl, .inr (.inl ⟨mapFile, fault, hfile, hmapFile, rfl, rfl⟩)⟩
  · rw [hfirst, hsecond]
    exact ⟨rfl, .inr (.inr ⟨hparent, rfl, rfl⟩)⟩

/-- Another name for every temporary file. -/
def otherDraws : Path → Storage.Suffix :=
  fun _ => ⟨"000001", by decide, by decide⟩

/-- The mapfile that cannot be put cannot be put again, whatever its temporary file is called. -/
theorem nestedStorage_again :
    Arguments.ofWords ["fields", "-o", "maps"] = .ok fieldsArguments ∧ nestedStorage.WellFormed ∧
    StaysInReach fieldsArguments (nestedStorage.makeDirectories ⟨"maps"⟩).2
      (runOn .asPlanned ["fields", "-o", "maps"] nestedStorage).2 ∧
    failedTasks .asPlanned fieldsArguments nestedStorage =
      [⟨⟨"fields/a.qgs"⟩, ⟨"maps/a.map"⟩⟩] ∧
    runOn .asPlanned ["fields", "-o", "maps"]
        ((runOn .asPlanned ["fields", "-o", "maps"] nestedStorage).2.redraw otherDraws) =
      ((runOn .asPlanned ["fields", "-o", "maps"] nestedStorage).1,
        (runOn .asPlanned ["fields", "-o", "maps"] nestedStorage).2.redraw otherDraws) := by
  have hwords : Arguments.ofWords ["fields", "-o", "maps"] = .ok fieldsArguments := rfl
  have hwell : nestedStorage.WellFormed := .of_check (by decide +kernel)
  have houtput : fieldsArguments.output.text ≠ [] := by decide
  have hmade : nestedStorage.makeDirectories fieldsArguments.output = (.ok (), nestedStorage) :=
    leadsTo_nested.makeDirectories
  have hsame : ∀ other, ¬ (["maps"] : Location) <+: other →
      (runArguments .asPlanned fieldsArguments nestedStorage).2.root.occupant? other =
        (nestedStorage.makeDirectories fieldsArguments.output).2.root.occupant? other :=
    fun other hother => occupant?_runArguments .asPlanned hwell houtput plannedTasks?_nested
      (by rw [hmade]; exact leadsTo_nested) hother
  have hinput : (runArguments .asPlanned fieldsArguments nestedStorage).2.LeadsTo
      fieldsArguments.input ["fields"] := by
    obtain ⟨place, course⟩ := exists_course .asPlanned hwell houtput plannedTasks?_nested
    refine course.grows.leadsTo ?_
    rw [hmade]
    exact ⟨by decide +kernel, rfl⟩
  have hreach : StaysInReach fieldsArguments (nestedStorage.makeDirectories ⟨"maps"⟩).2
      (runOn .asPlanned ["fields", "-o", "maps"] nestedStorage).2 := by
    rw [runOn_eq .asPlanned hwords]
    exact staysInReach_of_apart hinput hsame (by decide) (by decide)
  obtain ⟨hstorage, -, houtcome⟩ := runOn_again .asPlanned .asPlanned hwords hwell otherDraws hreach
  refine ⟨hwords, hwell, hreach, ?_, Prod.ext ?_ hstorage⟩
  · rw [failedTasks, plannedTasks?_nested]
    dsimp only
    rw [hmade]
    decide +kernel
  · rcases houtcome with hsame | ⟨_, _, hfile, -⟩ | ⟨hparent, -⟩
    · exact hsame
    · rw [hmade] at hfile
      revert hfile
      decide +kernel
    · revert hparent
      decide +kernel

/-- The survey where no temporary file can be written. -/
def fullStorage : Storage where
  root := Storage.surveyStorage.root
  writeFault? := fun _ => some (0, .storageFull)

/-- A fault of a temporary file is told with the name that was drawn, which is another one the second
time. -/
theorem full_told_otherwise :
    (run ["survey.qgs", "-o", "maps"] fullStorage).1 = .failure
      (temporaryFailure fullStorage ⟨⟨"survey.qgs"⟩, ⟨"maps/survey.map"⟩⟩ .storageFull) ∧
    (run ["survey.qgs", "-o", "maps"]
        ((run ["survey.qgs", "-o", "maps"] fullStorage).2.redraw otherDraws)).1 = .failure
      (temporaryFailure (fullStorage.redraw otherDraws) ⟨⟨"survey.qgs"⟩, ⟨"maps/survey.map"⟩⟩
        .storageFull) ∧
    temporaryFailure fullStorage ⟨⟨"survey.qgs"⟩, ⟨"maps/survey.map"⟩⟩ .storageFull ≠
      temporaryFailure (fullStorage.redraw otherDraws) ⟨⟨"survey.qgs"⟩, ⟨"maps/survey.map"⟩⟩
        .storageFull := by
  refine ⟨?_, ?_, ?_⟩ <;> decide +kernel

/-- A file, and nothing else. -/
def fileStorage : Storage where
  root := .directory [("f", .file [])]

/-- A file that stands in the way behind two dots is found at another place the second time. -/
theorem dots_told_otherwise :
    (run ["f", "-o", "new/../f/x"] fileStorage).1 =
      .failure (outputFailure ⟨"new/../f/x"⟩ .alreadyExists) ∧
    (run ["f", "-o", "new/../f/x"] (run ["f", "-o", "new/../f/x"] fileStorage).2).1 =
      .failure (outputFailure ⟨"new/../f/x"⟩ .notADirectory) ∧
    ¬ ∀ (words : List Name) (arguments : Arguments) (storage : Storage),
      Arguments.ofWords words = .ok arguments → storage.WellFormed →
      run words (run words storage).2 = run words storage := by
  have hfirst : (run ["f", "-o", "new/../f/x"] fileStorage).1 =
      .failure (outputFailure ⟨"new/../f/x"⟩ .alreadyExists) := by decide +kernel
  have hsecond : (run ["f", "-o", "new/../f/x"] (run ["f", "-o", "new/../f/x"] fileStorage).2).1 =
      .failure (outputFailure ⟨"new/../f/x"⟩ .notADirectory) := by decide +kernel
  refine ⟨hfirst, hsecond, fun h => ?_⟩
  have hsame := h ["f", "-o", "new/../f/x"] _ fileStorage rfl (.of_check (by decide +kernel))
  rw [hsame, hfirst] at hsecond
  exact absurd hsecond (by decide +kernel)

end Carta.Command
