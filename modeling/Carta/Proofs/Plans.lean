import Carta.Proofs.Runs

/-!
# The tasks that a run plans

A run converts the input, if it is a file, or the projects below it. What it plans can be performed:
the mapfile of every project is below the output under names that entries have, no two projects have
the same one, and every project is read from where it was found.
-/

namespace Carta.Command

open Storage (Location LeadsTo maxNameSize pathFault?)

/-- The root that mapfiles are planned from: the input, if it is a directory. -/
def rootOf (arguments : Arguments) (storage : Storage) : Path :=
  if storage.isDirectory arguments.input then arguments.input else ⟨[]⟩

/-- The tasks of a run on a tree with the output directory, if it can be planned. -/
def tasksFor? (arguments : Arguments) (storage : Storage) : Option (List Task) :=
  if storage.isFile arguments.input then
    if isProjectFile arguments.input then
      (mapFileFor ⟨[]⟩ arguments.input arguments.output).toOption.map fun mapFile =>
        [⟨arguments.input, mapFile⟩]
    else none
  else
    (collectProjects storage arguments.input).toOption.bind fun projects =>
      (planOutputs arguments.input projects arguments.output).toOption

/-- A path is that of a file when it leads to one. -/
theorem isFile_eq_true_iff {storage : Storage} {path : Path} : storage.isFile path = true ↔
    ∃ location content, storage.locate path = .ok location ∧
      storage.root.occupant? location = some (.file content) := by
  constructor
  · intro h
    rw [Storage.isFile] at h
    split at h
    next content hopen =>
      obtain ⟨location, hlocate, hat⟩ := Storage.open?_eq_ok_iff.mp hopen
      exact ⟨location, content, hlocate, Storage.Node.occupant?_eq_file_iff.mpr hat⟩
    next => cases h
  · rintro ⟨location, content, hlocate, hfile⟩
    have hopen := Storage.open?_eq_ok_iff.mpr
      ⟨location, hlocate, Storage.Node.occupant?_eq_file_iff.mp hfile⟩
    rw [Storage.isFile, hopen]

/-- What is a file is no directory. -/
theorem not_isFile_of_leadsTo {storage : Storage} {path : Path} {location : Location}
    (h : storage.LeadsTo path location) : ¬ storage.isFile path = true := by
  intro hfile
  obtain ⟨other, content, hlocate, hfile⟩ := isFile_eq_true_iff.mp hfile
  obtain rfl := Except.ok.inj (h.locate.symm.trans hlocate)
  exact nomatch h.directory.symm.trans hfile

section

variable {arguments : Arguments} {storage : Storage} {tasks : List Task}

/-- The mapfile of a project is aimed at by the names that lead to the project. -/
theorem isAimed_of_parts {project mapFile : Path} {directories : List Name} {name : Name}
    (hparts : mapFile.parts =
      arguments.output.front ++ (directories ++ [Path.mapName name]).map .later)
    (habove : ∀ other ∈ directories, IsEntryName other ∧ other.length ≤ maxNameSize)
    (hname : IsEntryName name ∧ name.length ≤ maxNameSize)
    (hproject : Path.isProjectName name = true) :
    (Task.mk project mapFile).IsAimed arguments.output directories (Path.mapName name) where
  parts := hparts
  above := habove
  own := ⟨Path.isEntryName_mapName hname.1, (Path.length_mapName hproject).trans_le hname.2⟩
  spared := Path.isProjectName_mapName name

/-- The mapfile of a single file is aimed at in the output itself. -/
theorem isAimed_file (houtput : arguments.output.text ≠ []) (hfile : storage.isFile arguments.input)
    (hproject : isProjectFile arguments.input = true) {mapFile : Path}
    (hmapFile : mapFileFor ⟨[]⟩ arguments.input arguments.output = .ok mapFile) :
    ∃ name, (Task.mk arguments.input mapFile).IsAimed arguments.output [] name := by
  obtain ⟨location, content, hlocate, hthere⟩ := isFile_eq_true_iff.mp hfile
  obtain ⟨directory, name, -, hname, hentry⟩ := Storage.exists_of_locate_file hlocate hthere
  have hnamed : Path.isProjectName name = true := by
    rwa [Path.isProjectFile_eq, hname, Option.any_some] at hproject
  have hnone : ∀ other ∈ ([] : List Name), IsEntryName other := nofun
  have hparts := Path.parts_join_join houtput hnone (Path.isEntryName_mapName hentry.1)
  obtain ⟨stem, hstem, -, rfl⟩ := Path.mapFileFor_eq_ok_iff.mp hmapFile
  rw [Path.fileStem?, hname, Option.map_some, Option.some.injEq] at hstem
  subst hstem
  exact ⟨_, isAimed_of_parts hparts nofun hentry hnamed⟩

/-- The task of a single file is ready. -/
theorem isReady_file (houtput : arguments.output.text ≠ []) (hfile : storage.isFile arguments.input)
    (hproject : isProjectFile arguments.input = true) {mapFile : Path}
    (hmapFile : mapFileFor ⟨[]⟩ arguments.input arguments.output = .ok mapFile) :
    IsReady arguments storage ⟨arguments.input, mapFile⟩ := by
  obtain ⟨location, content, hlocate, hthere⟩ := isFile_eq_true_iff.mp hfile
  obtain ⟨name, haimed⟩ := isAimed_file houtput hfile hproject hmapFile
  exact ⟨⟨[], name, haimed⟩, .inr ⟨location, content, hlocate, hthere⟩, hproject⟩

/-- The task of a project below a directory is ready. -/
theorem isReady_collected (houtput : arguments.output.text ≠ []) (hnamed : Named storage.root)
    {location : Location} (hleads : storage.LeadsTo arguments.input location) {names : List Name}
    {found : Storage.Node} (hne : names ≠ []) (hat : storage.root.at? (location ++ names) = some found)
    (hcollected : IsCollected (arguments.input.descend names) found) {mapFile : Path}
    (hmapFile : mapFileFor arguments.input (arguments.input.descend names) arguments.output =
      .ok mapFile) :
    IsReady arguments storage ⟨arguments.input.descend names, mapFile⟩ := by
  have hsome : storage.root.occupant? (location ++ names) ≠ none := by
    rw [ne_eq, Storage.Node.occupant?_eq_none_iff, hat]
    exact Option.some_ne_none _
  have hsizes := hnamed.of_append hsome
  refine ⟨?_, ?_, hcollected.1⟩
  · obtain ⟨directories, name, rfl⟩ := (List.eq_nil_or_concat' names).resolve_left hne
    simp only [List.forall_mem_append, List.forall_mem_singleton] at hsizes
    have hentries := fun other hother => (hsizes.1 other hother).1
    have hparts :=
      Path.parts_of_mapFileFor_descend houtput hentries hleads.text_ne_empty hsizes.2.1 hmapFile
    have hproject : Path.isProjectName name = true :=
      (Path.isProjectFile_descend hleads.text_ne_empty hentries hsizes.2.1).symm.trans hcollected.1
    exact ⟨directories, _, isAimed_of_parts hparts hsizes.1 hsizes.2 hproject⟩
  · rcases hcollected.2 with ⟨content, rfl⟩ | hfault
    · cases hfault : pathFault? (arguments.input.descend names) with
      | some fault => exact .inl (by simp [hfault])
      | none =>
        have hentries := fun other hother => (hsizes other hother).1
        have hparts := Path.parts_descend hleads.text_ne_empty hentries hne
        exact .inr ⟨_, content, hleads.locate_of_occupant? hparts hsizes hfault hsome,
          Storage.Node.occupant?_eq_file_iff.mpr hat⟩
    · exact .inl hfault

/-- What is left of an outcome without its error is its success. -/
theorem toOption_eq_some_iff {E A : Type} {result : Except E A} {a : A} :
    result.toOption = some a ↔ result = .ok a := by
  cases result <;> simp [Except.toOption]

/-- The tasks of a run that is planned: that of the input, or those of the projects below it. -/
theorem tasksFor?_cases (h : tasksFor? arguments storage = some tasks) :
    (storage.isFile arguments.input = true ∧ isProjectFile arguments.input = true ∧
      ∃ mapFile, mapFileFor ⟨[]⟩ arguments.input arguments.output = .ok mapFile ∧
        tasks = [⟨arguments.input, mapFile⟩]) ∨
    ∃ projects, collectProjects storage arguments.input = .ok projects ∧
      tasks.map (·.project) = projects ∧
      (∀ task ∈ tasks, mapFileFor arguments.input task.project arguments.output = .ok task.mapFile) ∧
      tasks.Pairwise fun first second => ¬ first.mapFile.same second.mapFile = true := by
  rw [tasksFor?] at h
  split at h
  next hfile =>
    split at h
    next hproject =>
      obtain ⟨mapFile, hmapFile, rfl⟩ := Option.map_eq_some_iff.mp h
      exact .inl ⟨hfile, hproject, mapFile, toOption_eq_some_iff.mp hmapFile, rfl⟩
    next => cases h
  next =>
    obtain ⟨projects, hprojects, hplan⟩ := Option.bind_eq_some_iff.mp h
    obtain ⟨⟨more, rfl, hmore, hfiles⟩, hdistinct⟩ :=
      planAfter_eq_ok (toOption_eq_some_iff.mp hplan) .nil
    exact .inr ⟨projects, toOption_eq_some_iff.mp hprojects, hmore, hfiles, hdistinct⟩

/-- The tasks of a run are ready, and no two of them have the same mapfile. -/
theorem isReady_of_tasksFor? (houtput : arguments.output.text ≠ [])
    (hordered : storage.root.Ordered) (hnamed : Named storage.root)
    (h : tasksFor? arguments storage = some tasks) :
    (∀ task ∈ tasks, IsReady arguments storage task) ∧
    (∀ task ∈ tasks,
      mapFileFor (rootOf arguments storage) task.project arguments.output = .ok task.mapFile) ∧
    tasks.Pairwise fun first second => ¬ first.mapFile.same second.mapFile = true := by
  rcases tasksFor?_cases h with
    ⟨hfile, hproject, mapFile, hmapFile, rfl⟩ | ⟨projects, hprojects, hmap, hfiles, hdistinct⟩
  · have hroot : rootOf arguments storage = ⟨[]⟩ := by
      rw [rootOf, if_neg]
      rw [Storage.isDirectory_eq_true_iff]
      rintro ⟨location, hleads⟩
      exact not_isFile_of_leadsTo hleads hfile
    rw [hroot]
    simp only [List.forall_mem_singleton, List.pairwise_singleton, and_true]
    exact ⟨isReady_file houtput hfile hproject hmapFile, hmapFile⟩
  · obtain ⟨location, hleads, hcollected, -⟩ := mem_collectProjects hprojects
    have hroot : rootOf arguments storage = arguments.input := if_pos hleads.isDirectory
    rw [hroot]
    refine ⟨fun task htask => ?_, hfiles, hdistinct⟩
    obtain ⟨project, mapFile⟩ := task
    have hmem : project ∈ projects := hmap ▸ List.mem_map_of_mem (f := (·.project)) htask
    obtain ⟨names, found, hne, hat, rfl, hisCollected⟩ := hcollected hordered project hmem
    have hmapFile := hfiles _ htask
    exact isReady_collected houtput hnamed hleads hne hat hisCollected hmapFile

end

end Carta.Command
