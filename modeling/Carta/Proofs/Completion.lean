import Carta.Proofs.CommandLine
import Carta.Proofs.Courses

/-!
# What is there after a run

A run that succeeds has put the mapfile of every project in its place, but for projects below the
input whose path is too long to be looked at, which it passes over. A run of which some tasks failed
has done so for the others, and tells how many failed. Nothing else is changed: neither the projects,
nor any other file, nor what is in the place of a mapfile that could not be made. None of this
depends on the order of the tasks.
-/

namespace Carta.Command

open Storage (Location LeadsTo Grows SameFile Spares)

/-- What holds after a run with accepted arguments. -/
structure Fulfils (schedule : Schedule) (arguments : Arguments) (before : Storage)
    (outcome : Outcome) (after : Storage) : Prop where
  /-- Where the run succeeds, every project has its mapfile, unless its path is too long. -/
  complete : outcome.exitCode = 0 → ∀ project, IsProject arguments after project →
    project.text.length ≤ Storage.maxPathSize → ∃ mapFile,
      mapFileFor (rootOf arguments after) project arguments.output = .ok mapFile ∧
      IsConverted arguments after ⟨project, mapFile⟩
  /-- Where tasks were performed, this holds for every project whose task did not fail. -/
  converted : ∀ tasks, plannedTasks? arguments before = some tasks →
    ∀ project, IsProject arguments after project →
      project.text.length ≤ Storage.maxPathSize → ∃ mapFile,
        mapFileFor (rootOf arguments after) project arguments.output = .ok mapFile ∧
        ⟨project, mapFile⟩ ∈ tasks ∧
        (⟨project, mapFile⟩ ∉ failedTasks schedule arguments before →
          IsConverted arguments after ⟨project, mapFile⟩)
  /-- Where tasks failed, the run fails, and for a directory it tells how many projects they are. -/
  counted : failedTasks schedule arguments before ≠ [] → outcome.exitCode = 1 ∧
    ((failedTasks schedule arguments before).map (·.project)).Nodup ∧
    (after.isDirectory arguments.input = true → outcome =
      .failure { message := failureMessage (failedTasks schedule arguments before) })
  /-- Where a task failed, no file was made or changed in the place of its mapfile. -/
  untouched : ∀ task ∈ failedTasks schedule arguments before, ∀ location,
    after.locate task.mapFile = .ok location → SameFile before after location
  /-- Files are as they were where no mapfile was planned. -/
  others : ∀ location, (∀ tasks, plannedTasks? arguments before = some tasks →
    ∀ task ∈ tasks, after.locate task.mapFile ≠ .ok location) → SameFile before after location
  /-- The project files are as they were. -/
  projects : ∀ directory name, Path.isProjectName name = true →
    SameFile before after (directory ++ [name])
  /-- What is a project before the run is one after it, and reads the same. -/
  found : ∀ project, IsProject arguments before project →
    IsProject arguments after project ∧ after.open? project = before.open? project
  /-- The tree is still one that can be there. -/
  wellFormed : after.WellFormed

section Fulfilment

variable {schedule : Schedule} {arguments : Arguments} {storage : Storage}
  (hwell : storage.WellFormed)

include hwell

/-- A run that plans nothing leaves the files as they were. -/
theorem fulfils_of_none (h : plannedTasks? arguments storage = none) (report : Report) :
    Fulfils schedule arguments storage (.failure report)
      (storage.makeDirectories arguments.output).2 := by
  obtain ⟨hgrows, hwell'⟩ := grows_of_makeDirectories hwell arguments.output
  have hfailed : failedTasks schedule arguments storage = [] := by rw [failedTasks, h]
  constructor
  case complete => rintro ⟨⟩
  case converted =>
    exact fun tasks htasks => absurd (htasks.symm.trans h) (Option.some_ne_none tasks)
  case counted => exact fun hne => absurd hfailed hne
  case untouched =>
    rw [hfailed]
    exact fun task hmem => absurd hmem List.not_mem_nil
  case others => exact fun location _ => hgrows.files location (Set.notMem_empty _)
  case projects => exact fun directory name _ => hgrows.files _ (Set.notMem_empty _)
  case found =>
    exact fun project hproject => hproject.mono hwell hgrows Storage.spares_empty
      fun _ _ _ _ => Set.notMem_empty _
  case wellFormed => exact hwell'

/-- A run that performs tasks leaves what it should. -/
theorem fulfils_of_some (houtput : arguments.output.text ≠ []) {tasks : List Task}
    (h : plannedTasks? arguments storage = some tasks) {outcome : Outcome}
    (hsuccess : failedTasks schedule arguments storage = [] → outcome = .success)
    (hfailure : failedTasks schedule arguments storage ≠ [] → ∃ report, outcome = .failure report ∧
      ((storage.makeDirectories arguments.output).2.isFile arguments.input = true ∨
        report = { message := failureMessage (failedTasks schedule arguments storage) })) :
    Fulfils schedule arguments storage outcome (runArguments schedule arguments storage).2 := by
  obtain ⟨hgrows, -⟩ := grows_of_makeDirectories hwell arguments.output
  obtain ⟨place, course⟩ := exists_course schedule hwell houtput h
  have hbefore (location : Location) :
      SameFile storage (storage.makeDirectories arguments.output).2 location :=
    hgrows.files location (Set.notMem_empty _)
  constructor
  case complete =>
    intro hcode project hproject hsize
    obtain ⟨mapFile, hmapFile, -, hfine⟩ := course.exists_mapFile hproject hsize
    have hnone : failedTasks schedule arguments storage = [] := by
      by_contra hne
      obtain ⟨report, rfl, -⟩ := hfailure hne
      cases hcode
    exact ⟨mapFile, hmapFile, hfine (by simp [hnone])⟩
  case converted =>
    intro others hothers project hproject hsize
    obtain rfl := Option.some.inj (h.symm.trans hothers)
    exact course.exists_mapFile hproject hsize
  case counted =>
    intro hne
    obtain ⟨report, rfl, hreport⟩ := hfailure hne
    refine ⟨rfl, course.nodup, fun hdirectory => ?_⟩
    obtain ⟨location, hleads⟩ := Storage.isDirectory_eq_true_iff.mp hdirectory
    rcases hreport with hfile | rfl
    · rcases course.input_cases with ⟨-, hfile', -⟩ | ⟨other, -, hother, -⟩
      · exact absurd hfile' (not_isFile_of_leadsTo hleads)
      · exact absurd hfile (not_isFile_of_leadsTo hother)
    · rfl
  case untouched =>
    exact fun task htask location hlocate =>
      (hbefore location).trans (course.untouched htask hlocate)
  case others =>
    exact fun location hlocation =>
      (hbefore location).trans (course.others (hlocation tasks h))
  case projects =>
    exact fun directory name hname =>
      (hbefore _).trans (course.sameFile_project directory hname)
  case found =>
    intro project hproject
    obtain ⟨hprepared, hopen⟩ := hproject.mono hwell hgrows Storage.spares_empty
      fun _ _ _ _ => Set.notMem_empty _
    obtain ⟨hafter, hopen'⟩ := course.found hprepared
    exact ⟨hafter, hopen'.trans hopen⟩
  case wellFormed => exact course.after_wellFormed

end Fulfilment

/-- A run with accepted arguments, on any schedule. Where it succeeds, every project has its mapfile,
unless the path of the project is too long to be looked at; where tasks failed, every other project
has its mapfile, their number is told, and nothing was put in their places; and all other files, the
projects among them, are as they were. -/
theorem runOn_fulfils (schedule : Schedule) {words : List Name} {arguments : Arguments}
    (hwords : Arguments.ofWords words = .ok arguments) (storage : Storage)
    (hwell : storage.WellFormed) :
    Fulfils schedule arguments storage (runOn schedule words storage).1
      (runOn schedule words storage).2 := by
  obtain ⟨-, houtput⟩ := Arguments.text_ne_empty_of_ofWords hwords
  rw [runOn, hwords]
  dsimp only
  cases h : plannedTasks? arguments storage with
  | none =>
    obtain ⟨report, hrun⟩ := runArguments_of_none schedule h
    rw [hrun]
    exact fulfils_of_none hwell h report
  | some tasks =>
    obtain ⟨-, hsuccess, hfailure⟩ := runArguments_of_some schedule h
    have hfulfils := @fulfils_of_some schedule arguments storage hwell houtput tasks h
    generalize runArguments schedule arguments storage = result at hsuccess hfailure hfulfils ⊢
    obtain ⟨outcome, after⟩ := result
    cases outcome with
    | ok =>
      exact hfulfils (fun _ => rfl) fun hne => by
        obtain ⟨report, hreport, -⟩ := hfailure hne
        cases hreport
    | error report =>
      refine hfulfils (fun hnone => by cases hsuccess hnone) fun hne => ?_
      obtain ⟨other, hother, hmessage⟩ := hfailure hne
      obtain rfl := Except.error.inj hother
      exact ⟨report, rfl, hmessage⟩

/-- A directory with the survey and an empty file that is called like a project. -/
def fieldsStorage : Storage where
  root := .directory [("fields", .directory
    [("draft.qgs", .file []), ("survey.qgs", .file Mapfile.surveyDocument.root.serialize)])]

/-- The arguments of a run on the fields. -/
def fieldsArguments : Arguments where
  input := ⟨"fields"⟩
  output := ⟨"maps"⟩
  threads := none
  units := .meters
  imageType := "png"
  name := none
  width := 600
  height := 600
  minScale := none
  maxScale := none
  template := none
  header := none
  footer := none
  wmsOnlineResource := none
  outputFormatBlock := false

/-- The tasks of a run on the fields. -/
def fieldsTasks : List Task :=
  [⟨⟨"fields/draft.qgs"⟩, ⟨"maps/draft.map"⟩⟩, ⟨⟨"fields/survey.qgs"⟩, ⟨"maps/survey.map"⟩⟩]

/-- What is planned for the fields. -/
theorem plannedTasks?_fields : plannedTasks? fieldsArguments fieldsStorage = some fieldsTasks := by
  have hmade : (fieldsStorage.makeDirectories ⟨"maps"⟩).1 = .ok () := by decide +kernel
  have hfile : (fieldsStorage.makeDirectories ⟨"maps"⟩).2.isFile ⟨"fields"⟩ = false := by
    decide +kernel
  have hfound : ((fieldsStorage.makeDirectories ⟨"maps"⟩).2.entries ⟨"fields"⟩).toOption.map
      (projectsAmong ⟨"fields"⟩) = some (fieldsTasks.map (·.project)) := by decide +kernel
  have hplan : (planOutputs ⟨"fields"⟩ (fieldsTasks.map (·.project)) ⟨"maps"⟩).toOption =
      some fieldsTasks := by decide +kernel
  have hsorted : sortPaths (fieldsTasks.map (·.project)) = fieldsTasks.map (·.project) :=
    List.mergeSort_of_pairwise (by decide +kernel)
  have houtput : fieldsArguments.output = ⟨"maps"⟩ := rfl
  rw [plannedTasks?, houtput]
  generalize fieldsStorage.makeDirectories ⟨"maps"⟩ = result at hmade hfile hfound ⊢
  obtain ⟨made, prepared⟩ := result
  obtain rfl : made = .ok () := hmade
  obtain ⟨entries, hentries, hamong⟩ := Option.map_eq_some_iff.mp hfound
  have hcollected : collectProjects prepared ⟨"fields"⟩ = .ok (fieldsTasks.map (·.project)) := by
    rw [collectProjects, toOption_eq_some_iff.mp hentries, ← hsorted, ← hamong]
    rfl
  have hno : ¬ prepared.isFile fieldsArguments.input = true := by
    rw [Bool.not_eq_true]
    exact hfile
  change tasksFor? fieldsArguments prepared = some fieldsTasks
  rw [tasksFor?, if_neg hno]
  change (collectProjects prepared ⟨"fields"⟩).toOption.bind _ = _
  rw [hcollected]
  exact hplan

/-- Of the fields the draft cannot be converted, and the survey is. -/
theorem fieldsStorage_fulfils :
    Arguments.ofWords ["fields", "-o", "maps"] = .ok fieldsArguments ∧ fieldsStorage.WellFormed ∧
    failedTasks .asPlanned fieldsArguments fieldsStorage =
      [⟨⟨"fields/draft.qgs"⟩, ⟨"maps/draft.map"⟩⟩] ∧
    Fulfils .asPlanned fieldsArguments fieldsStorage
      (runOn .asPlanned ["fields", "-o", "maps"] fieldsStorage).1
      (runOn .asPlanned ["fields", "-o", "maps"] fieldsStorage).2 := by
  have hwords : Arguments.ofWords ["fields", "-o", "maps"] = .ok fieldsArguments := rfl
  have hwell : fieldsStorage.WellFormed := .of_check (by decide +kernel)
  refine ⟨hwords, hwell, ?_, runOn_fulfils .asPlanned hwords fieldsStorage hwell⟩
  rw [failedTasks, plannedTasks?_fields]
  decide +kernel

section PassedOver

/-- A path to the directory `in` with dots behind it, which say nothing. -/
def dotted : Nat → String
  | 0 => "in"
  | n + 1 => dotted n ++ "/."

/-- A further dot is a further part. -/
theorem encode_dotted_succ (n : Nat) :
    Text.Utf8.encode (dotted (n + 1)) = dotted n ++ [Name.slash] ++ [Name.dot] := by
  rw [dotted, Text.Utf8.encode_append, List.append_assoc]
  rfl

/-- The parts of the path are the name of the directory and dots. -/
theorem texts_dotted (n : Nat) :
    Path.texts ⟨dotted n⟩ = ("in" : Name) :: List.replicate n [Name.dot] := by
  induction n with
  | zero => exact Path.texts_eq_singleton (by decide)
  | succ n ih =>
    rw [encode_dotted_succ, Path.texts_append_slash, ih, Path.texts_eq_singleton (by decide),
      List.cons_append, List.replicate_succ']

/-- Every dot adds two bytes. -/
theorem length_dotted (n : Nat) : (Text.Utf8.encode (dotted n)).length = 2 * n + 2 := by
  induction n with
  | zero => rfl
  | succ n ih =>
    simp only [encode_dotted_succ, List.length_append, ih, List.length_singleton]
    omega

/-- The path begins with the name of the directory. -/
theorem head?_dotted (n : Nat) : (Text.Utf8.encode (dotted n)).head? = some 0x69 := by
  induction n with
  | zero => rfl
  | succ n ih => rw [encode_dotted_succ, List.append_assoc, List.head?_append, ih, Option.some_or]

/-- The path does not begin with the root. -/
theorem isAbsolute_dotted (n : Nat) : (Path.mk (dotted n)).isAbsolute = false := by
  rw [Path.isAbsolute, head?_dotted]
  rfl

/-- The path is not empty. -/
theorem dotted_ne_nil (n : Nat) : Text.Utf8.encode (dotted n) ≠ [] := by
  intro hnil
  have hlength := length_dotted n
  rw [hnil, List.length_nil] at hlength
  omega

/-- There is no NUL in the path. -/
theorem noNul_dotted (n : Nat) : (0 : UInt8) ∉ Text.Utf8.encode (dotted n) := by
  induction n with
  | zero => decide
  | succ n ih =>
    simp only [encode_dotted_succ, List.mem_append, List.mem_singleton, not_or]
    exact ⟨⟨ih, by decide⟩, by decide⟩

/-- A project in a directory of `in`. -/
def dottedStorage : Storage where
  root := .directory
    [("in", .directory [("d", .directory [("x.qgs", .file Mapfile.surveyDocument.root.serialize)])]),
      ("out", .directory [])]

/-- The path leads to the directory, wherever there is one. -/
theorem leadsTo_dotted {storage : Storage} (hhere : storage.here = [])
    (hthere : storage.root.occupant? ["in"] = some .directory) {n : Nat}
    (h : 2 * n + 2 ≤ Storage.maxPathSize) : storage.LeadsTo ⟨dotted n⟩ ["in"] := by
  have hfault : Storage.pathFault? ⟨dotted n⟩ = none :=
    Storage.pathFault?_eq_none_iff.mpr
      ⟨noNul_dotted n, dotted_ne_nil n, (length_dotted n).trans_le h⟩
  have hstart : storage.start ⟨dotted n⟩ = [] := by
    rw [Storage.start, isAbsolute_dotted]
    exact hhere
  have hsteps : Storage.stepsOf ⟨dotted n⟩ =
      .enter "in" :: (List.replicate n [Name.dot]).map Storage.Step.ofText := by
    have hmap : Storage.stepsOf ⟨dotted n⟩ = (Path.texts ⟨dotted n⟩).map Storage.Step.ofText := by
      rw [← Path.map_text_parts, List.map_map]
      rfl
    rw [hmap, texts_dotted]
    rfl
  have htop : storage.root.occupant? [] = some .directory :=
    @Storage.directory_of_isPrefix _ [] _ hthere _ List.nil_prefix
  refine ⟨Storage.locate_eq_ok_iff.mpr ⟨hfault, ?_, ?_⟩, hthere⟩
  · rw [hstart, htop]
    exact Option.some_ne_none _
  · rw [hstart, hsteps]
    refine Storage.route_enter_eq_ok_iff.mpr ⟨htop, by decide, by simp [hthere], ?_⟩
    refine Storage.route_stays (fun step hstep => ?_) hthere
    obtain ⟨text, htext, rfl⟩ := List.mem_map.mp hstep
    rw [List.eq_of_mem_replicate htext]
    rfl

/-- The path is no option. -/
theorem isPlainWord_dotted (n : Nat) : IsPlainWord (dotted n) :=
  ⟨dotted_ne_nil n, by rw [head?_dotted]; decide⟩

/-- What names lead to from the directory has a path that is longer by them and a slash before each. -/
theorem text_descend_dotted (n : Nat) {names : List Name}
    (hnames : ∀ name ∈ names, IsEntryName name) :
    ((⟨dotted n⟩ : Path).descend names).text =
      Text.Utf8.encode (dotted n) ++ names.flatMap (Name.slash :: ·) := by
  have hlast : (Text.Utf8.encode (dotted n)).getLast? ≠ some Name.slash := by
    cases n with
    | zero => decide
    | succ n =>
      rw [encode_dotted_succ, List.getLast?_concat]
      decide
  have hne := dotted_ne_nil n
  generalize Text.Utf8.encode (dotted n) = base at hlast hne
  induction names generalizing base with
  | nil => simp [Path.descend]
  | cons name rest ih =>
    rw [List.forall_mem_cons] at hnames
    have hjoin : (⟨base⟩ : Path).join ⟨name⟩ = ⟨base ++ [Name.slash] ++ name⟩ := by
      rw [Path.join, if_neg (by simp [Path.isAbsolute_name hnames.1]), if_neg (by simp [hlast, hne])]
    have hstep : (⟨base⟩ : Path).descend (name :: rest) =
        ((⟨base⟩ : Path).join ⟨name⟩).descend rest := rfl
    rw [hstep, hjoin, ih hnames.2]
    · simp
    · intro hslash
      rw [List.getLast?_append_of_ne_nil _ hnames.1.ne_empty] at hslash
      exact hnames.1.noSlash (List.mem_of_getLast? hslash)
    · simp

variable {n : Nat}

/-- Each name below the directory makes the path longer. -/
theorem length_descend_dotted {names : List Name} (hnames : ∀ name ∈ names, IsEntryName name) :
    ((⟨dotted n⟩ : Path).descend names).text.length =
      2 * n + 2 + (names.flatMap (Name.slash :: ·)).length := by
  rw [text_descend_dotted n hnames, List.length_append, length_dotted]

/-- A path below the directory can be looked up when it is short enough. -/
theorem pathFault?_descend_dotted {names : List Name} (hnames : ∀ name ∈ names, IsEntryName name) :
    Storage.pathFault? ((⟨dotted n⟩ : Path).descend names) = none ↔
      2 * n + 2 + (names.flatMap (Name.slash :: ·)).length ≤ Storage.maxPathSize := by
  rw [Storage.pathFault?_eq_none_iff, length_descend_dotted hnames]
  refine ⟨fun h => h.2.2, fun hsize => ⟨?_, ?_, hsize⟩⟩
  · rw [text_descend_dotted n hnames, List.mem_append, List.mem_flatMap, not_or]
    refine ⟨noNul_dotted n, ?_⟩
    rintro ⟨name, hname, hzero⟩
    rcases List.mem_cons.mp hzero with hslash | hzero
    · exact absurd hslash (by decide)
    · exact (hnames name hname).noNul hzero
  · exact Path.descend_text_ne_empty (dotted_ne_nil n) hnames

variable (hfits : 2 * n + 2 ≤ Storage.maxPathSize)
  (hlong : Storage.maxPathSize < 2 * n + 4)

include hfits hlong

/-- No project is collected where the paths are too long. -/
theorem collectProjects_dotted : collectProjects dottedStorage ⟨dotted n⟩ = .ok [] := by
  have hleads := @leadsTo_dotted dottedStorage rfl rfl n hfits
  have hentries : dottedStorage.entries ⟨dotted n⟩ = .ok
      [("d", .directory [("x.qgs", .file Mapfile.surveyDocument.root.serialize)])] := by
    rw [Storage.entries, Storage.open?_eq_ok_iff.mpr ⟨_, hleads.locate, rfl⟩]
  have hfault : Storage.pathFault? ((⟨dotted n⟩ : Path).join ⟨"d"⟩) ≠ none := by
    intro hnone
    have hsize := (@pathFault?_descend_dotted n ["d"] (by decide)).mp hnone
    have hsum : ((["d"] : List Name).flatMap (Name.slash :: ·)).length = 2 := by decide
    omega
  have hproject : isProjectFile ((⟨dotted n⟩ : Path).join ⟨"d"⟩) = false := by
    have hnone : ∀ name ∈ ([] : List Name), IsEntryName name := List.forall_mem_nil _
    have hentry : IsEntryName "d" := by decide
    exact (Path.isProjectFile_descend hleads.text_ne_empty hnone hentry).trans (by decide)
  rw [collectProjects, hentries]
  have hnone : projectsAmong ⟨dotted n⟩
      [("d", .directory [("x.qgs", .file Mapfile.surveyDocument.root.serialize)])] = [] := by
    rw [projectsAmong, projectsAmong]
    simp [hfault, hproject]
  simp only [bind, Except.bind, hnone, sortPaths, List.mergeSort_nil]
  rfl

/-- A run on a directory whose path leaves no room for what is in it converts nothing, and
succeeds. -/
theorem runOn_dotted (schedule : Schedule) :
    runOn schedule [dotted n, "-o", "out"] dottedStorage = (.success, dottedStorage) := by
  obtain ⟨arguments, hwords, hinput, houtput⟩ :=
    exists_ofWords_eq_ok (isPlainWord_dotted n) (show IsPlainWord "out" by decide)
  have hleads := @leadsTo_dotted dottedStorage rfl rfl n hfits
  have hout : dottedStorage.LeadsTo ⟨"out"⟩ ["out"] := ⟨by decide +kernel, rfl⟩
  have hnone : schedule.order [] = [] := (schedule.perm []).eq_nil
  rw [runOn, hwords]
  dsimp only
  rw [runArguments, houtput, hout.makeDirectories]
  dsimp only
  rw [hinput, if_neg (not_isFile_of_leadsTo hleads), if_pos hleads.isDirectory, runDirectory, hinput,
    collectProjects_dotted hfits hlong]
  simp only [planOutputs, planAfter, hnone, performAll]
  rfl

end PassedOver

/-- A run on a directory whose path is almost as long as a path can be succeeds, and does not convert
the project that is there. -/
theorem dotted_not_converted : ∃ arguments project,
    Arguments.ofWords [dotted 2046, "-o", "out"] = .ok arguments ∧ dottedStorage.WellFormed ∧
    (∀ schedule, runOn schedule [dotted 2046, "-o", "out"] dottedStorage =
      (.success, dottedStorage)) ∧
    IsProject arguments dottedStorage project ∧
    ∀ mapFile, mapFileFor (rootOf arguments dottedStorage) project arguments.output = .ok mapFile →
      ¬ IsConverted arguments dottedStorage ⟨project, mapFile⟩ := by
  obtain ⟨arguments, hwords, hinput, houtput⟩ :=
    exists_ofWords_eq_ok (isPlainWord_dotted 2046) (show IsPlainWord "out" by decide)
  have hleads := @leadsTo_dotted dottedStorage rfl rfl 2046 (by decide)
  have hnames : ∀ name ∈ (["d"] : List Name), IsEntryName name := by
    rw [List.forall_mem_singleton]
    decide
  have hname : IsEntryName "x.qgs" := by decide
  have hproject : isProjectFile ((⟨dotted 2046⟩ : Path).descend ["d", "x.qgs"]) = true :=
    (Path.isProjectFile_descend hleads.text_ne_empty hnames hname).trans (by decide)
  refine ⟨arguments, (⟨dotted 2046⟩ : Path).descend ["d", "x.qgs"], hwords,
    .of_check (by decide +kernel), runOn_dotted (by decide) (by decide), ?_, ?_⟩
  · rw [← hinput] at hleads hproject ⊢
    exact .below hleads (List.cons_ne_nil _ _) rfl hproject
  · rintro mapFile hmapFile ⟨document, text, -, -, hopen⟩
    have hout : dottedStorage.LeadsTo ⟨"out"⟩ ["out"] := ⟨by decide +kernel, rfl⟩
    rw [rootOf, hinput, if_pos hleads.isDirectory, houtput] at hmapFile
    have hparts :=
      Path.parts_of_mapFileFor_descend hout.text_ne_empty hnames hleads.text_ne_empty hname hmapFile
    -- There is nothing in the output directory.
    obtain ⟨location, hlocate, hat⟩ := Storage.open?_eq_ok_iff.mp hopen
    have hentries : ∀ name ∈ (["d"] : List Name) ++ [Path.mapName "x.qgs"], IsEntryName name := by
      simp only [List.forall_mem_append, List.forall_mem_singleton]
      exact ⟨hnames "d" (List.mem_singleton_self _), Path.isEntryName_mapName hname⟩
    obtain rfl := hout.eq_of_locate hparts hentries hlocate
    cases hat

end Carta.Command
