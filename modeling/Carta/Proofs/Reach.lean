import Carta.Proofs.Completion
import Carta.Proofs.ListedProjects
import Carta.Proofs.MirroredPlans
import Carta.Proofs.Requirements
import Carta.Proofs.SettledTasks

/-!
# Directories that a run makes below its input

A directory that a run makes is found by the next one, where the output is below the input. It is no
project, for it is a directory, as long as it can be looked at; one that has the name of a project and
a path that is too long for that is taken for a project, and the run that tries to read it fails.
-/

namespace Carta.Command

open Storage (Location Occupant Node LeadsTo)

/-- No directory that is made below the input, in one that can be looked at, has the name of a project
and a path that is too long to be looked at. -/
def StaysInReach (arguments : Arguments) (before after : Storage) : Prop :=
  ∀ location names, after.LeadsTo arguments.input location → names ≠ [] →
    before.root.occupant? (location ++ names) ≠ some .directory →
    after.root.occupant? (location ++ names) = some .directory →
    isProjectFile (arguments.input.descend names) = true →
    (arguments.input.descend names.dropLast).text.length ≤ Storage.maxPathSize →
    (arguments.input.descend names).text.length ≤ Storage.maxPathSize

/-- A run changes nothing at places that are not below the output directory. -/
theorem occupant?_runArguments (schedule : Schedule) {arguments : Arguments} {storage : Storage}
    {tasks : List Task} (hwell : storage.WellFormed) (houtput : arguments.output.text ≠ [])
    (h : plannedTasks? arguments storage = some tasks) {place location : Location}
    (hplace : (storage.makeDirectories arguments.output).2.LeadsTo arguments.output place)
    (hbelow : ¬ place <+: location) :
    (runArguments schedule arguments storage).2.root.occupant? location =
      (storage.makeDirectories arguments.output).2.root.occupant? location := by
  obtain ⟨_, course⟩ := exists_course schedule hwell houtput h
  obtain ⟨hafter, -, -⟩ := runArguments_of_some schedule h
  rw [hafter]
  exact performAll_outside
    (fun task htask => course.ready task ((schedule.perm tasks).mem_iff.mp htask))
    course.prepared_wellFormed.ordered hplace hbelow

/-- A run whose output directory is apart from the input makes no directory below the input. -/
theorem staysInReach_of_apart {arguments : Arguments} {before after : Storage}
    {location place : Location} (hinput : after.LeadsTo arguments.input location)
    (hsame : ∀ other, ¬ place <+: other →
      after.root.occupant? other = before.root.occupant? other)
    (hbelow : ¬ place <+: location) (habove : ¬ location <+: place) :
    StaysInReach arguments before after := by
  intro location' names hleads _ hnew hafter _ _
  obtain rfl : location' = location := Except.ok.inj (hleads.locate.symm.trans hinput.locate)
  have hoff : ¬ place <+: location' ++ names := fun hplace =>
    (List.prefix_or_prefix_of_prefix hplace (List.prefix_append location' names)).elim hbelow habove
  exact absurd ((hsame _ hoff).symm.trans hafter) hnew

/-- What is loaded has a path that can be looked up. -/
theorem pathFault?_of_load {storage : Storage} {path : Path} {document : Project.Document}
    (h : storage.load path = .ok document) : Storage.pathFault? path = none := by
  have hopen : ∃ node, (storage.open? path).mapError Error.storage = .ok node := by
    rw [Storage.load, Storage.loadArchive] at h
    split at h
    all_goals
      obtain ⟨node, hnode, -⟩ := bind_eq_ok_iff.mp h
      exact ⟨node, hnode⟩
  obtain ⟨node, hnode⟩ := hopen
  cases hpath : storage.open? path with
  | error fault =>
    rw [hpath] at hnode
    cases hnode
  | ok node =>
    obtain ⟨location, hlocate, -⟩ := Storage.open?_eq_ok_iff.mp hpath
    exact (Storage.locate_eq_ok_iff.mp hlocate).1

/-- A run does not succeed when something is listed below its input that cannot be looked at. -/
theorem not_isOk_of_far (schedule : Schedule) {arguments : Arguments} {storage : Storage}
    (hwell : storage.WellFormed) {place location : Location} {names : List Name}
    (houtput : storage.LeadsTo arguments.output place)
    (hleads : storage.LeadsTo arguments.input location) (hne : names ≠ [])
    (hlisted : IsListed arguments.input names (storage.root.occupant? (location ++ names)))
    (hfar : Storage.pathFault? (arguments.input.descend names) ≠ none) :
    (runArguments schedule arguments storage).1.isOk = false := by
  cases h : plannedTasks? arguments storage with
  | none =>
    obtain ⟨report, hrun⟩ := runArguments_of_none schedule h
    rw [hrun]
    rfl
  | some tasks =>
    obtain ⟨-, -, hfailure⟩ := runArguments_of_some schedule h
    obtain ⟨_, course⟩ := exists_course schedule hwell houtput.text_ne_empty h
    rw [houtput.makeDirectories] at course
    have hfailed : failedTasks schedule arguments storage ≠ [] := by
      intro hnone
      rcases course.input_cases with ⟨hfile, -⟩ | ⟨_, projects, -, -, hprojects, hmap⟩
      · exact not_isFile_of_leadsTo hleads hfile
      · -- What is listed has a task, and that task has nothing to put.
        obtain ⟨entries, hcollected, hordered, hbelow⟩ :=
          collectProjects_of_leadsTo hleads hwell.ordered
        obtain rfl := Except.ok.inj (hcollected.symm.trans hprojects)
        have hmem : arguments.input.descend names ∈ tasks.map (·.project) := by
          rw [hmap, sortPaths, List.mem_mergeSort, mem_projectsAmong_iff _ _ hordered]
          exact ⟨names, hne, rfl, hbelow names ▸ hlisted⟩
        obtain ⟨task, htask, hproject⟩ := List.mem_map.mp hmem
        obtain ⟨content, hcontent, -⟩ := course.put task htask (hnone ▸ List.not_mem_nil)
        rw [contentOf?] at hcontent
        split at hcontent
        next => cases hcontent
        next text htext =>
          obtain ⟨document, hload, -⟩ := bind_eq_ok_iff.mp htext
          exact hfar (hproject ▸ pathFault?_of_load hload)
    obtain ⟨report, hreport, -⟩ := hfailure hfailed
    rw [hreport]
    rfl

/-- A directory with a project in it that is called like a project, and one for mapfiles beside it. -/
def farStorage : Storage where
  root := .directory [("in", .directory [("mapfiles", .directory []),
    ("x.qgs", .directory [("y.qgs", .file Mapfile.surveyDocument.root.serialize)])])]

section Far

/-- The project in the directory that is called like one. -/
def farProject (n : Nat) : Path :=
  (⟨dotted n⟩ : Path).descend ["x.qgs", "y.qgs"]

/-- The project, seen from the directory above. -/
def farSource (n : Nat) : Source :=
  ⟨farProject n, ["x.qgs"], "y.qgs"⟩

/-- The task of the project. -/
def farTask (n : Nat) : Task :=
  ⟨farProject n, ⟨"in/mapfiles/x.qgs/y.map"⟩⟩

variable {n : Nat}

/-- The names that lead to the project are those of entries. -/
theorem isEntryName_below : ∀ name ∈ (["x.qgs", "y.qgs"] : List Name), IsEntryName name := by
  decide

/-- The project is found below the directory. -/
theorem farSource_isBelow : (farSource n).IsBelow ⟨dotted n⟩ where
  components := Path.components_descend _ isEntryName_below
  names := isEntryName_below

/-- The path of the project is that of a project. -/
theorem isProjectFile_far : isProjectFile (farProject n) = true := by
  have hroot : (Path.mk (dotted n)).text ≠ [] := dotted_ne_nil n
  have hnames : ∀ name ∈ (["x.qgs"] : List Name), IsEntryName name := by decide
  have hname : IsEntryName "y.qgs" := by decide
  exact (Path.isProjectFile_descend hroot hnames hname).trans (by decide)

/-- The project is planned to be put among the mapfiles. -/
theorem planOutputs_far :
    planOutputs ⟨dotted n⟩ [farProject n] ⟨"in/mapfiles"⟩ = .ok [farTask n] := by
  have hroot : (Path.mk (dotted n)).text ≠ [] := dotted_ne_nil n
  have hbelow : ∀ source ∈ [farSource n], source.IsBelow ⟨dotted n⟩ :=
    List.forall_mem_singleton.mpr farSource_isBelow
  have htask : (farSource n).task ⟨dotted n⟩ ⟨"in/mapfiles"⟩ = farTask n := by
    have hmirrors := Source.mirrors_mapFile hroot ⟨"in/mapfiles"⟩ (@farSource_isBelow n)
    have hnames : (farSource n).names = ["x.qgs", "y.map"] := by
      have hmapName : Path.mapName "y.qgs" = "y.map" := by decide
      rw [Source.names, farSource, hmapName]
      rfl
    have htext := hmirrors.text rfl
    rw [hnames] at htext
    rw [Source.task, htext]
    rfl
  have hstem : Name.isText (Path.splitName "y.qgs").1 = true := by decide
  have hplan := Source.planOutputs_of_nodup hroot ⟨"in/mapfiles"⟩ hbelow
    (List.forall_mem_singleton.mpr hstem) (List.nodup_singleton _)
  rwa [List.map_singleton, List.map_singleton, htask] at hplan

variable (hfits : 2 * n + 14 ≤ Storage.maxPathSize)

include hfits

/-- Only the project is collected. -/
theorem collectProjects_far : collectProjects farStorage ⟨dotted n⟩ = .ok [farProject n] := by
  have hleads := @leadsTo_dotted farStorage rfl rfl n (by omega)
  have hentries : farStorage.entries ⟨dotted n⟩ = .ok [("mapfiles", .directory []),
      ("x.qgs", .directory [("y.qgs", .file Mapfile.surveyDocument.root.serialize)])] := by
    rw [Storage.entries, Storage.open?_eq_ok_iff.mpr ⟨_, hleads.locate, rfl⟩]
  have hsizes : (Text.Utf8.encode "mapfiles").length = 8 ∧ (Text.Utf8.encode "x.qgs").length = 5 := by
    decide
  have hmapfiles : Storage.pathFault? ((⟨dotted n⟩ : Path).join ⟨"mapfiles"⟩) = none :=
    (@pathFault?_descend_dotted n ["mapfiles"] (by decide)).mpr (by simp [hsizes]; omega)
  have hnested : Storage.pathFault? ((⟨dotted n⟩ : Path).join ⟨"x.qgs"⟩) = none :=
    (@pathFault?_descend_dotted n ["x.qgs"] (by decide)).mpr (by simp [hsizes]; omega)
  have hproject : isProjectFile (((⟨dotted n⟩ : Path).join ⟨"x.qgs"⟩).join ⟨"y.qgs"⟩) = true :=
    isProjectFile_far
  have hinner : projectsAmong ((⟨dotted n⟩ : Path).join ⟨"x.qgs"⟩)
      [("y.qgs", .file Mapfile.surveyDocument.root.serialize)] = [farProject n] := by
    simp only [projectsAmong, hproject, Node.isDirectory]
    rfl
  have hamong : projectsAmong ⟨dotted n⟩ [("mapfiles", .directory []),
      ("x.qgs", .directory [("y.qgs", .file Mapfile.surveyDocument.root.serialize)])] =
        [farProject n] := by
    rw [projectsAmong, projectsAmong, projectsAmong, hmapfiles, hnested, projectsBelow, projectsBelow,
      hinner]
    simp [Node.isDirectory, sortPaths, projectsAmong]
  rw [collectProjects, hentries]
  simp only [bind, Except.bind, hamong, sortPaths, List.mergeSort_singleton]
  rfl

/-- The project is loaded, though its path is almost too long. -/
theorem load_far : ∃ document, farStorage.load (farProject n) = .ok document ∧
    document.root = Mapfile.surveyDocument.root := by
  have hleads := @leadsTo_dotted farStorage rfl rfl n (by omega)
  have hroot : (Path.mk (dotted n)).text ≠ [] := dotted_ne_nil n
  have hsizes : (Text.Utf8.encode "x.qgs").length = 5 ∧ (Text.Utf8.encode "y.qgs").length = 5 := by
    decide
  have hfault : Storage.pathFault? (farProject n) = none :=
    (pathFault?_descend_dotted isEntryName_below).mpr (by simp [hsizes]; omega)
  have hparts := Path.parts_descend hroot isEntryName_below (List.cons_ne_nil _ _)
  have hnames : ∀ name ∈ (["x.qgs", "y.qgs"] : List Name),
    IsEntryName name ∧ name.length ≤ Storage.maxNameSize := by decide
  have hlocate := hleads.locate_of_occupant? hparts hnames hfault (Option.some_ne_none _)
  have hsource : (farProject n).isArchive = false := by
    have hname : (farProject n).fileName? = some "y.qgs" := by
      have hbefore : ∀ name ∈ (["x.qgs"] : List Name), IsEntryName name := by decide
      exact Path.fileName?_descend hroot hbefore (by decide)
    rw [Path.isArchive, Path.extension?, hname]
    decide
  have hopen : farStorage.open? (farProject n) = .ok (.file Mapfile.surveyDocument.root.serialize) :=
    Storage.open?_eq_ok_iff.mpr ⟨_, hlocate, rfl⟩
  exact ⟨_, Storage.load_survey hsource hopen, rfl⟩

variable {arguments : Arguments} (hinput : arguments.input = ⟨dotted n⟩)
  (houtput : arguments.output = ⟨"in/mapfiles"⟩)

/-- There is something to put in the place of the mapfile. -/
theorem isSome_contentOf?_far : (contentOf? arguments farStorage (farTask n)).isSome = true := by
  obtain ⟨document, hload, hroot⟩ := load_far hfits
  obtain ⟨text, htext⟩ : ∃ text,
      Mapfile.render (arguments.optionsFor (farProject n)) document = .ok text := by
    obtain ⟨text, htext⟩ := exists_eq_ok_of_isOk Mapfile.isOk_render_surveyDocument
    obtain ⟨layers, hneeds⟩ := Mapfile.exists_render_eq_ok_iff.mp ⟨text, htext⟩
    refine Mapfile.exists_render_eq_ok_iff.mpr ⟨layers, ?_, ?_, ?_, hneeds.complete⟩
    · exact hroot ▸ hneeds.bounds
    · rw [Project.Document.HasDestination, hroot]
      exact hneeds.destination
    · exact hroot ▸ hneeds.read
  have hmapfile : farStorage.mapfileOf (arguments.optionsFor (farProject n)) (farProject n) =
      .ok text := bind_eq_ok_iff.mpr ⟨document, hload, htext⟩
  have hfit : farStorage.Fits ⟨"in/mapfiles/x.qgs/y.map"⟩ (Text.Utf8.encode text) := by
    refine ⟨by decide, ?_⟩
    have htemporary : Storage.pathFault? (farStorage.temporaryPath
      (Storage.directoryOf ⟨"in/mapfiles/x.qgs/y.map"⟩) default) = none := by decide +kernel
    exact congrArg (Option.or · none) htemporary
  rw [contentOf?, farTask, hmapfile]
  dsimp only
  rw [if_pos hfit]
  rfl

omit hfits in
include houtput in
/-- The output is among the mapfiles. -/
theorem leadsTo_mapfiles : farStorage.LeadsTo arguments.output ["in", "mapfiles"] := by
  rw [houtput]
  exact ⟨by decide +kernel, rfl⟩

omit hfits in
include houtput in
/-- The errand of the task makes a directory that is called like a project. -/
theorem errandOf_far : errandOf arguments farStorage (farTask n) = {
    reachable := true
    directories := ["x.qgs"]
    name := "y.map"
    content? := contentOf? arguments farStorage (farTask n) } := by
  have hnames : (farTask n).names arguments.output = (["x.qgs", "y.map"] : List Name) := by
    have hparts : ((Path.mk "in/mapfiles/x.qgs/y.map").parts.drop
      (Path.mk "in/mapfiles").front.length).map (·.text) = (["x.qgs", "y.map"] : List Name) := by
        decide
    rw [houtput]
    exact hparts
  have hreachable : Storage.pathFault? ((Path.mk "in/mapfiles").within ["x.qgs"]) = none := by
    decide
  rw [errandOf, hnames, houtput]
  simp [hreachable]

include houtput in
/-- Nothing is in the way of the errand. -/
theorem succeeds_far : (errandOf arguments farStorage (farTask n)).Succeeds ["in", "mapfiles"]
    farStorage.root.occupant? := by
  rw [errandOf_far houtput]
  refine ⟨⟨rfl, fun before hbefore content hfile => ?_⟩, isSome_contentOf?_far hfits,
    fun hgoal => by cases hgoal⟩
  rcases List.prefix_cons_iff.mp hbefore with rfl | ⟨rest, rfl, hrest⟩
  · cases hfile
  · rw [List.prefix_nil.mp hrest] at hfile
    cases hfile

include hinput houtput

/-- A run plans the task of the project. -/
theorem plannedTasks?_far : plannedTasks? arguments farStorage = some [farTask n] := by
  have hleads := @leadsTo_dotted farStorage rfl rfl n (by omega)
  rw [plannedTasks?, (leadsTo_mapfiles houtput).makeDirectories]
  dsimp only
  rw [tasksFor?, hinput, if_neg (not_isFile_of_leadsTo hleads), collectProjects_far hfits, houtput]
  simp only [Except.toOption, Option.bind_some, planOutputs_far]

/-- A run converts the project, and makes a directory that is called like one. -/
theorem runArguments_far (schedule : Schedule) :
    (runArguments schedule arguments farStorage).1 = .ok () ∧
    (runArguments schedule arguments farStorage).2.root.occupant? ["in", "mapfiles", "x.qgs"] =
      some .directory := by
  have hplanned := plannedTasks?_far hfits hinput houtput
  have hout := leadsTo_mapfiles houtput
  have hsucceeds := @succeeds_far n hfits arguments houtput
  obtain ⟨_, course⟩ := exists_course schedule (.of_check (by decide +kernel)) hout.text_ne_empty
    hplanned
  rw [hout.makeDirectories] at course
  have hready := course.ready _ List.mem_cons_self
  obtain ⟨root, hperformed, -, hoccupant, hok⟩ :=
    hready.perform_eq course.prepared_wellFormed.ordered hout
  rw [Errand.after_of_succeeds hsucceeds, errandOf_far houtput] at hoccupant
  -- There is one task, so every schedule performs it first.
  have horder := List.perm_singleton.mp (schedule.perm [farTask n])
  obtain ⟨hafter, hsuccess, -⟩ := runArguments_of_some schedule hplanned
  rw [failedTasks, hplanned] at hsuccess
  dsimp only at hsuccess
  rw [hout.makeDirectories, horder, performAll_cons, if_pos (hok.mpr hsucceeds)] at hsuccess
  rw [hout.makeDirectories, horder, performAll_cons] at hafter
  refine ⟨hsuccess rfl, ?_⟩
  have hdirectory : root.occupant? ["in", "mapfiles", "x.qgs"] = some .directory := by
    have hgoal : (["in", "mapfiles", "x.qgs"] : Location) ≠
      (["in", "mapfiles", "x.qgs", "y.map"] : Location) := by decide
    rw [hoccupant]
    refine (Function.update_of_ne hgoal _ _).trans ?_
    exact @Errand.withWay_of_isPrefix ["in", "mapfiles"] _ ["x.qgs"] ["x.qgs"] List.prefix_rfl
  rw [hafter]
  change (perform arguments farStorage (farTask n)).2.root.occupant? _ = _
  rw [hperformed]
  exact hdirectory

end Far

section Made

variable {n : Nat}

/-- The names that lead to the directory that is made are those of entries. -/
theorem isEntryName_made : ∀ name ∈ (["mapfiles", "x.qgs"] : List Name), IsEntryName name := by
  decide

/-- The size of the path of the directory that is made. -/
theorem length_made :
    ((⟨dotted n⟩ : Path).descend ["mapfiles", "x.qgs"]).text.length = 2 * n + 17 := by
  have hsum : ((["mapfiles", "x.qgs"] : List Name).flatMap (Name.slash :: ·)).length = 15 := by
    decide
  rw [length_descend_dotted isEntryName_made, hsum]

/-- The directory that is made is called like a project. -/
theorem isProjectFile_made :
    isProjectFile ((⟨dotted n⟩ : Path).descend ["mapfiles", "x.qgs"]) = true := by
  have hroot : (Path.mk (dotted n)).text ≠ [] := dotted_ne_nil n
  have hbefore : ∀ name ∈ (["mapfiles"] : List Name), IsEntryName name := by decide
  have hname : IsEntryName "x.qgs" := by decide
  exact (Path.isProjectFile_descend hroot hbefore hname).trans (by decide)

/-- The directory that it is made in can be looked at. -/
theorem pathFault?_mapfiles (hfits : 2 * n + 14 ≤ Storage.maxPathSize) :
    Storage.pathFault? ((⟨dotted n⟩ : Path).descend ["mapfiles"]) = none := by
  have hsum : ((["mapfiles"] : List Name).flatMap (Name.slash :: ·)).length = 9 := by decide
  rw [pathFault?_descend_dotted (by decide), hsum]
  omega

/-- The directory that is made cannot be looked at. -/
theorem pathFault?_made (hlong : Storage.maxPathSize < 2 * n + 17) :
    Storage.pathFault? ((⟨dotted n⟩ : Path).descend ["mapfiles", "x.qgs"]) ≠ none := by
  intro hnone
  have hshort := (Storage.pathFault?_eq_none_iff.mp hnone).2.2
  rw [length_made] at hshort
  omega

/-- The directory that is made is listed among the projects. -/
theorem isListed_made (hfits : 2 * n + 14 ≤ Storage.maxPathSize)
    (hlong : Storage.maxPathSize < 2 * n + 17) :
    IsListed ⟨dotted n⟩ ["mapfiles", "x.qgs"] (some .directory) := by
  refine ⟨isProjectFile_made, .inr ⟨Option.some_ne_none _, pathFault?_made hlong⟩,
    fun before hne hbefore => ?_⟩
  rcases List.prefix_cons_iff.mp hbefore with rfl | ⟨rest, rfl, hrest⟩
  · exact absurd rfl hne
  · rw [List.prefix_nil.mp hrest]
    exact pathFault?_mapfiles hfits

end Made

/-- A run on a directory whose path is almost as long as a path can be succeeds, and does not succeed
again: it made, among the mapfiles below its input, a directory that is called like a project and
cannot be looked at. -/
theorem far_not_again : ∃ arguments,
    Arguments.ofWords [dotted 2040, "-o", "in/mapfiles"] = .ok arguments ∧ farStorage.WellFormed ∧
    ¬ StaysInReach arguments (farStorage.makeDirectories arguments.output).2
      (run [dotted 2040, "-o", "in/mapfiles"] farStorage).2 ∧
    (run [dotted 2040, "-o", "in/mapfiles"] farStorage).1 = .success ∧
    (run [dotted 2040, "-o", "in/mapfiles"]
      (run [dotted 2040, "-o", "in/mapfiles"] farStorage).2).1.exitCode = 1 := by
  obtain ⟨arguments, hwords, hinput, houtput⟩ :=
    exists_ofWords_eq_ok (isPlainWord_dotted 2040) (show IsPlainWord "in/mapfiles" by decide)
  have hwell : farStorage.WellFormed := .of_check (by decide +kernel)
  have hfits : 2 * 2040 + 14 ≤ Storage.maxPathSize := by decide
  have hlong : Storage.maxPathSize < 2 * 2040 + 17 := by decide
  obtain ⟨hsuccess, hdirectory⟩ := runArguments_far hfits hinput houtput .asPlanned
  have hplanned := plannedTasks?_far hfits hinput houtput
  have hout := leadsTo_mapfiles houtput
  obtain ⟨_, course⟩ := exists_course .asPlanned hwell hout.text_ne_empty hplanned
  rw [hout.makeDirectories] at course
  have hleads : farStorage.LeadsTo arguments.input ["in"] := by
    rw [hinput]
    exact leadsTo_dotted rfl rfl (by omega)
  -- The second run lists the directory that the first one made, and cannot look at it.
  have hlisted := isListed_made hfits hlong
  have hfar := pathFault?_made hlong
  rw [← hinput] at hlisted hfar
  have hfails := not_isOk_of_far .asPlanned course.after_wellFormed (course.grows.leadsTo hout)
    (course.grows.leadsTo hleads) (List.cons_ne_nil _ _) (hdirectory ▸ hlisted) hfar
  have hfirst := runOn_eq .asPlanned hwords farStorage
  rw [hsuccess] at hfirst
  have hsecond := runOn_eq .asPlanned hwords (runArguments .asPlanned arguments farStorage).2
  refine ⟨arguments, hwords, hwell, ?_, ?_, ?_⟩
  · intro hreach
    rw [hout.makeDirectories, run, hfirst] at hreach
    have habove := (Storage.pathFault?_eq_none_iff.mp (pathFault?_mapfiles hfits)).2.2
    have hshort := hreach ["in"] ["mapfiles", "x.qgs"] (course.grows.leadsTo hleads)
      (List.cons_ne_nil _ _) (by decide +kernel) hdirectory (hinput ▸ isProjectFile_made)
      (hinput ▸ habove)
    rw [hinput, length_made] at hshort
    omega
  · rw [run, hfirst]
    rfl
  · rw [run, run, hfirst, hsecond]
    cases hended : (runArguments .asPlanned arguments
        (runArguments .asPlanned arguments farStorage).2).1 with
    | ok =>
      rw [hended] at hfails
      cases hfails
    | error report => rfl

end Carta.Command
