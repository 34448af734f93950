import Carta.Command.Run
import Carta.Proofs.Growth
import Mathlib.Data.List.Infix

/-!
# What performing a task does

A task makes the directories of its mapfile, unless a file is in the way, and puts the mapfile there,
unless a directory is in its place. Whatever else it comes to is decided before it begins: by the
project, which no task changes, and by the paths. So a task is known as an errand, whose effect is
told by what is at the locations of a tree.
-/

namespace Carta

namespace Storage

/-- The path of a temporary file ends with the name that is drawn. -/
theorem exists_temporaryPath_eq (storage : Storage) (directory : Path) :
    ∃ before : Name, ∀ suffix, storage.temporaryPath directory suffix = ⟨before ++ suffix.name⟩ := by
  have hrelative (suffix : Suffix) : (Path.mk suffix.name).isAbsolute = false := rfl
  simp only [temporaryPath, Path.join, hrelative, Bool.false_eq_true, if_false]
  generalize Path.text (if directory.isAbsolute = true then directory else _) = base
  split
  · exact ⟨base, fun _ => rfl⟩
  · exact ⟨base ++ [Name.slash], fun _ => rfl⟩

/-- Whether the path of a temporary file can be looked up does not depend on what is drawn. -/
theorem pathFault?_temporaryPath (storage : Storage) (directory : Path) (first second : Suffix) :
    pathFault? (storage.temporaryPath directory first) =
      pathFault? (storage.temporaryPath directory second) := by
  have hlength (suffix : Suffix) : suffix.name.length = 10 := by
    rw [Suffix.name, List.length_append, suffix.size]
    rfl
  have hplain (suffix : Suffix) : suffix.name.any (· = 0) = false := by
    rw [List.any_eq_false]
    intro b hb hzero
    obtain rfl : b = 0 := by simpa using hzero
    rcases List.mem_append.mp hb with hb | hb
    · exact absurd hb (by decide)
    · exact absurd (List.all_eq_true.mp suffix.plain 0 hb) (by decide)
  have hempty (before : Name) (suffix : Suffix) : (before ++ suffix.name).isEmpty = false := by
    cases before <;> rfl
  obtain ⟨before, hpath⟩ := exists_temporaryPath_eq storage directory
  simp only [hpath, pathFault?, List.any_append, List.length_append, hplain, hlength, hempty]

/-- Why a temporary file for a path cannot be made and written, if it cannot. -/
def temporaryFault? (storage : Storage) (path : Path) (content : List UInt8) : Option Fault :=
  (pathFault? (storage.temporaryPath (directoryOf path) (storage.draw path))).or
    ((storage.writeFault? content).map (·.2))

/-- What a content and a path must be for a file to be put there. -/
def Fits (storage : Storage) (path : Path) (content : List UInt8) : Prop :=
  pathFault? path = none ∧ storage.temporaryFault? path content = none

instance (storage : Storage) (path : Path) (content : List UInt8) :
    Decidable (storage.Fits path content) :=
  inferInstanceAs (Decidable (_ ∧ _))

/-- Why a temporary file cannot be made and written does not depend on what is drawn, and neither on
what is in the tree. -/
theorem temporaryFault?_congr {storage after : Storage} (hhere : after.here = storage.here)
    (hwriteFault : after.writeFault? = storage.writeFault?) (path : Path) (content : List UInt8) :
    after.temporaryFault? path content = storage.temporaryFault? path content := by
  have hsame (suffix : Suffix) : after.temporaryPath (directoryOf path) suffix =
      storage.temporaryPath (directoryOf path) suffix := by
    rw [temporaryPath, temporaryPath, hhere]
  rw [temporaryFault?, temporaryFault?, hwriteFault, hsame,
    pathFault?_temporaryPath storage _ (after.draw path) (storage.draw path)]

/-- A temporary file is made in a directory unless its own path cannot be looked up. -/
theorem makeTemporary_of_directory {storage : Storage} {path : Path} {location : Location}
    {entries : Entries} (hlocate : storage.locate path = .ok location)
    (hat : storage.root.at? location = some (.directory entries)) (suffix : Suffix) :
    storage.makeTemporary path suffix = (pathFault? (storage.temporaryPath path suffix)).elim
      (.ok (location ++ [unusedName suffix entries],
        storage.set (location ++ [unusedName suffix entries]) (.file [])))
      (fun fault => .error (.ofFile (storage.temporaryPath path suffix) fault)) := by
  unfold makeTemporary
  dsimp only
  generalize pathFault? (storage.temporaryPath path suffix) = fault
  cases fault with
  | some fault => rfl
  | none => simp only [Option.elim_none, hlocate, hat]

section Below

variable {storage : Storage} {base : Path} {location : Location}
  (h : storage.LeadsTo base location) {names : List Name}
  (hnames : ∀ name ∈ names, IsEntryName name ∧ name.length ≤ maxNameSize)
  (hdirectory : storage.root.occupant? (location ++ names) = some .directory)

include h hnames hdirectory

/-- The path of a directory below a directory leads to it. -/
theorem LeadsTo.within (hfault : Storage.pathFault? (base.within names) = none) :
    storage.LeadsTo (base.within names) (location ++ names) := by
  by_cases hne : names = []
  · subst hne
    rw [List.append_nil]
    exact h.within_nil
  · have hentries : ∀ name ∈ names, IsEntryName name := fun name hname => (hnames name hname).1
    have hparts := Path.parts_within h.text_ne_empty hentries hne
    refine ⟨?_, hdirectory⟩
    rw [h.locate_eq hentries hparts, hfault]
    exact route_of_directories (fun name hname => (hnames name hname).2)
      fun before hbefore => directory_of_isPrefix hdirectory hbefore

variable {name : Name} (hname : IsEntryName name ∧ name.length ≤ maxNameSize)
  {path : Path} (hparts : path.parts = base.front ++ (names ++ [name]).map .later)

include hname hparts

/-- A file is moved to a name in a directory, unless the path cannot be looked up or a directory has
that name. -/
theorem moveFile_result {temporary : Location} {node : Node}
    (hnode : storage.root.at? temporary = some node) :
    (storage.moveFile temporary path).map (fun _ => ()) = ((Storage.pathFault? path).or
      (if storage.root.occupant? (location ++ names ++ [name]) = some .directory then
        some .isADirectory else none)).elim (.ok ()) .error := by
  rw [moveFile]
  cases hfault : Storage.pathFault? path with
  | some fault =>
    have hplace : storage.place path = .error fault := by rw [place, hfault]
    rw [hplace]
    rfl
  | none =>
    have hplace : storage.place path = .ok ⟨location ++ names, some name, false⟩ := by
      rw [h.place_eq (fun name hname => (hnames name hname).1) hfault hname.1 hparts,
        route_of_directories (fun name hname => (hnames name hname).2)
          fun before hbefore => directory_of_isPrefix hdirectory hbefore]
      simp only [Except.bind, if_pos hdirectory, if_neg (Nat.not_lt.mpr hname.2)]
    rw [hplace]
    simp only [Bool.false_eq_true, if_false, hnode, Option.none_or]
    split
    next hat =>
      rw [if_pos (Node.occupant?_eq_directory_iff.mpr ⟨_, hat⟩)]
      rfl
    next hnone _ => cases hnone
    next hno =>
      rw [if_neg fun hthere => ?_]
      · rfl
      · obtain ⟨entries, hat⟩ := Node.occupant?_eq_directory_iff.mp hthere
        exact hno entries hat

omit hdirectory in
/-- The directory that a path below a directory has its place in. -/
theorem directoryOf_eq : directoryOf path = base.within names := by
  have hentries : ∀ name ∈ names, IsEntryName name := fun name hname => (hnames name hname).1
  have hne := Path.within_text_ne_empty h.text_ne_empty hentries
  rw [directoryOf, Path.parent?, Path.parents_eq_within h.text_ne_empty hentries hname.1 hparts]
  exact if_neg (by simpa using hne)

/-- What comes of putting a file in a directory below a directory: the temporary file cannot be made
or written, or the path cannot be looked up, or a directory is in its place, or else it is put
there. -/
theorem replaceFile_result (hfault : Storage.pathFault? (base.within names) = none)
    (content : List UInt8) :
    (storage.replaceFile path content).1 =
      (((storage.temporaryFault? path content).map
        (Fault.ofFile (storage.temporaryPath (directoryOf path) (storage.draw path)))).or
      ((Storage.pathFault? path).or
        (if storage.root.occupant? (location ++ names ++ [name]) = some .directory then
          some .isADirectory else none))).elim (.ok ()) .error := by
  have habove := directoryOf_eq h hnames hname hparts
  obtain ⟨entries, hat⟩ := Node.occupant?_eq_directory_iff.mp hdirectory
  have hmade := makeTemporary_of_directory (h.within hnames hdirectory hfault).locate hat
    (storage.draw path)
  rw [← habove] at hmade
  unfold temporaryFault? replaceFile
  rw [hmade]
  generalize storage.temporaryPath (directoryOf path) (storage.draw path) = temporary
  generalize hunused : location ++ names ++ [unusedName (storage.draw path) entries] = unused
  have hnone : storage.root.occupant? unused = none := by
    simp only [← hunused, Node.occupant?_append, hat, Option.bind_some,
      Node.occupant?_directory_cons, get?_unusedName, Option.bind_none]
  cases Storage.pathFault? temporary with
  | some fault => rfl
  | none =>
    have hsame : (storage.set unused (.file [])).writeFault? content =
      storage.writeFault? content := rfl
    simp only [Option.elim_none, writeFile, hsame, Option.none_or]
    cases hwrite : storage.writeFault? content with
    | some fault => rfl
    | none =>
      have hwritten := occupant?_written hdirectory (hunused ▸ hnone) content
      rw [hunused] at hwritten
      generalize hafter : (storage.set unused (.file [])).set unused (.file content) = after
        at hwritten
      have hthere : after.root.at? unused = some (.file content) := by
        rw [← Node.occupant?_eq_file_iff, hwritten, Function.update_self]
      have hdirectory_iff (other : Location) : after.root.occupant? other = some .directory ↔
          storage.root.occupant? other = some .directory := by
        rw [hwritten, update_file_eq_directory_iff hnone]
      have hleads : after.LeadsTo base location :=
        h.mono (hafter ▸ rfl) fun other => (hdirectory_iff other).mpr
      have hmoved := moveFile_result hleads hnames ((hdirectory_iff _).mpr hdirectory) hname hparts
        hthere
      simp only [hdirectory_iff] at hmoved
      simp only [Option.map_none, Option.none_or, ← hmoved]
      cases after.moveFile unused path <;> rfl

/-- A file is put in a directory below a directory when it fits and no directory is in its place. -/
theorem isOk_replaceFile_iff (hfault : Storage.pathFault? (base.within names) = none)
    (content : List UInt8) :
    (storage.replaceFile path content).1 = .ok () ↔ storage.Fits path content ∧
      storage.root.occupant? (location ++ names ++ [name]) ≠ some .directory := by
  have hsucceeds {fault : Option Fault} :
      fault.elim (.ok ()) .error = (.ok () : Except Fault Unit) ↔ fault = none := by
    cases fault <;> simp
  rw [replaceFile_result h hnames hdirectory hname hparts hfault, hsucceeds, Fits]
  simp [and_assoc, and_left_comm]

end Below

end Storage

namespace Command

open Storage (Location Occupant Unblocked withWay maxNameSize pathFault?)

/-- A file that is to be put below a directory: by the names of directories, and its own. -/
structure Errand where
  /-- Whether the path of the directories can be looked up. -/
  reachable : Bool
  directories : List Name
  name : Name
  /-- What is put there, if anything can be. -/
  content? : Option (List UInt8)

namespace Errand

variable (place : Location) (errand : Errand)

/-- Where the file is to be. -/
def goal : Location :=
  place ++ errand.directories ++ [errand.name]

/-- Whether the directories of an errand can be made. -/
def IsOpen (occupant? : Location → Option Occupant) : Prop :=
  errand.reachable = true ∧ Unblocked occupant? place errand.directories

/-- Whether an errand succeeds. -/
def Succeeds (occupant? : Location → Option Occupant) : Prop :=
  errand.IsOpen place occupant? ∧ errand.content?.isSome ∧
    occupant? (errand.goal place) ≠ some .directory

open Classical in
/-- What is at the locations after an errand. -/
noncomputable def after (occupant? : Location → Option Occupant) (location : Location) :
    Option Occupant :=
  if errand.Succeeds place occupant? ∧ location = errand.goal place then
    errand.content?.map .file
  else if errand.IsOpen place occupant? then withWay occupant? place errand.directories location
  else occupant? location

variable {place errand} {occupant? : Location → Option Occupant}

/-- The goal of an errand is beyond its directories. -/
theorem goal_not_isPrefix {names : List Name} (h : names <+: errand.directories) :
    ¬ errand.goal place <+: place ++ names := by
  intro hgoal
  have hlength := hgoal.length_le
  have hnames := h.length_le
  simp only [goal, List.length_append, List.length_singleton] at hlength
  omega

/-- An errand whose way is not open leaves all as it was. -/
theorem after_of_not_isOpen (h : ¬ errand.IsOpen place occupant?) :
    errand.after place occupant? = occupant? := by
  funext location
  rw [after, if_neg fun hgoal => h hgoal.1.1, if_neg h]

/-- An errand that fails on an open way leaves the directories of its way. -/
theorem after_of_not_succeeds (hopen : errand.IsOpen place occupant?)
    (h : ¬ errand.Succeeds place occupant?) :
    errand.after place occupant? = withWay occupant? place errand.directories := by
  funext location
  rw [after, if_neg fun hgoal => h hgoal.1, if_pos hopen]

/-- An errand that succeeds leaves its way and, at the end of it, its content. -/
theorem after_of_succeeds (h : errand.Succeeds place occupant?) :
    errand.after place occupant? =
      Function.update (withWay occupant? place errand.directories) (errand.goal place)
        (errand.content?.map .file) := by
  funext location
  rw [after, Function.update_apply, if_pos h.1]
  simp only [h, true_and]

/-- What is at the goal of an errand is not changed by making its directories. -/
theorem withWay_goal : withWay occupant? place errand.directories (errand.goal place) =
    occupant? (errand.goal place) :=
  if_neg fun hway => goal_not_isPrefix List.prefix_rfl hway.2

/-- An errand that succeeds has its content at its goal. -/
theorem after_goal (h : errand.Succeeds place occupant?) :
    errand.after place occupant? (errand.goal place) = errand.content?.map .file :=
  if_pos ⟨h, rfl⟩

/-- An errand leaves directories. -/
theorem after_directory {location : Location} (h : occupant? location = some .directory) :
    errand.after place occupant? location = some .directory := by
  rw [after]
  split
  next hgoal => exact absurd (hgoal.2 ▸ h) hgoal.1.2.2
  next =>
    split
    next =>
      rw [withWay]
      split
      next => rfl
      next => exact h
    next => exact h

/-- An errand leaves the files, but for one at its goal if it succeeds. -/
theorem after_eq_file_iff {location : Location} {content : List UInt8}
    (h : errand.Succeeds place occupant? → location ≠ errand.goal place) :
    errand.after place occupant? location = some (.file content) ↔
      occupant? location = some (.file content) := by
  rw [after, if_neg fun hgoal => h hgoal.1 hgoal.2]
  split
  next hopen =>
    rw [withWay]
    split
    next hway =>
      -- On the way there are directories now, and there was no file before.
      obtain ⟨before, rfl⟩ := hway.1
      have hbefore := (List.prefix_append_right_inj _).mp hway.2
      exact iff_of_false (by rintro ⟨⟩) (hopen.2 before hbefore content)
    next => rfl
  next => rfl

end Errand

/-- A task whose mapfile is below a directory, by the names of directories and its own, which is not
that of a project. -/
structure Task.IsAimed (task : Task) (output : Path) (directories : List Name) (name : Name) :
    Prop where
  parts : task.mapFile.parts = output.front ++ (directories ++ [name]).map .later
  above : ∀ other ∈ directories, IsEntryName other ∧ other.length ≤ maxNameSize
  own : IsEntryName name ∧ name.length ≤ maxNameSize
  spared : Path.isProjectName name = false

/-- The names that lead from the output to a mapfile. -/
def Task.names (output : Path) (task : Task) : List Name :=
  (task.mapFile.parts.drop output.front.length).map (·.text)

/-- The location of a mapfile, below that of the output. -/
def Task.goal (output : Path) (place : Location) (task : Task) : Location :=
  place ++ task.names output

/-- The names from the output down to a mapfile are those of its directories and its own. -/
theorem Task.IsAimed.names_eq {task : Task} {output : Path} {directories : List Name}
    {name : Name} (h : task.IsAimed output directories name) :
    task.names output = directories ++ [name] := by
  rw [names, h.parts, List.drop_left, List.map_map]
  exact List.map_id _

/-- The goal of a task is below the place of the output, by its names. -/
theorem Task.IsAimed.goal_eq {task : Task} {output : Path} {directories : List Name}
    {name : Name} (h : task.IsAimed output directories name) (place : Location) :
    task.goal output place = place ++ directories ++ [name] := by
  rw [goal, h.names_eq, List.append_assoc]

/-- What a task puts in the place of its mapfile, if anything can be put there. -/
def contentOf? (arguments : Arguments) (storage : Storage) (task : Task) : Option (List UInt8) :=
  match storage.mapfileOf (arguments.optionsFor task.project) task.project with
  | .error _ => none
  | .ok text =>
    let content := Text.Utf8.encode text
    if storage.Fits task.mapFile content then some content else none

/-- A task as an errand below the output. -/
def errandOf (arguments : Arguments) (storage : Storage) (task : Task) : Errand :=
  let names := task.names arguments.output
  { reachable := pathFault? (arguments.output.within names.dropLast) = none
    directories := names.dropLast
    name := names.getLastD []
    content? := contentOf? arguments storage task }

section Perform

variable {arguments : Arguments} {storage : Storage} {task : Task} {directories : List Name}
  {name : Name}

/-- The errand of a task has the names that lead to the mapfile. -/
theorem errandOf_eq (h : task.IsAimed arguments.output directories name) :
    errandOf arguments storage task =
      { reachable := pathFault? (arguments.output.within directories) = none
        directories, name
        content? := contentOf? arguments storage task } := by
  simp only [errandOf, h.names_eq, List.dropLast_concat, List.getLastD_concat]

/-- The errand of a task has the goal of the task. -/
theorem goal_errandOf (h : task.IsAimed arguments.output directories name) (place : Location) :
    (errandOf arguments storage task).goal place = task.goal arguments.output place := by
  rw [errandOf_eq h, h.goal_eq, Errand.goal]

/-- The way of a task's errand is open when the path of its directories has no fault and no file is
on it. -/
theorem isOpen_errandOf_iff (h : task.IsAimed arguments.output directories name) {place : Location}
    {occupant? : Location → Option Occupant} :
    (errandOf arguments storage task).IsOpen place occupant? ↔
      pathFault? (arguments.output.within directories) = none ∧
        Unblocked occupant? place directories := by
  simp only [errandOf_eq h, Errand.IsOpen, decide_eq_true_eq]

/-- The directory of a mapfile. -/
theorem Task.IsAimed.parent?_eq (h : task.IsAimed arguments.output directories name)
    (houtput : arguments.output.text ≠ []) :
    task.mapFile.parent? = some (arguments.output.within directories) := by
  have hentries : ∀ other ∈ directories, IsEntryName other := fun other hother =>
    (h.above other hother).1
  rw [Path.parent?, Path.parents_eq_within houtput hentries h.own.1 h.parts]
  rfl

section Convert

variable {place : Location} (haimed : task.IsAimed arguments.output directories name)
  (hleads : storage.LeadsTo arguments.output place)
  (hfault : pathFault? (arguments.output.within directories) = none)
  (hthere : storage.root.occupant? (place ++ directories) = some .directory)

include haimed hleads hfault hthere

/-- Within a directory that is there, a conversion puts the mapfile in its place when it fits and no
directory is there. -/
theorem isOk_convert_iff :
    (storage.convert (arguments.optionsFor task.project) task.project task.mapFile).1.isOk = true ↔
      (contentOf? arguments storage task).isSome = true ∧
        storage.root.occupant? (place ++ directories ++ [name]) ≠ some .directory := by
  rw [Storage.convert, contentOf?]
  cases storage.mapfileOf (arguments.optionsFor task.project) task.project with
  | error error => simp [Except.isOk, Except.toBool]
  | ok text =>
    have hreplaced := Storage.isOk_replaceFile_iff hleads haimed.above hthere haimed.own
      haimed.parts hfault (Text.Utf8.encode text)
    dsimp only
    generalize storage.replaceFile task.mapFile (Text.Utf8.encode text) = result at hreplaced ⊢
    obtain ⟨outcome, after⟩ := result
    have hcontent : (if storage.Fits task.mapFile (Text.Utf8.encode text) then
        some (Text.Utf8.encode text) else none).isSome = true ↔
        storage.Fits task.mapFile (Text.Utf8.encode text) := by
      split <;> simp [*]
    rw [hcontent, ← hreplaced]
    cases outcome <;> simp [Except.isOk, Except.toBool]

/-- A conversion within a directory that is there changes what is at the place of the mapfile, if it
succeeds, and nothing else. -/
theorem convert_within (hordered : storage.root.Ordered) :
    ∃ root, (storage.convert (arguments.optionsFor task.project) task.project task.mapFile).2 =
        { storage with root } ∧ root.Ordered ∧ root.occupant? =
      if (storage.convert (arguments.optionsFor task.project) task.project task.mapFile).1.isOk then
        Function.update storage.root.occupant? (place ++ directories ++ [name])
          ((contentOf? arguments storage task).map .file)
      else storage.root.occupant? := by
  rcases Storage.convert_cases hordered (arguments.optionsFor task.project) task.project
      task.mapFile with ⟨error, h⟩ | ⟨status, text, directory, last, after, h, htext, hdirectory, hfree,
        hafter, hlocate⟩
  · rw [h]
    exact ⟨storage.root, rfl, hordered, rfl⟩
  · have hoccupant := Storage.occupant?_set_file hdirectory hfree (Text.Utf8.encode text)
    rw [← hafter] at hoccupant
    have hmono : after.LeadsTo arguments.output place := by
      refine hleads.mono (hafter ▸ rfl) fun other hother => ?_
      rw [hoccupant, Function.update_of_ne, hother]
      rintro rfl
      exact hfree hother
    have hgoal : directory ++ [last] = place ++ directories ++ [name] := by
      rw [List.append_assoc]
      refine hmono.eq_of_locate haimed.parts ?_ hlocate
      simp only [List.forall_mem_append, List.forall_mem_singleton]
      exact ⟨fun other hother => (haimed.above other hother).1, haimed.own.1⟩
    have hcontent : contentOf? arguments storage task = some (Text.Utf8.encode text) := by
      obtain ⟨hsome, -⟩ := (isOk_convert_iff haimed hleads hfault hthere).mp (by rw [h]; rfl)
      rw [contentOf?, htext] at hsome ⊢
      dsimp only at hsome ⊢
      split at hsome
      next hfits => exact if_pos hfits
      next => cases hsome
    rw [h]
    refine ⟨after.root, ?_, ?_, ?_⟩
    · rw [hafter]
      rfl
    · rw [hafter]
      exact hordered.set (.file _) _
    · rw [hoccupant, hgoal, hcontent]
      rfl

end Convert

/-- What a task puts in the place of its mapfile stays what it is. -/
theorem contentOf?_eq_of_grows {changed : Set Location} {after : Storage}
    (h : Storage.Grows changed storage after) (hspares : Storage.Spares changed)
    (hproject : isProjectFile task.project = true) (hsteady : storage.IsSteady task.project) :
    contentOf? arguments after task = contentOf? arguments storage task := by
  have hfits (content : List UInt8) :
      after.Fits task.mapFile content = storage.Fits task.mapFile content := by
    rw [Storage.Fits, Storage.Fits, Storage.temporaryFault?_congr h.here h.writeFault?]
  rw [contentOf?, contentOf?, h.mapfileOf_eq hspares hproject hsteady]
  simp only [hfits]

/-- A task whose directories cannot be made fails. -/
theorem perform_of_not_made {path : Path} {fault : Storage.Fault} {after : Storage}
    (hparent : task.mapFile.parent? = some path)
    (hmade : storage.makeDirectories path = (.error fault, after)) :
    (perform arguments storage task).2 = after ∧
      (perform arguments storage task).1.isOk = false := by
  rw [perform, hparent]
  dsimp only
  rw [hmade]
  exact ⟨rfl, rfl⟩

/-- A task whose directories are made is a conversion into them. -/
theorem perform_of_made {path : Path} {made : Storage} (hparent : task.mapFile.parent? = some path)
    (hmade : storage.makeDirectories path = (.ok (), made)) :
    perform arguments storage task =
      (((made.convert (arguments.optionsFor task.project) task.project task.mapFile).1.map
          fun _ => ()).mapError
        (.wrapping ("Failed to convert " ++ Text.quoted task.project.text)),
      (made.convert (arguments.optionsFor task.project) task.project task.mapFile).2) := by
  rw [perform, hparent]
  dsimp only
  rw [hmade]
  dsimp only
  generalize made.convert (arguments.optionsFor task.project) task.project task.mapFile = result
  obtain ⟨outcome, after⟩ := result
  cases outcome <;> rfl

section Steady

variable {place : Location} (haimed : task.IsAimed arguments.output directories name)
  (hordered : storage.root.Ordered) (hleads : storage.LeadsTo arguments.output place)

include haimed hordered hleads

/-- A task whose errand is not open does nothing. -/
theorem perform_eq_of_not_isOpen
    (hopen : ¬ (errandOf arguments storage task).IsOpen place storage.root.occupant?) :
    (perform arguments storage task).2 = storage ∧
      (perform arguments storage task).1.isOk = false := by
  have hparent := haimed.parent?_eq hleads.text_ne_empty
  rw [isOpen_errandOf_iff haimed] at hopen
  cases hfault : pathFault? (arguments.output.within directories) with
  | some fault =>
    have hne := Path.within_text_ne_empty hleads.text_ne_empty fun other hother =>
      (haimed.above other hother).1
    exact perform_of_not_made hparent (Storage.makeDirectories_of_pathFault? hne hfault)
  | none =>
    obtain ⟨fault, hmade⟩ :=
      (Storage.makeDirectories_within hleads hordered haimed.above hfault).blocked
        fun hway => hopen ⟨hfault, hway⟩
    exact perform_of_not_made hparent hmade

/-- A task whose errand is open makes the directories and converts the project into them. -/
theorem exists_made_of_isOpen
    (hopen : (errandOf arguments storage task).IsOpen place storage.root.occupant?) :
    ∃ made, Storage.Grows ∅ storage made ∧ made.root.Ordered ∧
      made = { storage with root := made.root } ∧
      made.root.occupant? = withWay storage.root.occupant? place directories ∧
      (perform arguments storage task).2 =
        (made.convert (arguments.optionsFor task.project) task.project task.mapFile).2 ∧
      (perform arguments storage task).1.isOk =
        (made.convert (arguments.optionsFor task.project) task.project task.mapFile).1.isOk := by
  have hparent := haimed.parent?_eq hleads.text_ne_empty
  rw [isOpen_errandOf_iff haimed] at hopen
  obtain ⟨root, hmade, hroot, hoccupant⟩ :=
    (Storage.makeDirectories_within hleads hordered haimed.above hopen.1).made hopen.2
  have hgrows := (storage.makeDirectories_makes (arguments.output.within directories)).grows
  rw [hmade] at hgrows
  refine ⟨{ storage with root }, hgrows, hroot, rfl, hoccupant, ?_⟩
  rw [perform_of_made hparent hmade]
  generalize Storage.convert _ _ _ _ = result
  obtain ⟨outcome, after⟩ := result
  cases outcome <;> exact ⟨rfl, rfl⟩

/-- A task does what its errand does. -/
theorem perform_eq_errand (hsteady : storage.IsSteady task.project)
    (hproject : isProjectFile task.project = true) :
    ∃ root, (perform arguments storage task).2 = { storage with root } ∧ root.Ordered ∧
      root.occupant? = (errandOf arguments storage task).after place storage.root.occupant? ∧
      ((perform arguments storage task).1.isOk = true ↔
        (errandOf arguments storage task).Succeeds place storage.root.occupant?) := by
  by_cases hopen : (errandOf arguments storage task).IsOpen place storage.root.occupant?
  · obtain ⟨made, hgrows, hmade, hsame, hoccupant, hafter, hok⟩ :=
      exists_made_of_isOpen haimed hordered hleads hopen
    have hcontent : contentOf? arguments made task = contentOf? arguments storage task :=
      contentOf?_eq_of_grows hgrows Storage.spares_empty hproject hsteady
    have hthere : made.root.occupant? (place ++ directories) = some .directory := by
      rw [hoccupant, withWay, if_pos ⟨List.prefix_append _ _, List.prefix_rfl⟩]
    have hfault := ((isOpen_errandOf_iff haimed).mp hopen).1
    have hconverted := isOk_convert_iff haimed (hgrows.leadsTo hleads) hfault hthere
    obtain ⟨root, hroot, hordered', heffect⟩ :=
      convert_within haimed (hgrows.leadsTo hleads) hfault hthere hmade
    have herrand : errandOf arguments storage task = _ := errandOf_eq haimed
    generalize errandOf arguments storage task = errand at hopen herrand ⊢
    have hgoal : place ++ directories ++ [name] = errand.goal place := by rw [herrand, Errand.goal]
    have hstays : withWay storage.root.occupant? place errand.directories (errand.goal place) =
        storage.root.occupant? (errand.goal place) := Errand.withWay_goal
    have hway : made.root.occupant? =
        withWay storage.root.occupant? place errand.directories := by rw [hoccupant, herrand]
    have hcontents : contentOf? arguments made task = errand.content? := by rw [hcontent, herrand]
    have hsucceeds : (perform arguments storage task).1.isOk = true ↔
        errand.Succeeds place storage.root.occupant? := by
      rw [hok, hconverted, hcontents, hgoal, hway, hstays]
      exact (and_iff_right hopen).symm
    refine ⟨root, ?_, hordered', ?_, hsucceeds⟩
    · rw [hafter, hroot, hsame]
    · rw [heffect, ← hok, hway, hcontents, hgoal]
      split
      next h => exact (Errand.after_of_succeeds (hsucceeds.mp h)).symm
      next h => exact (Errand.after_of_not_succeeds hopen (mt hsucceeds.mpr h)).symm
  · obtain ⟨hafter, hok⟩ := perform_eq_of_not_isOpen haimed hordered hleads hopen
    refine ⟨storage.root, hafter, hordered, (Errand.after_of_not_isOpen hopen).symm, ?_⟩
    rw [hok]
    exact iff_of_false Bool.false_ne_true fun hsucceeds => hopen hsucceeds.1

end Steady

end Perform

end Command

end Carta
