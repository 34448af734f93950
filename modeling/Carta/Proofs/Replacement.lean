import Carta.Convert
import Carta.Proofs.MapfileParts
import Carta.Proofs.Outcome
import Carta.Proofs.Routes
import Carta.Proofs.Serialization

/-!
# Putting a file in its place at once

A file is written under an unused name and moved to its place when it is complete. The file with the
unused name is taken away again wherever that fails, be it half written, so the tree is as it was;
and where it succeeds, the tree is the one before with the file in its place. A conversion writes
nothing before its text is complete, so it does one thing or the other.
-/

namespace Carta

namespace Storage

/-- No name among entries is longer than the longest. -/
theorem length_le_longestName {entry : Name × Node} {entries : Entries} (h : entry ∈ entries) :
    entry.1.length ≤ longestName entries := by
  induction entries with
  | nil => cases h
  | cons first rest ih =>
    rw [longestName, List.foldr_cons]
    rcases List.mem_cons.mp h with rfl | h
    · exact Nat.le_max_left _ _
    · exact (ih h).trans (Nat.le_max_right _ _)

/-- An unused name is unused. -/
theorem get?_unusedName (suffix : Suffix) (entries : Entries) :
    Entries.get? (unusedName suffix entries) entries = none := by
  rw [unusedName]
  split
  next hnone => exact Option.isNone_iff_eq_none.mp hnone
  next =>
    -- The name is longer than the longest, for what is put before its zeros is not empty.
    refine Option.eq_none_iff_forall_ne_some.mpr fun node hget => ?_
    have hle := length_le_longestName (Entries.mem_of_get? hget)
    have hpos : 0 < suffix.name.length := by simp [Suffix.name, suffix.size]
    rw [List.length_append, List.length_replicate] at hle
    omega

/-- A temporary file is a file in a directory at a location where nothing was. -/
theorem makeTemporary_eq_ok {storage created : Storage} {path : Path} {suffix : Suffix}
    {temporary : Location} (h : storage.makeTemporary path suffix = .ok (temporary, created)) :
    ∃ directory name, temporary = directory ++ [name] ∧ created = storage.set temporary (.file []) ∧
      storage.root.occupant? directory = some .directory ∧
      storage.root.occupant? temporary = none := by
  simp only [makeTemporary] at h
  generalize (pathFault? (storage.temporaryPath path suffix)).elim (storage.locate path)
    Except.error = located at h
  cases located with
  | error fault => cases h
  | ok directory =>
    dsimp only at h
    split at h
    next entries hat =>
      obtain ⟨rfl, rfl⟩ := Prod.mk.inj (Except.ok.inj h)
      refine ⟨directory, unusedName suffix entries, rfl, rfl,
        Node.occupant?_eq_directory_iff.mpr ⟨entries, hat⟩, ?_⟩
      simp [Node.occupant?_append, hat, get?_unusedName]
    next => cases h

/-- Moving a file takes it away from where it was and puts it in its place, where no directory
is. -/
theorem moveFile_eq_ok {storage moved : Storage} {location : Location} {path : Path}
    (h : storage.moveFile location path = .ok moved) : ∃ directory name node,
      storage.place path = .ok ⟨directory, some name, false⟩ ∧
      storage.root.occupant? (directory ++ [name]) ≠ some .directory ∧
      storage.root.at? location = some node ∧
      moved = (storage.erase location).set (directory ++ [name]) node := by
  rw [moveFile] at h
  split at h
  next => cases h
  next => cases h
  next directory name slash hplace =>
    split at h
    next => cases h
    next hslash =>
      obtain rfl : slash = false := by simpa using hslash
      split at h
      next => cases h
      next => cases h
      next node hnode hno =>
        obtain rfl := Except.ok.inj h
        refine ⟨directory, name, node, hplace, ?_, hnode, rfl⟩
        intro hdirectory
        obtain ⟨entries, hentries⟩ := Node.occupant?_eq_directory_iff.mp hdirectory
        exact hno entries hentries

/-- Writing a file puts it there, with the content or with the part of it that was written. -/
theorem exists_of_writeFile (storage : Storage) (location : Location) (content : List UInt8) :
    ∃ written, (storage.writeFile location content).2 = storage.set location (.file written) ∧
      ((storage.writeFile location content).1 = .ok () → written = content) := by
  rw [writeFile]
  split
  next => exact ⟨content, rfl, fun _ => rfl⟩
  next size fault _ => exact ⟨content.take size, rfl, nofun⟩

/-- A file put in a directory, where no directory is, changes what is at its location and nothing
else. -/
theorem occupant?_set_file {storage : Storage} {directory : Location} {name : Name}
    (hdirectory : storage.root.occupant? directory = some .directory)
    (h : storage.root.occupant? (directory ++ [name]) ≠ some .directory) (content : List UInt8) :
    (storage.set (directory ++ [name]) (.file content)).root.occupant? =
      Function.update storage.root.occupant? (directory ++ [name]) (some (.file content)) :=
  Node.occupant?_set_leaf _ (Node.isLeaf_file content) hdirectory h

/-- A new file is no directory, and neither does it make one. -/
theorem update_file_eq_directory_iff {occupant? : Location → Option Occupant} {location : Location}
    (hnone : occupant? location = none) (content : List UInt8) (other : Location) :
    Function.update occupant? location (some (.file content)) other = some .directory ↔
      occupant? other = some .directory := by
  rw [Function.update_apply]
  split
  next heq => simp [heq, hnone]
  next => rfl

section Temporary

variable {storage : Storage} {directory : Location} {name : Name}

/-- A new file that is written has its content, and nothing else has changed. -/
theorem occupant?_written (hdirectory : storage.root.occupant? directory = some .directory)
    (hnone : storage.root.occupant? (directory ++ [name]) = none) (content : List UInt8) :
    ((storage.set (directory ++ [name]) (.file [])).set (directory ++ [name])
      (.file content)).root.occupant? =
      Function.update storage.root.occupant? (directory ++ [name]) (some (.file content)) := by
  have hfree : storage.root.occupant? (directory ++ [name]) ≠ some .directory := by simp [hnone]
  have hcreated := occupant?_set_file hdirectory hfree []
  rw [occupant?_set_file, hcreated, Function.update_idem]
  · rw [hcreated, Function.update_of_ne (by simp)]
    exact hdirectory
  · simp [hcreated]

/-- Where a new file is written and taken away again, nothing has happened. -/
theorem erase_written (hordered : storage.root.Ordered)
    (hdirectory : storage.root.occupant? directory = some .directory)
    (hnone : storage.root.occupant? (directory ++ [name]) = none) (content : List UInt8) :
    ((storage.set (directory ++ [name]) (.file [])).set (directory ++ [name])
      (.file content)).erase (directory ++ [name]) = storage := by
  have hwritten := occupant?_written hdirectory hnone content
  have hordered' : ((storage.set (directory ++ [name]) (.file [])).set (directory ++ [name])
      (.file content)).root.Ordered := (hordered.set (.file _) _).set (.file _) _
  have hroot : (((storage.set (directory ++ [name]) (.file [])).set (directory ++ [name])
      (.file content)).erase (directory ++ [name])).root = storage.root := by
    refine Node.eq_of_occupant?_eq (hordered'.erase _) hordered ?_
    refine (Node.occupant?_erase_leaf hordered' ?_ ?_).trans ?_
    · rw [hwritten, Function.update_of_ne (by simp)]
      exact hdirectory
    · simp [hwritten]
    · rw [hwritten, Function.update_idem, ← hnone, Function.update_eq_self]
  exact congrArg (fun root => { storage with root }) hroot

end Temporary

/-- Without slashes at its end a path is the beginning of itself. -/
theorem withoutSlashes_isPrefix (parts : List PathPart) : withoutSlashes parts <+: parts := by
  rw [withoutSlashes, ← List.reverse_suffix, List.reverse_reverse]
  exact List.dropWhile_suffix _

/-- The slashes at the end of a path are no steps. -/
theorem exists_slashes (parts : List PathPart) : ∃ slashes, parts = withoutSlashes parts ++ slashes ∧
    ∀ part ∈ slashes, Step.ofText part.text = .stay := by
  refine ⟨(parts.reverse.takeWhile (·.text.isEmpty)).reverse, ?_, ?_⟩
  · rw [withoutSlashes, ← List.reverse_append, List.takeWhile_append_dropWhile, List.reverse_reverse]
  · intro part hpart
    have hempty := List.mem_takeWhile_imp (List.mem_reverse.mp hpart)
    rw [List.isEmpty_iff.mp hempty]
    rfl

/-- A directory is not left where nothing is stepped over. -/
theorem route_stays {occupant? : Location → Option Occupant} {location : Location}
    {steps : List Step} (hsteps : ∀ step ∈ steps, step = .stay)
    (h : occupant? location = some .directory) : route occupant? location steps = .ok location := by
  induction steps with
  | nil => rfl
  | cons step rest ih =>
    rw [List.forall_mem_cons] at hsteps
    obtain ⟨rfl, hrest⟩ := hsteps
    rw [route_stay, if_pos h, ih hrest]

/-- A path that has a place leads there in every tree that has the directories and something in that
place, a directory if there is a slash at its end. -/
theorem locate_of_place {storage after : Storage} {path : Path} {directory : Location}
    {name : Name} {slash : Bool} (hplace : storage.place path = .ok ⟨directory, some name, slash⟩)
    (hhere : after.here = storage.here)
    (hdirectories : ∀ location, storage.root.occupant? location = some .directory →
      after.root.occupant? location = some .directory)
    (h : after.root.occupant? (directory ++ [name]) ≠ none)
    (hslash : slash = true → after.root.occupant? (directory ++ [name]) = some .directory) :
    after.locate path = .ok (directory ++ [name]) := by
  obtain ⟨hfault, hwalk, hdirectory, hlast, hsize, hslashes⟩ := place_eq_ok_iff.mp hplace
  obtain ⟨-, hroute⟩ := walk_eq_ok_iff.mp hwalk
  obtain ⟨slashes, hparts, hstays⟩ := exists_slashes path.parts
  have hsteps : stepsOf path =
      ((withoutSlashes path.parts).dropLast.map fun part => Step.ofText part.text) ++
        .enter name :: slashes.map fun part => Step.ofText part.text := by
    obtain ⟨part, hpart, hstep⟩ := Option.map_eq_some_iff.mp hlast
    have hkept := List.dropLast_append_getLast? part hpart
    rw [stepsOf]
    nth_rewrite 1 [hparts]
    nth_rewrite 1 [← hkept]
    simp [hstep]
  have hend : route after.root.occupant? (directory ++ [name])
      (slashes.map fun part => Step.ofText part.text) = .ok (directory ++ [name]) := by
    cases slash with
    | true => exact route_stays (by simpa using hstays) (hslash rfl)
    | false =>
      have hnone : slashes = [] := by
        have hlength := congrArg List.length hparts
        rw [List.length_append] at hlength
        have hle := of_decide_eq_false hslashes
        exact List.length_eq_zero_iff.mp (by omega)
      rw [hnone]
      rfl
  have hstart : after.start path = storage.start path := by rw [start, start, hhere]
  have hroute' := route_mono hdirectories hroute (by simp [hdirectories _ hdirectory])
  refine locate_eq_ok_iff.mpr ⟨hfault, ?_, ?_⟩
  · rw [hstart]
    -- The start is a directory: the first step goes out from it.
    have hfirst : storage.root.occupant? (storage.start path) = some .directory := by
      cases hrest : (withoutSlashes path.parts).dropLast.map fun part => Step.ofText part.text with
      | nil =>
        rw [hrest] at hroute
        exact Except.ok.inj hroute ▸ hdirectory
      | cons step rest =>
        rw [hrest] at hroute
        exact occupant?_of_route_cons hroute
    simp [hdirectories _ hfirst]
  · rw [hsteps, hstart, route_append_eq_ok_iff]
    exact ⟨directory, hroute',
      route_enter_eq_ok_iff.mpr ⟨hdirectories _ hdirectory, hsize, h, hend⟩⟩

/-- A temporary file that is moved leaves nothing but the file in its place, which the path leads
to. -/
theorem moveFile_written {storage moved : Storage} (hordered : storage.root.Ordered)
    {parent : Location} {unused : Name}
    (hparent : storage.root.occupant? parent = some .directory)
    (hnone : storage.root.occupant? (parent ++ [unused]) = none) {content : List UInt8} {path : Path}
    (h : ((storage.set (parent ++ [unused]) (.file [])).set (parent ++ [unused])
      (.file content)).moveFile (parent ++ [unused]) path = .ok moved) :
    ∃ directory name, storage.root.occupant? directory = some .directory ∧
      storage.root.occupant? (directory ++ [name]) ≠ some .directory ∧
      moved = storage.set (directory ++ [name]) (.file content) ∧
      moved.locate path = .ok (directory ++ [name]) := by
  have hwritten := occupant?_written hparent hnone content
  obtain ⟨directory, name, node, hplace, hno, hnode, hmoved⟩ := moveFile_eq_ok h
  rw [erase_written hordered hparent hnone] at hmoved
  obtain rfl : node = .file content := by
    have hfile := Node.occupant?_eq_file_iff.mp
      ((congrFun hwritten (parent ++ [unused])).trans (Function.update_self _ _ _))
    exact Option.some.inj (hnode.symm.trans hfile)
  -- Every directory was there before the temporary file, which is none.
  have hbefore {location : Location} : storage.root.occupant? location = some .directory ↔
      ((storage.set (parent ++ [unused]) (.file [])).set (parent ++ [unused])
        (.file content)).root.occupant? location = some .directory := by
    rw [hwritten, update_file_eq_directory_iff hnone]
  obtain ⟨-, -, hdirectory, -⟩ := place_eq_ok_iff.mp hplace
  rw [← hbefore] at hdirectory
  have hfree := hbefore.not.mpr hno
  have hafter := occupant?_set_file hdirectory hfree content
  refine ⟨directory, name, hdirectory, hfree, hmoved, ?_⟩
  rw [hmoved]
  refine locate_of_place hplace rfl ?_ (by simp [hafter]) nofun
  intro location hlocation
  rw [hafter, Function.update_of_ne]
  · exact hbefore.mpr hlocation
  · rintro rfl
    exact hno hlocation

/-- Putting a file in its place either fails and leaves everything as it was, or puts it where the
path leads to from then on. -/
theorem replaceFile_cases {storage : Storage} (hordered : storage.root.Ordered) (path : Path)
    (content : List UInt8) :
    (∃ fault, storage.replaceFile path content = (.error fault, storage)) ∨
    ∃ directory name after, storage.replaceFile path content = (.ok (), after) ∧
      storage.root.occupant? directory = some .directory ∧
      storage.root.occupant? (directory ++ [name]) ≠ some .directory ∧
      after = storage.set (directory ++ [name]) (.file content) ∧
      after.locate path = .ok (directory ++ [name]) := by
  unfold replaceFile
  generalize hmade : storage.makeTemporary (directoryOf path) (storage.draw path) = made
  cases made with
  | error fault => exact .inl ⟨fault, rfl⟩
  | ok made =>
    obtain ⟨temporary, created⟩ := made
    obtain ⟨parent, unused, rfl, rfl, hparent, hnone⟩ := makeTemporary_eq_ok hmade
    obtain ⟨written, hwritten, hcontent⟩ :=
      exists_of_writeFile (storage.set (parent ++ [unused]) (.file [])) (parent ++ [unused]) content
    dsimp only
    generalize (storage.set (parent ++ [unused]) (.file [])).writeFile (parent ++ [unused]) content =
      result at hwritten hcontent ⊢
    obtain ⟨outcome, after⟩ := result
    obtain rfl : after = _ := hwritten
    have herase := erase_written hordered hparent hnone written
    cases outcome with
    | error fault => exact .inl ⟨_, by simp only [herase]; rfl⟩
    | ok =>
      obtain rfl := hcontent rfl
      dsimp only
      split
      next fault _ => exact .inl ⟨fault, by rw [herase]⟩
      next moved hmove =>
        obtain ⟨directory, name, hdirectory, hfree, hmoved, hlocate⟩ :=
          moveFile_written hordered hparent hnone hmove
        exact .inr ⟨directory, name, moved, rfl, hdirectory, hfree, hmoved, hlocate⟩

/-- A conversion either fails and leaves everything as it was, or puts the text of the mapfile where
the path of the mapfile leads to from then on. -/
theorem convert_cases {storage : Storage} (hordered : storage.root.Ordered)
    (options : Mapfile.Options) (project mapFile : Path) :
    (∃ error, storage.convert options project mapFile = (.error error, storage)) ∨
    ∃ status text directory name after,
      storage.convert options project mapFile = (.ok status, after) ∧
      storage.mapfileOf options project = .ok text ∧
      storage.root.occupant? directory = some .directory ∧
      storage.root.occupant? (directory ++ [name]) ≠ some .directory ∧
      after = storage.set (directory ++ [name]) (.file (Text.Utf8.encode text)) ∧
      after.locate mapFile = .ok (directory ++ [name]) := by
  unfold convert
  cases htext : storage.mapfileOf options project with
  | error error => exact .inl ⟨error, rfl⟩
  | ok text =>
    rcases replaceFile_cases hordered mapFile (Text.Utf8.encode text) with
      ⟨fault, h⟩ | ⟨directory, name, after, h, hrest⟩
    · exact .inl ⟨.storage fault, by simp only [h]⟩
    · refine .inr ⟨"Writing the map file using " ++ project.shown ++ " " ++ mapFile.shown, text,
        directory, name, after, ?_, rfl, hrest⟩
      simp only [h]

/-- A conversion does all or nothing. When it succeeds, the path of the mapfile leads to a file with
the text of the mapfile, and everything else is as before; when it fails, for whatever reason,
everything is as before. -/
theorem convert_all_or_nothing (storage : Storage) (hordered : storage.root.Ordered)
    (options : Mapfile.Options) (project mapFile : Path) :
    (∀ status after, storage.convert options project mapFile = (.ok status, after) →
      ∃ document text location,
        storage.load project = .ok document ∧ Mapfile.render options document = .ok text ∧
        after.locate mapFile = .ok location ∧
        after.root.at? location = some (.file (Text.Utf8.encode text)) ∧
        (∀ other, other ≠ location →
          after.root.occupant? other = storage.root.occupant? other) ∧
        after.here = storage.here) ∧
    ∀ error after, storage.convert options project mapFile = (.error error, after) →
      after = storage := by
  rcases convert_cases hordered options project mapFile with
    ⟨error, h⟩ | ⟨status, text, directory, name, after, h, htext, hdirectory, hfree, rfl, hlocate⟩
  · rw [h]
    constructor
    · exact fun _ _ h => nomatch (Prod.mk.inj h).1
    · exact fun _ _ h => (Prod.mk.inj h).2.symm
  · rw [h]
    have hoccupant := occupant?_set_file hdirectory hfree (Text.Utf8.encode text)
    constructor
    · rintro _ _ ⟨⟩
      obtain ⟨document, hload, hrender⟩ := bind_eq_ok_iff.mp htext
      refine ⟨document, text, directory ++ [name], hload, hrender, hlocate, ?_, ?_, rfl⟩
      · exact Node.occupant?_eq_file_iff.mp (by rw [hoccupant, Function.update_self])
      · intro other hother
        rw [hoccupant, Function.update_of_ne hother]
    · exact fun _ _ h => nomatch (Prod.mk.inj h).1

/-- A directory with the survey in it. -/
def surveyStorage : Storage where
  root := .directory [("survey.qgs", .file Mapfile.surveyDocument.root.serialize)]

/-- The entries in the storage of the survey are in order. -/
theorem ordered_surveyStorage : surveyStorage.root.Ordered := by
  refine .directory (List.pairwise_singleton _ _) fun name node hget => ?_
  rw [Entries.get?] at hget
  split at hget
  next => exact Option.some.inj hget ▸ .file _
  next => cases hget

/-- The survey is loaded from a file that holds it. -/
theorem load_survey {storage : Storage} {path : Path} (hsource : path.isArchive = false)
    (hopen : storage.open? path = .ok (.file Mapfile.surveyDocument.root.serialize)) :
    storage.load path = .ok { Mapfile.surveyDocument with source := some path.shown } := by
  have hwritable : Mapfile.surveyDocument.root.Writable := by decide +kernel
  have hparse : Xml.parse Mapfile.surveyDocument.root.serialize = .ok Mapfile.surveyDocument.root :=
    Xml.parse_written hwritable (Xml.writtenDocument_serialize _)
  rw [load, hsource, hopen]
  rw [Xml.parse] at hparse
  simp only [Except.mapError, bind, Except.bind, Node.source, Project.Document.ofSource, hparse]
  rfl

/-- The survey is loaded from its file. -/
theorem load_surveyStorage : surveyStorage.load ⟨"survey.qgs"⟩ = .ok Mapfile.surveyDocument := by
  have hlocate : surveyStorage.locate ⟨"survey.qgs"⟩ = .ok ["survey.qgs"] := by decide +kernel
  have hshown : Path.shown ⟨"survey.qgs"⟩ = "survey.qgs" := by decide +kernel
  rw [load_survey (by decide +kernel) (open?_eq_ok_iff.mpr ⟨_, hlocate, rfl⟩), hshown]
  rfl

/-- The mapfile of the survey can be written beside it. -/
theorem convert_surveyStorage : ∃ status after,
    surveyStorage.convert {} ⟨"survey.qgs"⟩ ⟨"survey.map"⟩ = (.ok status, after) := by
  obtain ⟨text, htext⟩ := exists_eq_ok_of_isOk Mapfile.isOk_render_surveyDocument
  have hmapfile : surveyStorage.mapfileOf {} ⟨"survey.qgs"⟩ = .ok text := by
    rw [mapfileOf, load_surveyStorage]
    exact htext
  have hreplaced : (Mapfile.render {} Mapfile.surveyDocument).toOption.all (fun text =>
      (surveyStorage.replaceFile ⟨"survey.map"⟩ (Text.Utf8.encode text)).1.isOk) = true := by
    decide +kernel
  rw [htext] at hreplaced
  rw [convert, hmapfile]
  dsimp only
  cases hreplace : surveyStorage.replaceFile ⟨"survey.map"⟩ (Text.Utf8.encode text) with
  | mk result after =>
    cases result with
    | error fault => simp [Except.toOption, Except.isOk, Except.toBool, hreplace] at hreplaced
    | ok => exact ⟨_, after, rfl⟩

/-- The survey is converted, and a project that is not there is not. -/
theorem surveyStorage_all_or_nothing :
    (∃ status after, surveyStorage.convert {} ⟨"survey.qgs"⟩ ⟨"survey.map"⟩ = (.ok status, after) ∧
      ∃ document text location, surveyStorage.load ⟨"survey.qgs"⟩ = .ok document ∧
        Mapfile.render {} document = .ok text ∧ after.locate ⟨"survey.map"⟩ = .ok location ∧
        after.root.at? location = some (.file (Text.Utf8.encode text)) ∧
        (∀ other, other ≠ location →
          after.root.occupant? other = surveyStorage.root.occupant? other) ∧
        after.here = surveyStorage.here) ∧
    ∃ error, surveyStorage.convert {} ⟨"missing.qgs"⟩ ⟨"survey.map"⟩ =
      (.error error, surveyStorage) := by
  constructor
  · obtain ⟨status, after, h⟩ := convert_surveyStorage
    exact ⟨status, after, h, (convert_all_or_nothing _ ordered_surveyStorage _ _ _).1 _ _ h⟩
  · have hmissing : surveyStorage.locate ⟨"missing.qgs"⟩ = .error .notFound := by decide +kernel
    have hsource : (⟨"missing.qgs"⟩ : Path).isArchive = false := by decide +kernel
    have h : (surveyStorage.convert {} ⟨"missing.qgs"⟩ ⟨"survey.map"⟩).1 =
        .error (.storage .notFound) := by
      rw [convert, mapfileOf, load, hsource, open?, hmissing]
      rfl
    have hsame := (convert_all_or_nothing _ ordered_surveyStorage _ _ _).2 _ _ (Prod.ext h rfl)
    exact ⟨_, Prod.ext h hsame⟩

end Storage

end Carta
