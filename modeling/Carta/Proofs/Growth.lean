import Carta.Proofs.Collection
import Mathlib.Data.Set.Basic

/-!
# What stays while directories and files are added

A run adds directories and puts files where mapfiles belong. Through all of it directories stay
directories, and outside of these places files stay as they are; so a path that leads to a project
goes on leading to it.
-/

namespace Carta

/-- The characters between those that divide a text are characters of the text. -/
theorem Text.subset_of_mem_splitWhere {A : Type} {test : A → Bool} {part cs : List A}
    (h : part ∈ splitWhere test cs) : part ⊆ cs := by
  induction cs generalizing part with
  | nil =>
    obtain rfl := List.mem_singleton.mp h
    exact List.Subset.refl _
  | cons c cs ih =>
    rw [splitWhere] at h
    split at h
    next =>
      rcases List.mem_cons.mp h with rfl | h
      · exact List.nil_subset _
      · exact List.Subset.trans (ih h) (List.subset_cons_self _ _)
    next =>
      split at h
      next first rest hparts =>
        rw [hparts] at ih
        rcases List.mem_cons.mp h with rfl | h
        · exact List.cons_subset_cons _ (ih List.mem_cons_self)
        · exact List.Subset.trans (ih (List.mem_cons_of_mem _ h)) (List.subset_cons_self _ _)
      next hparts => exact absurd hparts (splitWhere_ne_nil test cs)

namespace Path

/-- A part that is entered is a name. -/
theorem isEntryName_of_mem_parts {path : Path} (hfault : Storage.pathFault? path = none)
    {part : PathPart} (h : part ∈ path.parts) {name : Name}
    (hstep : Storage.Step.ofText part.text = .enter name) : IsEntryName name := by
  have htext : part.text ∈ path.texts := path.map_text_parts ▸ List.mem_map_of_mem h
  have hslash := noSlash_of_mem_texts htext
  have hnul : (0 : UInt8) ∉ part.text := fun hmem =>
    (Storage.pathFault?_eq_none_iff.mp hfault).1 (Text.subset_of_mem_splitWhere htext hmem)
  unfold Storage.Step.ofText at hstep
  split at hstep
  next => cases hstep
  next => cases hstep
  next => cases hstep
  next hempty hdot hdots =>
    obtain rfl := Storage.Step.enter.inj hstep
    exact ⟨hempty, hdot, hdots, hslash, hnul⟩

/-- A part that is entered says a name. -/
theorem component_of_mem_parts {path : Path} {part : PathPart} (h : part ∈ path.parts)
    {name : Name} (hstep : Storage.Step.ofText part.text = .enter name) :
    part.component = some (.name name) := by
  unfold Storage.Step.ofText at hstep
  split at hstep
  next => cases hstep
  next => cases hstep
  next => cases hstep
  next hempty hdot hdots =>
    obtain rfl := Storage.Step.enter.inj hstep
    rw [parts_eq_partsOf] at h
    cases htexts : path.texts with
    | nil => exact absurd htexts path.texts_ne_nil
    | cons first rest =>
      rw [htexts, partsOf] at h
      rcases List.mem_cons.mp h with rfl | h
      · rw [firstComponent]
        · exact hempty
        · exact hdot
        · exact hdots
      · obtain ⟨text, -, rfl⟩ := List.mem_map.mp h
        rw [PathPart.later, laterComponent]
        · exact hempty
        · exact hdot
        · exact hdots

end Path

namespace Storage

/-- A path that leads to a file ends with its name. -/
theorem exists_of_locate_file {storage : Storage} {path : Path} {location : Location}
    {content : List UInt8} (h : storage.locate path = .ok location)
    (hfile : storage.root.occupant? location = some (.file content)) : ∃ directory name,
      location = directory ++ [name] ∧ path.fileName? = some name ∧ IsEntryName name ∧
      name.length ≤ maxNameSize := by
  obtain ⟨hfault, -, hroute⟩ := locate_eq_ok_iff.mp h
  have hne : path.parts ≠ [] := by
    intro hnil
    have htexts := path.map_text_parts
    rw [hnil] at htexts
    exact path.texts_ne_nil htexts.symm
  obtain ⟨before, last, hparts⟩ := (List.eq_nil_or_concat' path.parts).resolve_left hne
  have hmem : last ∈ path.parts := by simp [hparts]
  rw [stepsOf, hparts, List.map_append, route_append_eq_ok_iff] at hroute
  obtain ⟨middle, -, hlast⟩ := hroute
  have hmiddle := occupant?_of_route_cons hlast
  rw [List.map_singleton] at hlast
  cases hstep : Step.ofText last.text with
  | stay =>
    rw [hstep, route_stay, if_pos hmiddle] at hlast
    obtain rfl := Except.ok.inj hlast
    cases hmiddle.symm.trans hfile
  | up =>
    rw [hstep, route_up, if_pos hmiddle] at hlast
    obtain rfl := Except.ok.inj hlast
    have htop : storage.root.occupant? ([] ++ middle) = some .directory := hmiddle
    have habove := directory_of_isPrefix htop (List.dropLast_prefix middle)
    cases habove.symm.trans hfile
  | enter name =>
    rw [hstep] at hlast
    obtain ⟨-, hsize, -, hend⟩ := route_enter_eq_ok_iff.mp hlast
    refine ⟨middle, name, (Except.ok.inj hend).symm, ?_,
      Path.isEntryName_of_mem_parts hfault hmem hstep, hsize⟩
    have hcomponent := Path.component_of_mem_parts hmem hstep
    rw [Path.fileName?, Path.components, hparts, List.filterMap_append,
      List.filterMap_cons_some hcomponent, List.filterMap_nil, List.getLast?_concat]

/-- The same file is at a location, if there is one. -/
def SameFile (before after : Storage) (location : Location) : Prop :=
  ∀ content, before.root.occupant? location = some (.file content) ↔
    after.root.occupant? location = some (.file content)

/-- A file is the same in one storage. -/
theorem SameFile.refl (storage : Storage) (location : Location) : SameFile storage storage location :=
  fun _ => Iff.rfl

/-- A file that is the same in two steps is the same after both. -/
theorem SameFile.trans {before middle after : Storage} {location : Location}
    (hfirst : SameFile before middle location) (hsecond : SameFile middle after location) :
    SameFile before after location :=
  fun content => (hfirst content).trans (hsecond content)

/-- Where only directories are added and files put at some locations. -/
structure Grows (changed : Set Location) (before after : Storage) : Prop where
  here : after.here = before.here
  writeFault? : after.writeFault? = before.writeFault?
  ordered : before.root.Ordered → after.root.Ordered
  directories : ∀ location, before.root.occupant? location = some .directory →
    after.root.occupant? location = some .directory
  files : ∀ location ∉ changed, SameFile before after location

namespace Grows

variable {changed more : Set Location} {before middle after : Storage}

/-- A storage grows into itself. -/
theorem refl (storage : Storage) : Grows ∅ storage storage :=
  ⟨rfl, rfl, id, fun _ => id, fun _ _ => .refl _ _⟩

/-- A storage that grows with few changes grows with more of them allowed. -/
theorem mono (h : Grows changed before after) (hsubset : changed ⊆ more) :
    Grows more before after :=
  ⟨h.here, h.writeFault?, h.ordered, h.directories,
    fun location hlocation => h.files location fun hchanged => hlocation (hsubset hchanged)⟩

/-- Growth in two steps is growth, with the changes of both. -/
theorem trans (hfirst : Grows changed before middle) (hsecond : Grows more middle after) :
    Grows (changed ∪ more) before after where
  here := hsecond.here.trans hfirst.here
  writeFault? := hsecond.writeFault?.trans hfirst.writeFault?
  ordered := hsecond.ordered ∘ hfirst.ordered
  directories location := hsecond.directories location ∘ hfirst.directories location
  files location hlocation := by
    rw [Set.mem_union, not_or] at hlocation
    exact (hfirst.files location hlocation.1).trans (hsecond.files location hlocation.2)

/-- A path that leads to a directory goes on doing so. -/
theorem leadsTo (h : Grows changed before after) {path : Path} {location : Location}
    (hleads : before.LeadsTo path location) : after.LeadsTo path location :=
  hleads.mono h.here h.directories

/-- A path that leads to something leads there as long as something is there. -/
theorem locate (h : Grows changed before after) {path : Path} {location : Location}
    (hlocate : before.locate path = .ok location) (hgoal : after.root.occupant? location ≠ none) :
    after.locate path = .ok location := by
  obtain ⟨hfault, hstart, hroute⟩ := locate_eq_ok_iff.mp hlocate
  have hroute' := route_mono h.directories hroute hgoal
  have hsame : after.start path = before.start path := by rw [start, start, h.here]
  refine locate_eq_ok_iff.mpr ⟨hfault, ?_, hsame ▸ hroute'⟩
  rw [hsame]
  cases hsteps : stepsOf path with
  | nil =>
    rw [hsteps] at hroute'
    exact Except.ok.inj hroute' ▸ hgoal
  | cons step rest =>
    rw [hsteps] at hroute'
    simp [occupant?_of_route_cons hroute']

end Grows

section Reading

/-- A path that leads to a file, or never leads anywhere. -/
def IsSteady (storage : Storage) (path : Path) : Prop :=
  pathFault? path ≠ none ∨ ∃ location content, storage.locate path = .ok location ∧
    storage.root.occupant? location = some (.file content)

/-- No project is at the locations. -/
def Spares (changed : Set Location) : Prop :=
  ∀ directory name, directory ++ [name] ∈ changed → Path.isProjectName name = false

/-- No project is at no location. -/
theorem spares_empty : Spares ∅ :=
  fun _ _ h => nomatch h

variable {changed : Set Location} {before after : Storage} {project : Path}

/-- A path that leads to a file that is not changed leads to it for good. -/
theorem Grows.locate_file (h : Grows changed before after) {path : Path} {location : Location}
    {content : List UInt8} (hlocate : before.locate path = .ok location)
    (hfile : before.root.occupant? location = some (.file content)) (hkept : location ∉ changed) :
    after.locate path = .ok location ∧ after.root.occupant? location = some (.file content) := by
  have hafter := (h.files _ hkept content).mp hfile
  exact ⟨h.locate hlocate (by simp [hafter]), hafter⟩

/-- What a path reads stays when the file is not changed. -/
theorem Grows.open?_eq_of_file (h : Grows changed before after) {path : Path}
    {location : Location} {content : List UInt8} (hlocate : before.locate path = .ok location)
    (hfile : before.root.occupant? location = some (.file content)) (hkept : location ∉ changed) :
    after.open? path = before.open? path := by
  have hopen {storage : Storage} (hlocate : storage.locate path = .ok location)
      (hfile : storage.root.occupant? location = some (.file content)) :
      storage.open? path = .ok (.file content) :=
    open?_eq_ok_iff.mpr ⟨location, hlocate, Node.occupant?_eq_file_iff.mp hfile⟩
  obtain ⟨hlocate', hfile'⟩ := h.locate_file hlocate hfile hkept
  rw [hopen hlocate' hfile', hopen hlocate hfile]

variable (h : Grows changed before after) (hspares : Spares changed)
  (hproject : Command.isProjectFile project = true)

include hspares hproject

/-- A project file is not among what is changed. -/
theorem Spares.not_mem {location : Location} {content : List UInt8}
    (hlocate : before.locate project = .ok location)
    (hfile : before.root.occupant? location = some (.file content)) : location ∉ changed := by
  obtain ⟨directory, name, rfl, hname, -, -⟩ := exists_of_locate_file hlocate hfile
  rw [Path.isProjectFile_eq, hname, Option.any_some] at hproject
  intro hmem
  exact Bool.false_ne_true ((hspares directory name hmem).symm.trans hproject)

include h

/-- A project that is steady stays so when the storage grows. -/
theorem Grows.isSteady (hsteady : IsSteady before project) : IsSteady after project := by
  rcases hsteady with hfault | ⟨location, content, hlocate, hfile⟩
  · exact .inl hfault
  · have hkept := hspares.not_mem hproject hlocate hfile
    exact .inr ⟨location, content, h.locate_file hlocate hfile hkept⟩

/-- What a project is read from stays. -/
theorem Grows.open?_eq (hsteady : IsSteady before project) :
    after.open? project = before.open? project := by
  rcases hsteady with hfault | ⟨location, content, hlocate, hfile⟩
  · obtain ⟨fault, hfault⟩ := Option.ne_none_iff_exists'.mp hfault
    simp only [open?, Storage.locate, hfault]
  · exact h.open?_eq_of_file hlocate hfile (hspares.not_mem hproject hlocate hfile)

/-- The mapfile of a project stays what it is. -/
theorem Grows.mapfileOf_eq (hsteady : IsSteady before project) (options : Mapfile.Options) :
    after.mapfileOf options project = before.mapfileOf options project := by
  simp only [mapfileOf, load, loadArchive, h.open?_eq hspares hproject hsteady]

end Reading

section MakeDirectories

/-- A directory that is made is empty, where nothing was. -/
theorem makeDirectory_eq_ok {storage after : Storage} {path : Path}
    (h : storage.makeDirectory path = .ok after) : ∃ directory name slash,
      storage.place path = .ok ⟨directory, some name, slash⟩ ∧
      storage.root.occupant? (directory ++ [name]) = none ∧
      after = storage.set (directory ++ [name]) (.directory []) := by
  rw [makeDirectory] at h
  split at h
  next => cases h
  next => cases h
  next directory name slash hplace =>
    split at h
    next => cases h
    next hnone =>
      refine ⟨directory, name, slash, hplace, ?_, (Except.ok.inj h).symm⟩
      exact Node.occupant?_eq_none_iff.mpr (Option.not_isSome_iff_eq_none.mp hnone)

/-- A place is in a directory and has a name. -/
theorem exists_of_place {storage : Storage} {path : Path} {directory : Location} {name : Name}
    {slash : Bool} (h : storage.place path = .ok ⟨directory, some name, slash⟩) :
    storage.root.occupant? directory = some .directory ∧ IsEntryName name ∧
      name.length ≤ maxNameSize := by
  obtain ⟨hfault, -, hdirectory, hlast, hsize, -⟩ := place_eq_ok_iff.mp h
  obtain ⟨part, hpart, hstep⟩ := Option.map_eq_some_iff.mp hlast
  have hmem := (withoutSlashes_isPrefix path.parts).subset (List.mem_of_getLast? hpart)
  exact ⟨hdirectory, Path.isEntryName_of_mem_parts hfault hmem hstep, hsize⟩

variable {storage after : Storage} {path : Path}

/-- A new directory is at its location, and elsewhere nothing is changed. -/
theorem occupant?_of_makeDirectory {directory : Location} {name : Name} {slash : Bool}
    (hplace : storage.place path = .ok ⟨directory, some name, slash⟩)
    (hnone : storage.root.occupant? (directory ++ [name]) = none) :
    (storage.set (directory ++ [name]) (.directory [])).root.occupant? =
      Function.update storage.root.occupant? (directory ++ [name]) (some .directory) :=
  Node.occupant?_set_leaf _ Node.isLeaf_emptyDirectory (exists_of_place hplace).1
    fun hdirectory => nomatch hnone.symm.trans hdirectory

/-- A storage grows when a directory is made. -/
theorem grows_of_makeDirectory (h : storage.makeDirectory path = .ok after) :
    Grows ∅ storage after := by
  obtain ⟨directory, name, slash, hplace, hnone, rfl⟩ := makeDirectory_eq_ok h
  have hoccupant := occupant?_of_makeDirectory hplace hnone
  have hempty : (Node.directory []).Ordered := .directory .nil (by rintro _ _ ⟨⟩)
  refine ⟨rfl, rfl, fun hordered => hordered.set hempty _, ?_, ?_⟩
  · intro location hlocation
    rw [hoccupant, Function.update_apply]
    split
    next => rfl
    next => exact hlocation
  · intro location _ content
    rw [hoccupant, Function.update_apply]
    split
    next heq => simp [heq, hnone]
    next => rfl

/-- A new directory has a name that an entry can have. -/
theorem named_of_makeDirectory (h : storage.makeDirectory path = .ok after)
    (hnamed : Command.Named storage.root) : Command.Named after.root := by
  obtain ⟨directory, name, slash, hplace, hnone, rfl⟩ := makeDirectory_eq_ok h
  intro location last hsome
  rw [occupant?_of_makeDirectory hplace hnone, Function.update_apply] at hsome
  split at hsome
  next heq =>
    obtain ⟨-, hlast⟩ := List.append_inj' heq rfl
    obtain rfl := List.singleton_inj.mp hlast
    exact (exists_of_place hplace).2
  next => exact hnamed location last hsome

/-- A path leads to the directory that is made for it. -/
theorem exists_leadsTo_of_makeDirectory (h : storage.makeDirectory path = .ok after) :
    ∃ location, after.LeadsTo path location := by
  have hgrows := grows_of_makeDirectory h
  obtain ⟨directory, name, slash, hplace, hnone, rfl⟩ := makeDirectory_eq_ok h
  have hdirectory : (storage.set (directory ++ [name]) (.directory [])).root.occupant?
      (directory ++ [name]) = some .directory := by
    rw [occupant?_of_makeDirectory hplace hnone, Function.update_self]
  exact ⟨_, locate_of_place hplace rfl hgrows.directories (by simp [hdirectory])
    fun _ => hdirectory, hdirectory⟩

/-- A path is that of a directory when it leads to one. -/
theorem isDirectory_eq_true_iff :
    storage.isDirectory path = true ↔ ∃ location, storage.LeadsTo path location := by
  constructor
  · intro h
    rw [isDirectory] at h
    split at h
    next entries hopen =>
      obtain ⟨location, hlocate, hat⟩ := open?_eq_ok_iff.mp hopen
      exact ⟨location, hlocate, Node.occupant?_eq_directory_iff.mpr ⟨entries, hat⟩⟩
    next => cases h
  · rintro ⟨location, h⟩
    exact h.isDirectory

/-- What making the directory of a path comes to: nothing but directories is added, and where it
succeeds, the path leads to one. -/
structure Makes (storage : Storage) (path : Path) (result : Except Fault Unit × Storage) : Prop where
  grows : Grows ∅ storage result.2
  named : Command.Named storage.root → Command.Named result.2.root
  leadsTo : result.1 = .ok () → path.text ≠ [] → ∃ location, result.2.LeadsTo path location

namespace Makes

/-- A directory that can be made at once is made by itself. -/
theorem of_makeDirectory (h : storage.makeDirectory path = .ok after) :
    Makes storage path (.ok (), after) :=
  ⟨grows_of_makeDirectory h, named_of_makeDirectory h, fun _ _ => exists_leadsTo_of_makeDirectory h⟩

/-- Where it fails, the directory may be there already. -/
theorem of_isDirectory (fault : Fault) : Makes storage path
    (if storage.isDirectory path then (.ok (), storage) else (.error fault, storage)) := by
  split
  next hthere => exact ⟨.refl _, id, fun _ _ => isDirectory_eq_true_iff.mp hthere⟩
  next => exact ⟨.refl _, id, nofun⟩

/-- Other directories may be made before. -/
theorem of_grows {middle : Storage} {result : Except Fault Unit × Storage}
    (h : Makes middle path result) (hgrows : Grows ∅ storage middle)
    (hnamed : Command.Named storage.root → Command.Named middle.root) :
    Makes storage path result where
  grows := Set.union_empty (∅ : Set Location) ▸ hgrows.trans h.grows
  named := h.named ∘ hnamed
  leadsTo := h.leadsTo

/-- The directory of a path is made, if need be after those above it. -/
theorem of_above {above : List Path} (hgrows : Grows ∅ storage (storage.makeDirectoriesOf above).2)
    (hnamed : Command.Named storage.root →
      Command.Named (storage.makeDirectoriesOf above).2.root) :
    Makes storage path (storage.makeDirectoriesOf (path :: above)) := by
  rw [makeDirectoriesOf]
  split
  next hempty =>
    exact ⟨.refl _, id, fun _ hne => absurd (List.isEmpty_iff.mp hempty) hne⟩
  next =>
    split
    next made hmade => exact .of_makeDirectory hmade
    next =>
      split
      next fault middle habove =>
        rw [habove] at hgrows hnamed
        exact ⟨hgrows, hnamed, by rintro ⟨⟩⟩
      next middle habove =>
        rw [habove] at hgrows hnamed
        split
        next made hmade => exact (Makes.of_makeDirectory hmade).of_grows hgrows hnamed
        next fault _ => exact (Makes.of_isDirectory fault).of_grows hgrows hnamed
    next fault _ _ => exact .of_isDirectory fault

end Makes

/-- Making directories adds nothing else. -/
theorem makeDirectoriesOf_grows (storage : Storage) (paths : List Path) :
    Grows ∅ storage (storage.makeDirectoriesOf paths).2 ∧
    (Command.Named storage.root → Command.Named (storage.makeDirectoriesOf paths).2.root) := by
  induction paths with
  | nil => exact ⟨.refl _, id⟩
  | cons path above ih =>
    have hmakes : Makes storage path _ := .of_above ih.1 ih.2
    exact ⟨hmakes.grows, hmakes.named⟩

/-- Making a directory and those above it adds nothing else, and where it succeeds, the path leads to
a directory. -/
theorem makeDirectories_makes (storage : Storage) (path : Path) :
    Makes storage path (storage.makeDirectories path) :=
  .of_above (makeDirectoriesOf_grows storage path.parents).1
    (makeDirectoriesOf_grows storage path.parents).2

end MakeDirectories

end Storage

end Carta
