import Carta.Proofs.Plans

/-!
# Names that are drawn

How a temporary file is called is a matter of chance, and two runs draw different names. What becomes
of a tree does not depend on them, and neither does what is told, but for one thing: the fault of a
temporary file is told with its path.
-/

namespace Carta

namespace Storage

/-- The same tree, with other names for temporary files. -/
def redraw (storage : Storage) (draws : Path → Suffix) : Storage :=
  { storage with draw := draws }

/-- A path leads to the same directory whatever is drawn. -/
theorem LeadsTo.redraw {storage : Storage} {path : Path} {location : Location}
    (h : storage.LeadsTo path location) (draws : Path → Suffix) :
    (storage.redraw draws).LeadsTo path location :=
  ⟨h.locate, h.directory⟩

section

variable (storage : Storage) (draws : Path → Suffix)

/-- A directory is made whatever is drawn. -/
theorem makeDirectory_redraw (path : Path) : (storage.redraw draws).makeDirectory path =
    (storage.makeDirectory path).map (·.redraw draws) := by
  have hplace : (storage.redraw draws).place path = storage.place path := rfl
  have hroot : (storage.redraw draws).root = storage.root := rfl
  rw [makeDirectory, makeDirectory, hplace, hroot]
  split
  next => rfl
  next => rfl
  next =>
    split
    next => rfl
    next => rfl

/-- Directories are made whatever is drawn. -/
theorem makeDirectoriesOf_redraw (paths : List Path) :
    (storage.redraw draws).makeDirectoriesOf paths =
      ((storage.makeDirectoriesOf paths).1, (storage.makeDirectoriesOf paths).2.redraw draws) := by
  induction paths with
  | nil => rfl
  | cons path above ih =>
    have hsame (other : Storage) : (other.redraw draws).isDirectory path = other.isDirectory path := rfl
    rw [makeDirectoriesOf, makeDirectoriesOf, makeDirectory_redraw, hsame, ih]
    split
    next => rfl
    next =>
      cases hmake : storage.makeDirectory path with
      | ok made => rfl
      | error fault =>
        cases fault with
        | notFound =>
          dsimp only [Except.map]
          generalize storage.makeDirectoriesOf above = made
          obtain ⟨outcome, prepared⟩ := made
          cases outcome with
          | error fault => rfl
          | ok =>
            dsimp only
            rw [makeDirectory_redraw, hsame]
            cases prepared.makeDirectory path with
            | ok made => rfl
            | error fault =>
              dsimp only [Except.map]
              split <;> rfl
        | _ =>
          dsimp only [Except.map]
          split <;> rfl

/-- A directory and all above it are made whatever is drawn. -/
theorem makeDirectories_redraw (path : Path) : (storage.redraw draws).makeDirectories path =
    ((storage.makeDirectories path).1, (storage.makeDirectories path).2.redraw draws) :=
  storage.makeDirectoriesOf_redraw draws _

/-- Making directories draws no names. -/
theorem redraw_makeDirectories (path : Path) :
    (storage.makeDirectories path).2.redraw storage.draw = (storage.makeDirectories path).2 :=
  congrArg Prod.snd (storage.makeDirectories_redraw storage.draw path).symm

/-- A temporary file can be made and written whatever is drawn. -/
theorem temporaryFault?_redraw (path : Path) (content : List UInt8) :
    (storage.redraw draws).temporaryFault? path content = storage.temporaryFault? path content :=
  @temporaryFault?_congr storage (storage.redraw draws) rfl rfl path content

end

end Storage

namespace Command

variable {arguments : Arguments} {storage : Storage} {task : Task} (draws : Path → Storage.Suffix)

/-- The same is put in the place of a mapfile whatever is drawn. -/
theorem errandOf_redraw :
    errandOf arguments (storage.redraw draws) task = errandOf arguments storage task := by
  have hcontent : contentOf? arguments (storage.redraw draws) task =
      contentOf? arguments storage task := by
    have hmapfile : (storage.redraw draws).mapfileOf (arguments.optionsFor task.project) task.project =
      storage.mapfileOf (arguments.optionsFor task.project) task.project := rfl
    have hfits (content : List UInt8) : (storage.redraw draws).Fits task.mapFile content =
        storage.Fits task.mapFile content := by
      rw [Storage.Fits, Storage.Fits, Storage.temporaryFault?_redraw]
    rw [contentOf?, contentOf?, hmapfile]
    simp only [hfits]
  rw [errandOf, errandOf, hcontent]

/-- A task can be performed whatever is drawn. -/
theorem IsReady.redraw (h : IsReady arguments storage task) :
    IsReady arguments (storage.redraw draws) task :=
  ⟨h.aimed, h.steady, h.project⟩

/-- What is told of a task whose temporary file cannot be made or written. -/
def temporaryFailure (storage : Storage) (task : Task) (fault : Storage.Fault) : Report :=
  .wrapping ("Failed to convert " ++ Text.quoted task.project.text)
    (.storage (.ofFile (storage.temporaryPath (Storage.directoryOf task.mapFile)
      (storage.draw task.mapFile)) fault))

/-- Making directories changes nothing of what is told of a temporary file. -/
theorem temporaryFailure_makeDirectories (storage : Storage) (path : Path) (task : Task)
    (fault : Storage.Fault) :
    temporaryFailure (storage.makeDirectories path).2 task fault =
      temporaryFailure storage task fault := by
  have hdraw : (storage.makeDirectories path).2.draw = storage.draw := by
    rw [← storage.redraw_makeDirectories path]
    rfl
  rw [temporaryFailure, temporaryFailure, Storage.temporaryPath, Storage.temporaryPath,
    (storage.makeDirectories_makes path).grows.here, hdraw]

/-- What a task on a single file comes to when other names are drawn: the same, or the same fault of
the temporary file, which is called otherwise. -/
theorem perform_redraw {name : Name} {place : Storage.Location}
    (haimed : task.IsAimed arguments.output [] name)
    (hleads : storage.LeadsTo arguments.output place) :
    (perform arguments (storage.redraw draws) task).1 = (perform arguments storage task).1 ∨
    ∃ fault, (perform arguments storage task).1 = .error (temporaryFailure storage task fault) ∧
      (perform arguments (storage.redraw draws) task).1 =
        .error (temporaryFailure (storage.redraw draws) task fault) := by
  have hparent := haimed.parent?_eq hleads.text_ne_empty
  have hfault : Storage.pathFault? (arguments.output.within []) = none := hleads.within_nil.pathFault?
  have hthere : storage.root.occupant? (place ++ []) = some .directory := by
    rw [List.append_nil]
    exact hleads.directory
  rw [perform_of_made hparent hleads.within_nil.makeDirectories,
    perform_of_made hparent (hleads.redraw draws).within_nil.makeDirectories]
  have hmapfile : (storage.redraw draws).mapfileOf (arguments.optionsFor task.project) task.project =
    storage.mapfileOf (arguments.optionsFor task.project) task.project := rfl
  rw [Storage.convert, Storage.convert, hmapfile]
  cases storage.mapfileOf (arguments.optionsFor task.project) task.project with
  | error error => exact .inl rfl
  | ok text =>
    have hreplaced := Storage.replaceFile_result hleads haimed.above hthere haimed.own haimed.parts
      hfault (Text.Utf8.encode text)
    have hreplaced' := Storage.replaceFile_result (hleads.redraw draws) haimed.above hthere haimed.own
      haimed.parts hfault (Text.Utf8.encode text)
    have hroot : (storage.redraw draws).root = storage.root := rfl
    rw [Storage.temporaryFault?_redraw, hroot] at hreplaced'
    dsimp only
    generalize storage.replaceFile task.mapFile (Text.Utf8.encode text) = result at hreplaced ⊢
    generalize (storage.redraw draws).replaceFile task.mapFile (Text.Utf8.encode text) = result'
      at hreplaced' ⊢
    obtain ⟨outcome, after⟩ := result
    obtain ⟨outcome', after'⟩ := result'
    obtain rfl : outcome = _ := hreplaced
    obtain rfl : outcome' = _ := hreplaced'
    cases storage.temporaryFault? task.mapFile (Text.Utf8.encode text) with
    | some fault => exact .inr ⟨fault, rfl, rfl⟩
    | none =>
      left
      simp only [Option.map_none, Option.none_or]
      generalize Option.or _ _ = told
      cases told <;> rfl

end Command

end Carta
