import Carta.Proofs.Reruns

/-!
# Inputs that are missing

A run makes the directory of its output, and all above it, before it looks for its input. So an input
that is not there can come to be there: when it is one of the directories that are made, or its way
leads through one of them. Which inputs these are is told by the two paths and what is there before
the run. Every other input that is missing is reported.
-/

namespace Carta.Storage

/-! ## The way along a path -/

/-- Where steps lead from a location when every name on the way is that of a directory. -/
def goalOf (location : Location) : List Step → Location
  | [] => location
  | .stay :: rest => goalOf location rest
  | .up :: rest => goalOf location.dropLast rest
  | .enter name :: rest => goalOf (location ++ [name]) rest

/-- The locations on the way along steps: where each beginning of them leads. -/
def wayOf (location : Location) (steps : List Step) : List Location :=
  steps.inits.map (goalOf location)

/-- The locations on the way along a path. The empty path has none. -/
def way (storage : Storage) (path : Path) : List Location :=
  if path.text.isEmpty then [] else wayOf (storage.start path) (stepsOf path)

/-- What is there when there is a directory at each location on the way along a path. -/
def withDirectories (storage : Storage) (path : Path) (location : Location) : Option Occupant :=
  if location ∈ storage.way path then some .directory else storage.root.occupant? location

/-- Whether a path leads somewhere when there is a directory at each location on the way along
another one. -/
def Uncovers (storage : Storage) (output input : Path) : Prop :=
  pathFault? input = none ∧ ∃ location,
    route (storage.withDirectories output) (storage.start input) (stepsOf input) = .ok location

section Way

variable {location goal : Location} {steps : List Step}

/-- Steps that follow others go on from where those end. -/
theorem goalOf_append (location : Location) (first second : List Step) :
    goalOf location (first ++ second) = goalOf (goalOf location first) second := by
  induction first generalizing location with
  | nil => rfl
  | cons step rest ih =>
    cases step with
    | stay => exact ih _
    | up => exact ih _
    | enter name => exact ih _

/-- A location is on the way when some of the first steps lead to it. -/
theorem mem_wayOf_iff :
    goal ∈ wayOf location steps ↔ ∃ before, before <+: steps ∧ goalOf location before = goal := by
  simp [wayOf]

/-- More steps have a longer way. -/
theorem wayOf_subset {more : List Step} (h : steps <+: more) :
    wayOf location steps ⊆ wayOf location more := by
  intro goal hgoal
  obtain ⟨before, hbefore, hlocation⟩ := mem_wayOf_iff.mp hgoal
  exact mem_wayOf_iff.mpr ⟨before, hbefore.trans h, hlocation⟩

/-- A route leads where its names say. -/
theorem eq_goalOf_of_route {occupant? : Location → Option Occupant}
    (h : route occupant? location steps = .ok goal) : goal = goalOf location steps := by
  induction steps generalizing location with
  | nil => exact (Except.ok.inj h).symm
  | cons step rest ih =>
    have hhere := occupant?_of_route_cons h
    cases step with
    | stay => exact ih ((if_pos hhere).symm.trans h)
    | up => exact ih ((if_pos hhere).symm.trans h)
    | enter name => exact ih (route_enter_eq_ok_iff.mp h).2.2.2

/-- The way along steps begins here and goes on from where the first step leads. -/
theorem wayOf_cons (location : Location) (step : Step) (rest : List Step) :
    wayOf location (step :: rest) = location :: wayOf (goalOf location [step]) rest := by
  rw [wayOf, List.inits_cons, List.map_cons, List.map_map, wayOf]
  congr 2
  funext more
  exact goalOf_append location [step] more

/-- A route depends on what is on its way alone. -/
theorem route_congr {occupant? occupant?' : Location → Option Occupant}
    (h : ∀ middle ∈ wayOf location steps, occupant? middle = occupant?' middle) :
    route occupant? location steps = route occupant?' location steps := by
  induction steps generalizing location with
  | nil => rfl
  | cons step rest ih =>
    rw [wayOf_cons, List.forall_mem_cons] at h
    obtain ⟨hhere, hrest⟩ := h
    cases step with
    | stay =>
      rw [goalOf, goalOf] at hrest
      rw [route_stay, route_stay, hhere, ih hrest]
    | up =>
      rw [goalOf, goalOf] at hrest
      rw [route_up, route_up, hhere, ih hrest]
    | enter name =>
      rw [goalOf, goalOf] at hrest
      have hname : occupant? (location ++ [name]) = occupant?' (location ++ [name]) :=
        hrest _ (mem_wayOf_iff.mpr ⟨[], List.nil_prefix, rfl⟩)
      rw [route_enter, route_enter, hhere, hname, ih hrest]

/-- The way of a route to a directory goes through directories. -/
theorem directory_of_mem_wayOf {occupant? : Location → Option Occupant}
    (hroute : route occupant? location steps = .ok goal) (hgoal : occupant? goal = some .directory)
    {middle : Location} (hmiddle : middle ∈ wayOf location steps) :
    occupant? middle = some .directory := by
  obtain ⟨before, ⟨more, rfl⟩, rfl⟩ := mem_wayOf_iff.mp hmiddle
  obtain ⟨middle, hbefore, hmore⟩ := route_append_eq_ok_iff.mp hroute
  rw [← eq_goalOf_of_route hbefore]
  cases more with
  | nil => exact Except.ok.inj hmore ▸ hgoal
  | cons step rest => exact occupant?_of_route_cons hmore

/-- A path that leads to a directory does so through directories. -/
theorem LeadsTo.directory_of_mem_way {storage : Storage} {path : Path}
    (h : storage.LeadsTo path location) (hgoal : goal ∈ storage.way path) :
    storage.root.occupant? goal = some .directory := by
  rw [way, if_neg (by simpa using h.text_ne_empty)] at hgoal
  exact directory_of_mem_wayOf (locate_eq_ok_iff.mp h.locate).2.2 h.directory hgoal

end Way

/-! ## What making directories changes -/

/-- Nothing is changed but at some locations. -/
structure KeepsOff (locations : List Location) (before after : Storage) : Prop where
  here : after.here = before.here
  occupant?_eq : ∀ location ∉ locations,
    after.root.occupant? location = before.root.occupant? location

namespace KeepsOff

variable {locations more : List Location} {before middle after : Storage}

/-- A storage that is left as it is is changed at no location. -/
theorem refl (locations : List Location) (storage : Storage) : KeepsOff locations storage storage :=
  ⟨rfl, fun _ _ => rfl⟩

/-- Two changes at some locations are one change at these locations. -/
theorem trans (hfirst : KeepsOff locations before middle)
    (hsecond : KeepsOff locations middle after) : KeepsOff locations before after where
  here := hsecond.here.trans hfirst.here
  occupant?_eq location hlocation :=
    (hsecond.occupant?_eq location hlocation).trans (hfirst.occupant?_eq location hlocation)

/-- What is changed at few locations only is changed at no more than a larger set of them. -/
theorem mono (h : KeepsOff locations before after) (hsubset : locations ⊆ more) :
    KeepsOff more before after where
  here := h.here
  occupant?_eq location hlocation := h.occupant?_eq location fun hmem => hlocation (hsubset hmem)

/-- Paths start where they did, for the working directory stays. -/
theorem start_eq (h : KeepsOff locations before after) (path : Path) :
    after.start path = before.start path := by
  rw [start, start, h.here]

end KeepsOff

/-- The steps along a path without the slashes at its end. -/
def stepsWithoutSlashes (path : Path) : List Step :=
  (withoutSlashes path.parts).map fun part => Step.ofText part.text

/-- The steps along a path without the slashes at its end are its first steps. -/
theorem stepsWithoutSlashes_isPrefix (path : Path) : stepsWithoutSlashes path <+: stepsOf path :=
  (withoutSlashes_isPrefix path.parts).map _

section Made

variable {storage after : Storage} {path : Path}

/-- A place is at the end of the way along its path. -/
theorem mem_wayOf_of_place {directory : Location} {name : Name} {slash : Bool}
    (h : storage.place path = .ok ⟨directory, some name, slash⟩) :
    directory ++ [name] ∈ wayOf (storage.start path) (stepsWithoutSlashes path) := by
  obtain ⟨-, hwalk, -, hlast, -, -⟩ := place_eq_ok_iff.mp h
  obtain ⟨part, hpart, hstep⟩ := Option.map_eq_some_iff.mp hlast
  have hsteps : stepsWithoutSlashes path = stepsToPlace path ++ [.enter name] := by
    rw [stepsWithoutSlashes, ← List.dropLast_append_getLast? part hpart, List.map_append, ← hstep]
    simp [stepsToPlace]
  have hgoal := eq_goalOf_of_route (walk_eq_ok_iff.mp hwalk).2
  refine mem_wayOf_iff.mpr ⟨_, List.prefix_rfl, ?_⟩
  rw [hsteps, goalOf_append, stepsToPlace, ← hgoal]
  rfl

/-- Making a directory changes nothing off its way. -/
theorem makeDirectory_keepsOff (h : storage.makeDirectory path = .ok after) :
    KeepsOff (wayOf (storage.start path) (stepsWithoutSlashes path)) storage after := by
  obtain ⟨directory, name, slash, hplace, hnone, rfl⟩ := makeDirectory_eq_ok h
  refine ⟨rfl, fun location hlocation => ?_⟩
  rw [occupant?_of_makeDirectory hplace hnone, Function.update_of_ne]
  rintro rfl
  exact hlocation (mem_wayOf_of_place hplace)

/-- Making a directory, and before it those above, changes nothing off its way and theirs. -/
theorem makeDirectoriesOf_cons_keepsOff {above : List Path} {locations : List Location}
    (hown : wayOf (storage.start path) (stepsWithoutSlashes path) ⊆ locations)
    (habove : KeepsOff locations storage (storage.makeDirectoriesOf above).2) :
    KeepsOff locations storage (storage.makeDirectoriesOf (path :: above)).2 := by
  rw [makeDirectoriesOf]
  split
  next => exact .refl _ _
  next =>
    split
    next made hmade => exact (makeDirectory_keepsOff hmade).mono hown
    next =>
      split
      next fault middle heq => rwa [heq] at habove
      next middle heq =>
        rw [heq] at habove
        split
        next made hmade =>
          have hmore := makeDirectory_keepsOff hmade
          rw [habove.start_eq] at hmore
          exact habove.trans (hmore.mono hown)
        next => split <;> exact habove
    next => split <;> exact .refl _ _

variable {first : Name} {rest : List Name}

/-- The steps of a path that ends where its parts last say something are steps along these. -/
theorem stepsWithoutSlashes_ending_isPrefix (hslash : ∀ text ∈ first :: rest, Name.slash ∉ text) :
    stepsWithoutSlashes (Path.ending first rest) <+: stepsAlong first rest := by
  refine List.IsPrefix.map _ ?_
  refine List.IsPrefix.trans ?_ (Path.withoutSilent_isPrefix (Path.beginning first rest))
  rcases Path.parts_ending hslash with hparts | hparts
  · rw [hparts]
    exact withoutSlashes_isPrefix _
  · have hslashes : withoutSlashes (Path.ending first rest).parts =
        withoutSlashes (Path.withoutSilent (Path.beginning first rest)) := by
      rw [hparts, withoutSlashes, List.reverse_append, List.reverse_singleton,
        List.singleton_append, List.dropWhile_cons_of_pos rfl]
      rfl
    rw [hslashes]
    exact withoutSlashes_isPrefix _

/-- The way along a path that ends with parts is on the way along these. -/
theorem wayOf_ending_subset (storage : Storage)
    (hslash : ∀ text ∈ first :: rest, Name.slash ∉ text) :
    wayOf (storage.start (Path.ending first rest)) (stepsWithoutSlashes (Path.ending first rest)) ⊆
      wayOf (storage.startOf first) (stepsAlong first rest) := by
  rw [start_eq_startOf (Path.ending_text_ne_empty hslash)
    (by rw [Path.head?_parts_ending hslash]; rfl)]
  exact wayOf_subset (stepsWithoutSlashes_ending_isPrefix hslash)

/-- Making the directories that parts lead to changes nothing off their way. -/
theorem makeDirectories_ending_keepsOff (storage : Storage)
    (hslash : ∀ text ∈ first :: rest, Name.slash ∉ text) :
    KeepsOff (wayOf (storage.startOf first) (stepsAlong first rest)) storage
      (storage.makeDirectories (Path.ending first rest)).2 := by
  -- The paths above end with the parts before the last one that says something.
  induction rest using List.reverseRecOn with
  | nil =>
    rw [makeDirectories, Path.parents_ending hslash]
    refine makeDirectoriesOf_cons_keepsOff (wayOf_ending_subset storage hslash) ?_
    rw [makeDirectoriesOf_single]
    exact .refl _ _
  | append_singleton rest last ih =>
    have hslash' := Path.noSlash_beginning hslash
    have hsubset : wayOf (storage.startOf first) (stepsAlong first rest) ⊆
        wayOf (storage.startOf first) (stepsAlong first (rest ++ [last])) := by
      rw [stepsAlong_concat]
      exact wayOf_subset (List.prefix_append _ _)
    by_cases hlast : laterComponent last = none
    · rw [Path.ending_concat_silent hlast]
      exact (ih hslash').mono hsubset
    · have hparents := (Path.parents_ending hslash).trans (Path.parentsOf_concat hlast hslash')
      rw [makeDirectories, hparents]
      exact makeDirectoriesOf_cons_keepsOff (wayOf_ending_subset storage hslash)
        ((ih hslash').mono hsubset)

/-- Making a directory and those above it changes nothing off the way along its path. -/
theorem makeDirectories_keepsOff (storage : Storage) (path : Path) :
    KeepsOff (storage.way path) storage (storage.makeDirectories path).2 := by
  by_cases hempty : path.text.isEmpty = true
  · rw [makeDirectories, makeDirectoriesOf, if_pos hempty]
    exact .refl _ _
  · have hpath : path.text ≠ [] := by simpa using hempty
    rw [way, if_neg hempty, makeDirectories]
    refine makeDirectoriesOf_cons_keepsOff (wayOf_subset (stepsWithoutSlashes_isPrefix path)) ?_
    rcases parents_cases hpath with hnone | ⟨first, rest, hparents, hslash, hhead, hpre⟩
    · rw [hnone]
      exact .refl _ _
    · rw [hparents, start_eq_startOf hpath hhead]
      refine (makeDirectories_ending_keepsOff storage hslash).mono (wayOf_subset (hpre.trans ?_))
      exact ((List.dropLast_prefix _).map _).trans (stepsWithoutSlashes_isPrefix path)

/-- Where a directory and those above it are made, there is then a directory at each location on the
way along its path, and the rest is as it was. -/
theorem occupant?_of_makeDirectories (h : storage.makeDirectories path = (.ok (), after)) :
    after.here = storage.here ∧ after.root.occupant? = storage.withDirectories path := by
  have hkeeps := storage.makeDirectories_keepsOff path
  have hmakes := storage.makeDirectories_makes path
  rw [h] at hkeeps hmakes
  refine ⟨hkeeps.here, ?_⟩
  funext location
  rw [withDirectories]
  split
  next hway =>
    by_cases hempty : path.text.isEmpty = true
    · rw [way, if_pos hempty] at hway
      exact nomatch hway
    · obtain ⟨goal, hleads⟩ := hmakes.leadsTo rfl (by simpa using hempty)
      refine hleads.directory_of_mem_way ?_
      rwa [way, hkeeps.start_eq]
  next hway => exact hkeeps.occupant?_eq location hway

/-- A directory that was made is there when it is to be made again. -/
theorem makeDirectories_made (h : storage.makeDirectories path = (.ok (), after)) :
    after.makeDirectories path = (.ok (), after) := by
  by_cases hempty : path.text.isEmpty = true
  · rw [makeDirectories, makeDirectoriesOf, if_pos hempty]
  · have hmakes := storage.makeDirectories_makes path
    rw [h] at hmakes
    obtain ⟨goal, hleads⟩ := hmakes.leadsTo rfl (by simpa using hempty)
    exact hleads.makeDirectories

/-! ## Paths that lead somewhere then -/

/-- There is something where a route leads that begins somewhere. -/
theorem occupant?_of_route {tree : Node} {location goal : Location} {steps : List Step}
    (hstart : tree.occupant? location ≠ none)
    (hroute : route tree.occupant? location steps = .ok goal) : tree.occupant? goal ≠ none := by
  induction steps generalizing location with
  | nil => exact Except.ok.inj hroute ▸ hstart
  | cons step rest ih =>
    have hhere := occupant?_of_route_cons hroute
    cases step with
    | stay => exact ih hstart ((if_pos hhere).symm.trans hroute)
    | up =>
      have habove := directory_above hhere (List.dropLast_prefix location)
      exact ih (by simp [habove]) ((if_pos hhere).symm.trans hroute)
    | enter name =>
      obtain ⟨-, -, hname, hrest⟩ := route_enter_eq_ok_iff.mp hroute
      exact ih hname hrest

/-- A path leads to a file or a directory when it leads somewhere. -/
theorem isFile_or_isDirectory_iff :
    (storage.isFile path || storage.isDirectory path) = true ↔
      ∃ location, storage.locate path = .ok location := by
  rw [Bool.or_eq_true, Command.isFile_eq_true_iff, isDirectory_eq_true_iff]
  constructor
  · rintro (⟨location, _, hlocate, -⟩ | ⟨location, hleads⟩)
    · exact ⟨location, hlocate⟩
    · exact ⟨location, hleads.locate⟩
  · rintro ⟨location, hlocate⟩
    obtain ⟨-, hstart, hroute⟩ := locate_eq_ok_iff.mp hlocate
    cases hthere : storage.root.occupant? location with
    | none => exact absurd hthere (occupant?_of_route hstart hroute)
    | some occupant =>
      cases occupant with
      | file content => exact .inl ⟨location, content, hlocate, hthere⟩
      | directory => exact .inr ⟨location, hlocate, hthere⟩

/-- Every path has a step, so a route along one begins somewhere. -/
theorem occupant?_of_route_stepsOf {occupant? : Location → Option Occupant} {start goal : Location}
    (hroute : route occupant? start (stepsOf path) = .ok goal) : occupant? start ≠ none := by
  cases hsteps : stepsOf path with
  | nil =>
    have htexts := path.map_text_parts
    rw [List.map_eq_nil_iff.mp hsteps] at htexts
    exact absurd htexts.symm path.texts_ne_nil
  | cons step rest =>
    rw [hsteps] at hroute
    simp [occupant?_of_route_cons hroute]

/-- Making directories uncovers the paths that lead somewhere then. -/
theorem uncovers_iff {input : Path} (h : storage.makeDirectories path = (.ok (), after)) :
    storage.Uncovers path input ↔ ∃ location, after.locate input = .ok location := by
  obtain ⟨hhere, hoccupant⟩ := occupant?_of_makeDirectories h
  have hstart : after.start input = storage.start input := by rw [start, start, hhere]
  simp only [Uncovers, locate_eq_ok_iff, hstart, hoccupant]
  constructor
  · rintro ⟨hfault, location, hroute⟩
    exact ⟨location, hfault, occupant?_of_route_stepsOf hroute, hroute⟩
  · rintro ⟨location, hfault, -, hroute⟩
    exact ⟨hfault, location, hroute⟩

/-- What was there on the way along the path of a directory that is made is a directory. -/
theorem directory_of_made (h : storage.makeDirectories path = (.ok (), after)) {location : Location}
    (hway : location ∈ storage.way path) (hthere : storage.root.occupant? location ≠ none) :
    storage.root.occupant? location = some .directory := by
  have hgrows := (storage.makeDirectories_makes path).grows
  have hdirectory : after.root.occupant? location = some .directory := by
    rw [(occupant?_of_makeDirectories h).2, withDirectories, if_pos hway]
  rw [h] at hgrows
  cases hoccupant : storage.root.occupant? location with
  | none => exact absurd hoccupant hthere
  | some occupant =>
    cases occupant with
    | file content =>
      have hfile := (hgrows.files location (Set.notMem_empty _) content).mp hoccupant
      exact nomatch hdirectory.symm.trans hfile
    | directory => rfl

/-- The way to a path that is uncovered goes through a directory that was not there. -/
theorem Uncovers.exists_new {input : Path} (huncovers : storage.Uncovers path input)
    (h : storage.makeDirectories path = (.ok (), after))
    (hmissing : ∀ location, storage.locate input ≠ .ok location) :
    ∃ location ∈ storage.way input, location ∈ storage.way path ∧
      storage.root.occupant? location = none := by
  obtain ⟨hfault, location, hroute⟩ := huncovers
  have hway : storage.way input = wayOf (storage.start input) (stepsOf input) := by
    rw [way, if_neg (by simpa using text_ne_empty_of_pathFault? hfault)]
  by_contra hnone
  -- Otherwise the directories on the way are those that were there.
  have hsame : ∀ middle ∈ wayOf (storage.start input) (stepsOf input),
      storage.withDirectories path middle = storage.root.occupant? middle := by
    intro middle hmiddle
    rw [withDirectories]
    split
    next hmade =>
      refine (directory_of_made h hmade fun hnew => ?_).symm
      exact hnone ⟨middle, hway ▸ hmiddle, hmade, hnew⟩
    next => rfl
  rw [route_congr hsame] at hroute
  exact hmissing location
    (locate_eq_ok_iff.mpr ⟨hfault, occupant?_of_route_stepsOf hroute, hroute⟩)

/-- Making a directory uncovers every path that its path goes on from. -/
theorem uncovers_of_isPrefix {input : Path} (h : storage.makeDirectories path = (.ok (), after))
    (hpath : path.text ≠ []) (hfault : pathFault? input = none)
    (hstart : storage.start input = storage.start path) (hsteps : stepsOf input <+: stepsOf path) :
    storage.Uncovers path input := by
  obtain ⟨hhere, hoccupant⟩ := occupant?_of_makeDirectories h
  have hmakes := storage.makeDirectories_makes path
  rw [h] at hmakes
  obtain ⟨goal, hleads⟩ := hmakes.leadsTo rfl hpath
  obtain ⟨-, -, hroute⟩ := locate_eq_ok_iff.mp hleads.locate
  have hsame : after.start path = storage.start path := by rw [start, start, hhere]
  obtain ⟨more, hmore⟩ := hsteps
  rw [← hmore, hsame, ← hstart, hoccupant, route_append_eq_ok_iff] at hroute
  obtain ⟨location, hlocation, -⟩ := hroute
  exact ⟨hfault, location, hlocation⟩

end Made

end Carta.Storage

namespace Carta.Command

open Storage (Location)

/-- What is told about an input that is neither a file nor a directory. -/
def inputFailure : Report where
  message := "Input path must be a file or directory"

section MissingInput

variable {schedule : Schedule} {arguments : Arguments} {storage made : Storage}

/-- Where the directory of the output cannot be made, that is told, whatever the input is. -/
theorem runArguments_of_no_output {fault : Storage.Fault}
    (h : storage.makeDirectories arguments.output = (.error fault, made)) :
    runArguments schedule arguments storage =
      (.error (outputFailure arguments.output fault), made) := by
  rw [runArguments, h]
  rfl

/-- An input that does not lead anywhere when the directory of the output is there is reported. -/
theorem runArguments_of_no_input (h : storage.makeDirectories arguments.output = (.ok (), made))
    (hinput : (made.isFile arguments.input || made.isDirectory arguments.input) = false) :
    runArguments schedule arguments storage = (.error inputFailure, made) := by
  rw [Bool.or_eq_false_iff] at hinput
  rw [runArguments, h]
  simp only [hinput.1, hinput.2, Bool.false_eq_true, if_false]
  rfl

/-- A run is that where the directory of the output is there already. -/
theorem runArguments_of_made (h : storage.makeDirectories arguments.output = (.ok (), made)) :
    runArguments schedule arguments storage = runArguments schedule arguments made := by
  rw [runArguments, runArguments, h, Storage.makeDirectories_made h]

end MissingInput

/-- **An input that is missing is reported, unless making the directory of the output uncovers it.** A
run whose input is neither a file nor a directory ends with exit code 1, and tells that the directory
of the output cannot be made, or that the input is missing, in all cases but one: the directory is
made, and the input leads somewhere when there are directories on the way along the output. Its way
goes then through one of these that was not there before; and the run is that which finds them there
already, where the input is a file or a directory. -/
theorem runOn_missing_input (schedule : Schedule) {words : List Name} {storage : Storage}
    {arguments : Arguments} (hwords : Arguments.ofWords words = .ok arguments)
    (hfile : storage.isFile arguments.input = false)
    (hdirectory : storage.isDirectory arguments.input = false) :
    ∃ result made, storage.makeDirectories arguments.output = (result, made) ∧
      (∀ fault, result = .error fault → runOn schedule words storage =
        (.failure (outputFailure arguments.output fault), made)) ∧
      (result = .ok () → ¬ storage.Uncovers arguments.output arguments.input →
        runOn schedule words storage = (.failure inputFailure, made)) ∧
      (result = .ok () → storage.Uncovers arguments.output arguments.input →
        (∃ location ∈ storage.way arguments.input, location ∈ storage.way arguments.output ∧
          storage.root.occupant? location = none) ∧
        (made.isFile arguments.input || made.isDirectory arguments.input) = true ∧
        runOn schedule words storage = runOn schedule words made) := by
  have hmissing : ∀ location, storage.locate arguments.input ≠ .ok location := by
    intro location hlocate
    have hthere := Storage.isFile_or_isDirectory_iff.mpr ⟨location, hlocate⟩
    simp [hfile, hdirectory] at hthere
  rcases hmade : storage.makeDirectories arguments.output with ⟨result, made⟩
  refine ⟨result, made, rfl, ?_, ?_, ?_⟩
  · rintro fault rfl
    simp only [runOn, hwords, runArguments_of_no_output hmade]
  · rintro rfl hcovered
    rw [Storage.uncovers_iff hmade, ← Storage.isFile_or_isDirectory_iff, Bool.not_eq_true] at hcovered
    simp only [runOn, hwords, runArguments_of_no_input hmade hcovered]
  · rintro rfl huncovers
    refine ⟨huncovers.exists_new hmade hmissing, ?_, ?_⟩
    · exact Storage.isFile_or_isDirectory_iff.mpr ((Storage.uncovers_iff hmade).mp huncovers)
    · simp only [runOn, hwords, runArguments_of_made hmade]

/-- What arguments come to that name an input and an output. -/
def plainArguments (input output : String) : Arguments :=
  { fieldsArguments with input := ⟨input⟩, output := ⟨output⟩ }

/-- An empty tree in which directories were made, each in the one before. -/
def madeStorage (names : List Name) : Storage where
  root := names.foldr (fun name node => .directory [(name, node)]) (.directory [])

/-- In an empty directory, a missing input is reported when the output is beside it, and is a
directory when the output is below it. -/
theorem emptyStorage_missing_input :
    (madeStorage ["gone", "out"]).isDirectory ⟨"gone"⟩ = true ∧ ∀ schedule,
    runOn schedule ["gone", "-o", "out"] (madeStorage []) =
      (.failure inputFailure, madeStorage ["out"]) ∧
    runOn schedule ["gone", "-o", "gone/out"] (madeStorage []) =
      runOn schedule ["gone", "-o", "gone/out"] (madeStorage ["gone", "out"]) := by
  have hfile : (madeStorage []).isFile ⟨"gone"⟩ = false := by decide +kernel
  have hdirectory : (madeStorage []).isDirectory ⟨"gone"⟩ = false := by decide +kernel
  refine ⟨by decide +kernel, fun schedule => ⟨?_, ?_⟩⟩
  · have hmade : (madeStorage []).makeDirectories ⟨"out"⟩ = (.ok (), madeStorage ["out"]) := by
      with_unfolding_all rfl
    have hwords : Arguments.ofWords ["gone", "-o", "out"] = .ok (plainArguments "gone" "out") := rfl
    obtain ⟨result, made, hresult, -, hmissing, -⟩ :=
      runOn_missing_input schedule hwords hfile hdirectory
    obtain ⟨rfl, rfl⟩ := Prod.mk.inj (hresult.symm.trans hmade)
    refine hmissing rfl fun huncovers => ?_
    have hthere := Storage.isFile_or_isDirectory_iff.mpr ((Storage.uncovers_iff hmade).mp huncovers)
    exact absurd hthere (by decide +kernel)
  · have hmade : (madeStorage []).makeDirectories ⟨"gone/out"⟩ =
        (.ok (), madeStorage ["gone", "out"]) := by with_unfolding_all rfl
    have hwords : Arguments.ofWords ["gone", "-o", "gone/out"] =
        .ok (plainArguments "gone" "gone/out") := rfl
    obtain ⟨result, made, hresult, -, -, huncovered⟩ :=
      runOn_missing_input schedule hwords hfile hdirectory
    obtain ⟨rfl, rfl⟩ := Prod.mk.inj (hresult.symm.trans hmade)
    have hthere : ((madeStorage ["gone", "out"]).isFile ⟨"gone"⟩ ||
      (madeStorage ["gone", "out"]).isDirectory ⟨"gone"⟩) = true := by decide +kernel
    exact (huncovered rfl ((Storage.uncovers_iff hmade).mpr
      (Storage.isFile_or_isDirectory_iff.mp hthere))).2.2

/-- A run on a missing input that the output is below succeeds. -/
theorem missing_input_not_reported :
    (madeStorage []).isFile ⟨"gone"⟩ = false ∧ (madeStorage []).isDirectory ⟨"gone"⟩ = false ∧
    (run ["gone", "-o", "gone/out"] (madeStorage [])).1 = .success ∧
    ¬ ∀ (words : List Name) (storage : Storage) (arguments : Arguments),
      Arguments.ofWords words = .ok arguments → storage.isFile arguments.input = false →
      storage.isDirectory arguments.input = false → (run words storage).1.exitCode = 1 := by
  have hfile : (madeStorage []).isFile ⟨"gone"⟩ = false := by decide +kernel
  have hdirectory : (madeStorage []).isDirectory ⟨"gone"⟩ = false := by decide +kernel
  have hrun : (run ["gone", "-o", "gone/out"] (madeStorage [])).1 = .success := by decide +kernel
  refine ⟨hfile, hdirectory, hrun, fun h => ?_⟩
  have hcode := h ["gone", "-o", "gone/out"] (madeStorage []) (plainArguments "gone" "gone/out") rfl
    hfile hdirectory
  rw [hrun] at hcode
  exact absurd hcode (by decide)

end Carta.Command
