import Carta.Proofs.Growth

/-!
# Directories that are made again

Making a directory and those above it can fail half-way, when some of them are there already. Made
again, they fail again, and nothing more changes. Only what is told about it can be another fault,
when two dots are in the path: the first time, a file is found where a directory was to be made, and
the second time, when the way to that file has been made, it is found on the way to the last of the
directories.
-/

namespace Carta

/-- A part after the first slash is never the root. -/
theorem laterComponent_ne_root (text : Name) : laterComponent text ≠ some .root := by
  unfold laterComponent
  split <;> simp

namespace Path

section Beginning

variable {first : Name} {rest : List Name}

/-- One more text is one more part at the end of a beginning. -/
theorem beginning_concat (first : Name) (rest : List Name) (last : Name) :
    beginning first (rest ++ [last]) = beginning first rest ++ [.later last] := by
  simp [beginning]

/-- A path that is not empty begins somehow. -/
theorem exists_front_eq_beginning {path : Path} (h : path.text ≠ []) : ∃ first rest,
    path.front = beginning first rest ∧ ∀ text ∈ first :: rest, Name.slash ∉ text := by
  have hnone : ∀ name ∈ ([] : List Name), IsEntryName name := nofun
  obtain ⟨first, rest, hparts, -, hslash⟩ := exists_front_append_eq h hnone
  exact ⟨first, rest, by simpa [beginning] using hparts, hslash⟩

/-- What says nothing at the end does not count. -/
theorem ending_concat_silent {last : Name} (h : laterComponent last = none) :
    ending first (rest ++ [last]) = ending first rest := by
  rw [ending, ending, beginning_concat, withoutSilent, List.reverse_append, List.reverse_singleton,
    List.singleton_append, dropSilent, List.dropWhile_cons_of_pos (by simp [PathPart.later, h])]
  rfl

/-- Texts without slashes are so at the beginning. -/
theorem noSlash_beginning {more : List Name}
    (hslash : ∀ text ∈ first :: (rest ++ more), Name.slash ∉ text) :
    ∀ text ∈ first :: rest, Name.slash ∉ text := fun text htext =>
  hslash text (List.cons_subset_cons first (List.subset_append_left rest more) htext)

/-- Above a path whose last part says something is what the parts before it make up. -/
theorem parentsOf_concat {last : Name} (hlast : laterComponent last ≠ none)
    (hslash : ∀ text ∈ first :: rest, Name.slash ∉ text) :
    parentsOf (beginning first (rest ++ [last])).reverse =
      ending first rest :: (ending first rest).parents := by
  obtain ⟨component, hcomponent⟩ := Option.ne_none_iff_exists'.mp hlast
  have hroot : component ≠ .root := fun h => laterComponent_ne_root last (h ▸ hcomponent)
  rw [parents_ending hslash, beginning_concat, List.reverse_append, List.reverse_singleton,
    List.singleton_append, parentsOf]
  simp only [PathPart.later, hcomponent]
  cases component with
  | root => exact absurd rfl hroot
  | current => rfl
  | parent => rfl
  | name name => rfl

/-- Parts that say nothing have nothing to do with what is above. -/
theorem parentsOf_append_silent {silent : List Name}
    (hsilent : ∀ text ∈ silent, laterComponent text = none) :
    parentsOf (beginning first (rest ++ silent)).reverse =
      parentsOf (beginning first rest).reverse := by
  have hparts : (beginning first (rest ++ silent)).reverse =
      (silent.map .later).reverse ++ (beginning first rest).reverse := by
    simp [beginning]
  have hquiet : ∀ part ∈ (silent.map PathPart.later).reverse, part.component = none := by
    intro part hpart
    obtain ⟨text, htext, rfl⟩ := List.mem_map.mp (List.mem_reverse.mp hpart)
    exact hsilent text htext
  rw [hparts, ← parentsOf_dropSilent, dropSilent_append hquiet, parentsOf_dropSilent]

/-- A last part that says something is the last part of the path that ends with it. -/
theorem parts_ending_concat {last : Name} (hlast : laterComponent last ≠ none)
    (hslash : ∀ text ∈ first :: (rest ++ [last]), Name.slash ∉ text) :
    (ending first (rest ++ [last])).parts = beginning first (rest ++ [last]) := by
  rw [ending, beginning_concat, withoutSilent_append_later _ hlast, ← beginning_concat, beginning]
  exact parts_ofParts (by simp) hslash

/-- What is dropped at the end of the parts says nothing. -/
theorem exists_beginning_silent (first : Name) (rest : List Name) : ∃ kept silent,
    rest = kept ++ silent ∧ withoutSilent (beginning first rest) = beginning first kept ∧
      ∀ text ∈ silent, laterComponent text = none := by
  obtain ⟨kept, ⟨silent, rfl⟩, hkept⟩ := exists_withoutSilent_eq first rest
  obtain ⟨parts, hparts, hsilent⟩ := exists_silent (beginning first (kept ++ silent))
  rw [beginning, hkept, List.map_append, ← List.cons_append, List.append_cancel_left_eq] at hparts
  refine ⟨kept, silent, rfl, hkept, fun text htext => ?_⟩
  exact hsilent (.later text) (hparts ▸ List.mem_map_of_mem htext)

/-- Texts say something up to one of them, or none of them does. -/
theorem exists_last_component (texts : List Name) :
    (∀ text ∈ texts, laterComponent text = none) ∨ ∃ before last silent,
      texts = before ++ last :: silent ∧ laterComponent last ≠ none ∧
        ∀ text ∈ silent, laterComponent text = none := by
  induction texts using List.reverseRecOn with
  | nil => exact .inl nofun
  | append_singleton texts text ih =>
    by_cases htext : laterComponent text = none
    · rcases ih with hnone | ⟨before, last, silent, rfl, hlast, hsilent⟩
      · exact .inl (List.forall_mem_append.mpr ⟨hnone, List.forall_mem_singleton.mpr htext⟩)
      · refine .inr ⟨before, last, silent ++ [text], by simp, hlast, ?_⟩
        exact List.forall_mem_append.mpr ⟨hsilent, List.forall_mem_singleton.mpr htext⟩
    · exact .inr ⟨texts, text, [], rfl, htext, nofun⟩

end Beginning

end Path

namespace Storage

/-! ## Ways that stay closed -/

/-- A way that a directory cannot be made on: a name on it is too long, or there is a file on it that
was not found before two dots had been passed. -/
inductive Closed (occupant? : Location → Option Occupant) (location : Location)
    (steps : List Step) : Fault → Prop
  | tooLong {before : List Step} (hbefore : before <+: steps)
    (hroute : route occupant? location before = .error .nameTooLong) :
    Closed occupant? location steps .nameTooLong
  | file {before : List Step} {goal : Location} {content : List UInt8} (hbefore : before <+: steps)
    (hup : .up ∈ before) (hroute : route occupant? location before = .ok goal)
    (hfile : occupant? goal = some (.file content)) :
    Closed occupant? location steps .alreadyExists

namespace Closed

variable {occupant? : Location → Option Occupant} {location : Location} {steps : List Step}
  {fault : Fault}

/-- A way that is closed stays so however it goes on. -/
theorem append (h : Closed occupant? location steps fault) (more : List Step) :
    Closed occupant? location (steps ++ more) fault := by
  cases h with
  | tooLong hbefore hroute => exact .tooLong (hbefore.trans (List.prefix_append _ _)) hroute
  | file hbefore hup hroute hfile =>
    exact .file (hbefore.trans (List.prefix_append _ _)) hup hroute hfile

/-- A closed way goes out from a directory. -/
theorem start_directory (h : Closed occupant? location steps fault) :
    occupant? location = some .directory := by
  cases h with
  | @tooLong before hbefore hroute =>
    cases before with
    | nil => cases hroute
    | cons step rest =>
      by_contra hno
      rw [route_of_not_directory hno] at hroute
      cases hroute
  | @file before goal content hbefore hup hroute hfile =>
    obtain ⟨step, rest, rfl⟩ := List.exists_cons_of_ne_nil (List.ne_nil_of_mem hup)
    exact occupant?_of_route_cons hroute

/-- What is told about a closed way: the fault that closed it, or that a file is on it. -/
def Told (steps : List Step) (fault told : Fault) : Prop :=
  told = fault ∧ fault = .nameTooLong ∨
    told = .notADirectory ∧ fault = .alreadyExists ∧ .up ∈ steps

/-- A closed way leads to no directory. -/
theorem exists_told (h : Closed occupant? location steps fault) :
    ∃ told, Told steps fault told ∧ (route occupant? location steps = .error told ∨
      told = .notADirectory ∧ ∃ goal content, route occupant? location steps = .ok goal ∧
        occupant? goal = some (.file content)) := by
  cases h with
  | @tooLong before hbefore hroute =>
    obtain ⟨more, rfl⟩ := hbefore
    refine ⟨.nameTooLong, .inl ⟨rfl, rfl⟩, .inl ?_⟩
    rw [route_append, hroute]
    rfl
  | @file before goal content hbefore hup hroute hfile =>
    obtain ⟨more, rfl⟩ := hbefore
    refine ⟨.notADirectory, .inr ⟨rfl, rfl, List.mem_append_left _ hup⟩, ?_⟩
    rw [route_append, hroute]
    cases more with
    | nil => exact .inr ⟨rfl, goal, content, rfl, hfile⟩
    | cons step rest =>
      have hno : occupant? goal ≠ some .directory := by simp [hfile]
      exact .inl (route_of_not_directory hno step rest)

end Closed

/-- What is above a directory is a directory. -/
theorem directory_above {tree : Node} {location before : Location}
    (h : tree.occupant? location = some .directory) (hbefore : before <+: location) :
    tree.occupant? before = some .directory := by
  have htop : tree.occupant? ([] ++ location) = some .directory := h
  exact directory_of_isPrefix htop hbefore

/-- Steps without two dots stay below where they begin, so they can be taken in every tree that has
the directories down to where they lead. -/
theorem route_of_not_mem_up {occupant? occupant?' : Location → Option Occupant}
    {location goal : Location} {steps : List Step} (hup : .up ∉ steps)
    (h : route occupant? location steps = .ok goal)
    (hdirectories : ∀ before, before <+: goal → occupant?' before = some .directory) :
    location <+: goal ∧ route occupant?' location steps = .ok goal := by
  induction steps generalizing location with
  | nil =>
    obtain rfl := Except.ok.inj h
    exact ⟨List.prefix_rfl, rfl⟩
  | cons step rest ih =>
    rw [List.mem_cons, not_or] at hup
    have hhere := occupant?_of_route_cons h
    cases step with
    | stay =>
      rw [route_stay, if_pos hhere] at h
      obtain ⟨hpre, hrest⟩ := ih hup.2 h
      exact ⟨hpre, by rw [route_stay, if_pos (hdirectories _ hpre), hrest]⟩
    | up => exact absurd rfl hup.1
    | enter name =>
      obtain ⟨-, hsize, -, hrest⟩ := route_enter_eq_ok_iff.mp h
      obtain ⟨hpre, hrest⟩ := ih hup.2 hrest
      have hshorter := (List.prefix_append location [name]).trans hpre
      refine ⟨hshorter, route_enter_eq_ok_iff.mpr ⟨hdirectories _ hshorter, hsize, ?_, hrest⟩⟩
      rw [hdirectories _ hpre]
      exact Option.some_ne_none _

/-! ## Places -/

section Place

variable {storage : Storage} {path : Path}

/-- The steps to the directory of a place. -/
def stepsToPlace (path : Path) : List Step :=
  (withoutSlashes path.parts).dropLast.map fun part => Step.ofText part.text

/-- A path that is not empty is never unfit for being looked up because nothing is there. -/
theorem pathFault?_ne_notFound (hpath : path.text ≠ []) : Storage.pathFault? path ≠ some .notFound := by
  rw [Storage.pathFault?, if_neg (c := path.text.isEmpty = true) (by simpa using hpath)]
  split
  next => simp
  next => split <;> simp

/-- A path that is not found has no fault of its own. -/
theorem pathFault?_of_makeDirectory (hpath : path.text ≠ [])
    (h : storage.makeDirectory path = .error .notFound) : Storage.pathFault? path = none := by
  cases hfault : Storage.pathFault? path with
  | none => rfl
  | some fault =>
    have hmake : storage.makeDirectory path = .error fault := by rw [makeDirectory, place, hfault]
    obtain rfl := Except.error.inj (hmake.symm.trans h)
    exact absurd hfault (pathFault?_ne_notFound hpath)

variable (hfault : Storage.pathFault? path = none)
  (hstart : storage.root.occupant? (storage.start path) ≠ none)

include hfault hstart

/-- Nothing is made where the way does not lead to a directory. -/
theorem makeDirectory_of_closed {told : Fault}
    (h : route storage.root.occupant? (storage.start path) (stepsToPlace path) = .error told ∨
      told = .notADirectory ∧ ∃ goal content,
        route storage.root.occupant? (storage.start path) (stepsToPlace path) = .ok goal ∧
        storage.root.occupant? goal = some (.file content)) :
    storage.makeDirectory path = .error told := by
  have hwalk := walk_eq_route hstart (stepsToPlace path)
  rw [stepsToPlace] at hwalk h
  rcases h with h | ⟨rfl, goal, content, h, hfile⟩
  · rw [makeDirectory, place, hfault]
    dsimp only
    rw [hwalk, h]
  · rw [makeDirectory, place, hfault]
    dsimp only
    rw [hwalk, h]
    dsimp only
    rw [Node.occupant?_eq_file_iff.mp hfile]

/-- Where the way leads to a directory, it depends on the last step what is made. -/
theorem makeDirectory_of_route {goal : Location}
    (h : route storage.root.occupant? (storage.start path) (stepsToPlace path) = .ok goal)
    (hgoal : storage.root.occupant? goal = some .directory) :
    storage.makeDirectory path =
      match (withoutSlashes path.parts).getLast?.map fun part => Step.ofText part.text with
      | some (.enter name) =>
        if maxNameSize < name.length then .error .nameTooLong
        else if (storage.root.occupant? (goal ++ [name])).isSome then .error .alreadyExists
        else .ok (storage.set (goal ++ [name]) (.directory []))
      | _ => .error .alreadyExists := by
  have hwalk := walk_eq_route hstart (stepsToPlace path)
  obtain ⟨entries, hat⟩ := Node.occupant?_eq_directory_iff.mp hgoal
  rw [stepsToPlace] at hwalk h
  rw [makeDirectory, place, hfault]
  dsimp only
  rw [hwalk, h]
  dsimp only
  rw [hat]
  dsimp only
  generalize (withoutSlashes path.parts).getLast?.map (fun part => Step.ofText part.text) = last
  cases last with
  | none => rfl
  | some step =>
    cases step with
    | stay => rfl
    | up => rfl
    | enter name =>
      dsimp only
      by_cases hsize : maxNameSize < name.length
      · rw [if_pos hsize, if_pos hsize]
      · rw [if_neg hsize, if_neg hsize]
        dsimp only
        rw [Node.occupant?, Option.isSome_map]

end Place

/-! ## Made again -/

section Again

variable {storage after : Storage} {fault : Fault}

/-- How making directories fails: at once, or above the first, or at the first after those above. -/
theorem makeDirectoriesOf_cons_eq_error {path : Path} {above : List Path}
    (h : storage.makeDirectoriesOf (path :: above) = (.error fault, after)) :
    path.text ≠ [] ∧ (after = storage ∨ storage.makeDirectory path = .error .notFound ∧
      (storage.makeDirectoriesOf above = (.error fault, after) ∨
        storage.makeDirectoriesOf above = (.ok (), after) ∧
          after.makeDirectory path = .error fault ∧ ¬ after.isDirectory path = true)) := by
  rw [makeDirectoriesOf] at h
  split at h
  next => cases h
  next hne =>
    refine ⟨by simpa using hne, ?_⟩
    split at h
    next => cases h
    next hmake =>
      refine .inr ⟨hmake, ?_⟩
      split at h
      next fault' middle habove =>
        obtain ⟨hfault, rfl⟩ := Prod.mk.inj h
        obtain rfl := Except.error.inj hfault
        exact .inl habove
      next middle habove =>
        split at h
        next => cases h
        next fault' hagain =>
          split at h
          next => cases h
          next hno =>
            obtain ⟨hfault, rfl⟩ := Prod.mk.inj h
            obtain rfl := Except.error.inj hfault
            exact .inr ⟨habove, hagain, hno⟩
    next =>
      split at h
      next => cases h
      next =>
        obtain ⟨-, rfl⟩ := Prod.mk.inj h
        exact .inl rfl

/-- Where a path with a first part begins. -/
def startOf (storage : Storage) (first : Name) : Location :=
  if first = [] then [] else storage.here

/-- A path starts where its first text says. -/
theorem start_eq_startOf {path : Path} (hpath : path.text ≠ []) {first : Name}
    (hhead : path.parts.head?.map (·.text) = some first) :
    storage.start path = storage.startOf first := by
  rw [← List.head?_map, path.map_text_parts] at hhead
  rw [start, startOf, Path.isAbsolute_eq hpath, hhead]
  simp

/-- The steps along parts. -/
def stepsAlong (first : Name) (rest : List Name) : List Step :=
  (Path.beginning first rest).map fun part => Step.ofText part.text

/-- One more part is one more step at the end. -/
theorem stepsAlong_concat (first : Name) (rest : List Name) (last : Name) :
    stepsAlong first (rest ++ [last]) = stepsAlong first rest ++ [Step.ofText last] := by
  simp [stepsAlong, Path.beginning_concat, PathPart.later]

/-- A text that is no component is a step that stays. -/
theorem ofText_of_laterComponent {text : Name} (h : laterComponent text = none) :
    Step.ofText text = .stay := by
  unfold laterComponent at h
  split at h
  · rfl
  · rfl
  · cases h
  · cases h

variable {first : Name} {rest : List Name}

/-- The path that ends with a part has its place at the end of the parts before. -/
theorem place_ending {last : Name} (hlast : laterComponent last ≠ none)
    (hslash : ∀ text ∈ first :: (rest ++ [last]), Name.slash ∉ text) :
    stepsToPlace (Path.ending first (rest ++ [last])) = stepsAlong first rest ∧
    ((withoutSlashes (Path.ending first (rest ++ [last])).parts).getLast?.map
      fun part => Step.ofText part.text) = some (Step.ofText last) ∧
    stepsOf (Path.ending first (rest ++ [last])) = stepsAlong first rest ++ [Step.ofText last] := by
  have hne : last ≠ [] := by
    rintro rfl
    exact hlast rfl
  have hparts := Path.parts_ending_concat hlast hslash
  have hkept : withoutSlashes (Path.ending first (rest ++ [last])).parts =
      Path.beginning first rest ++ [.later last] := by
    rw [hparts, Path.beginning_concat, withoutSlashes, List.reverse_append, List.reverse_singleton,
      List.singleton_append, List.dropWhile_cons_of_neg (by simpa [PathPart.later] using hne)]
    simp
  refine ⟨?_, ?_, ?_⟩
  · rw [stepsToPlace, hkept, List.dropLast_concat]
    rfl
  · rw [hkept, List.getLast?_concat]
    rfl
  · rw [stepsOf, hparts, Path.beginning_concat, List.map_append]
    rfl

/-- A path that leads to a directory does so by the parts that it begins with. -/
theorem LeadsTo.route_along (hslash : ∀ text ∈ first :: rest, Name.slash ∉ text)
    {location : Location} (h : storage.LeadsTo (Path.ending first rest) location) :
    storage.root.occupant? (storage.startOf first) ≠ none ∧
      route storage.root.occupant? (storage.startOf first) (stepsAlong first rest) =
        .ok location := by
  obtain ⟨hfault, hstart, hroute⟩ := locate_eq_ok_iff.mp h.locate
  rw [start_eq_startOf (text_ne_empty_of_pathFault? hfault)
    (by rw [Path.head?_parts_ending hslash]; rfl)] at hstart hroute
  refine ⟨hstart, ?_⟩
  obtain ⟨kept, silent, rfl, hkept, hsilent⟩ := Path.exists_beginning_silent first rest
  have halong : route storage.root.occupant? (storage.startOf first) (stepsAlong first kept) =
      .ok location := by
    rcases Path.parts_ending hslash with hparts | hparts
    · rw [stepsOf, hparts, hkept] at hroute
      exact hroute
    · rw [stepsOf, hparts, hkept, List.map_append, route_append_eq_ok_iff] at hroute
      obtain ⟨middle, hmiddle, hstay⟩ := hroute
      obtain rfl := eq_of_route_stay (List.forall_mem_singleton.mpr rfl) hstay
      exact hmiddle
  have hsteps : stepsAlong first (kept ++ silent) =
      stepsAlong first kept ++ silent.map Step.ofText := by
    simp [stepsAlong, Path.beginning, PathPart.later, Function.comp_def]
  rw [hsteps, route_append_eq_ok_iff]
  refine ⟨location, halong, route_stays (fun step hstep => ?_) h.directory⟩
  obtain ⟨text, htext, rfl⟩ := List.mem_map.mp hstep
  exact ofText_of_laterComponent (hsilent text htext)

section Last

variable {last : Name} (hlast : laterComponent last ≠ none)
  (hslash : ∀ text ∈ first :: (rest ++ [last]), Name.slash ∉ text)
  (hmake : storage.makeDirectory (Path.ending first (rest ++ [last])) = .error .notFound)

include hslash

/-- An ending starts where its first text says. -/
theorem start_ending (storage : Storage) :
    storage.start (Path.ending first (rest ++ [last])) = storage.startOf first :=
  start_eq_startOf (Path.ending_text_ne_empty hslash) (by rw [Path.head?_parts_ending hslash]; rfl)

include hlast

/-- The path that ends with a part leads to a directory when the steps to that part and the one it
asks for do. -/
theorem leadsTo_ending (hfault : pathFault? (Path.ending first (rest ++ [last])) = none)
    (hstart : storage.root.occupant? (storage.startOf first) ≠ none) {goal : Location}
    (hroute : route storage.root.occupant? (storage.startOf first)
      (stepsAlong first rest ++ [Step.ofText last]) = .ok goal)
    (hgoal : storage.root.occupant? goal = some .directory) :
    storage.LeadsTo (Path.ending first (rest ++ [last])) goal := by
  obtain ⟨-, -, hsteps⟩ := place_ending hlast hslash
  refine ⟨locate_eq_ok_iff.mpr ⟨hfault, ?_, ?_⟩, hgoal⟩
  · rwa [start_ending hslash]
  · rwa [start_ending hslash, hsteps]

include hmake

/-- A file that is found now, when before nothing was found on the way, is not found without two
dots: on a way without them, it would have been found before. -/
theorem up_mem_of_file (hgrows : Grows ∅ storage after) {location : Location}
    (hroute : route after.root.occupant? (after.startOf first) (stepsAlong first rest) = .ok location)
    {name : Name} (hstep : Step.ofText last = .enter name)
    (hsize : ¬ maxNameSize < name.length) {content : List UInt8}
    (hthere : after.root.occupant? (location ++ [name]) = some (.file content)) :
    .up ∈ stepsAlong first rest := by
  by_contra hup
  obtain ⟨hplace, hend, -⟩ := place_ending hlast hslash
  have hfault := pathFault?_of_makeDirectory (Path.ending_text_ne_empty hslash) hmake
  have hfile := (hgrows.files (location ++ [name]) (Set.notMem_empty _) content).mpr hthere
  have hdirectory : storage.root.occupant? location = some .directory :=
    Node.occupant?_of_append_singleton (by rw [hfile]; exact Option.some_ne_none _)
  have habove {before : Location} (hbefore : before <+: location) :
      storage.root.occupant? before = some .directory :=
    directory_above hdirectory hbefore
  obtain ⟨hbelow, hroute'⟩ := route_of_not_mem_up hup hroute fun before => habove
  have hsame : storage.startOf first = after.startOf first := by
    rw [startOf, startOf, hgrows.here]
  have hmade := makeDirectory_of_route hfault
    (by rw [start_ending hslash, hsame, habove hbelow]; exact Option.some_ne_none _)
    (by rwa [start_ending hslash, hsame, hplace]) hdirectory
  rw [hend, hstep, hmake] at hmade
  simp [hsize, hfile] at hmade

/-- When a name is what cannot be made, it is too long, or a file is there. -/
theorem closed_of_enter (hgrows : Grows ∅ storage after) {location : Location} {name : Name}
    (hdirectory : after.root.occupant? location = some .directory)
    (hroute : route after.root.occupant? (after.startOf first) (stepsAlong first rest) = .ok location)
    (hstep : Step.ofText last = .enter name)
    (hmade : (.error fault : Except Fault Storage) =
      if maxNameSize < name.length then .error .nameTooLong
      else if (after.root.occupant? (location ++ [name])).isSome then .error .alreadyExists
      else .ok (after.set (location ++ [name]) (.directory [])))
    (hno : name.length ≤ maxNameSize →
      after.root.occupant? (location ++ [name]) ≠ some .directory) :
    Closed after.root.occupant? (after.startOf first) (stepsAlong first rest ++ [.enter name])
      fault := by
  by_cases hsize : maxNameSize < name.length
  · rw [if_pos hsize] at hmade
    obtain rfl := Except.error.inj hmade
    refine .tooLong List.prefix_rfl ?_
    rw [route_append, hroute]
    exact (route_enter ..).trans ((if_pos hdirectory).trans (if_pos hsize))
  · rw [if_neg hsize] at hmade
    cases hthere : after.root.occupant? (location ++ [name]) with
    | none =>
      rw [hthere] at hmade
      cases hmade
    | some occupant =>
      rw [hthere, Option.isSome_some, if_pos rfl] at hmade
      obtain rfl := Except.error.inj hmade
      cases occupant with
      | directory => exact absurd hthere (hno (Nat.not_lt.mp hsize))
      | file content =>
        have hup := up_mem_of_file hlast hslash hmake hgrows hroute hstep hsize hthere
        refine .file List.prefix_rfl (List.mem_append_left _ hup) ?_ hthere
        exact route_append_eq_ok_iff.mpr ⟨location, hroute, route_enter_eq_ok_iff.mpr
          ⟨hdirectory, Nat.not_lt.mp hsize, by simp [hthere], rfl⟩⟩

/-- Where the directories before the last are there now, and the last can still not be made, the way
is closed. -/
theorem closed_concat (hgrows : Grows ∅ storage after) {location : Location}
    (hleads : after.LeadsTo (Path.ending first rest) location)
    (hagain : after.makeDirectory (Path.ending first (rest ++ [last])) = .error fault)
    (hno : ¬ after.isDirectory (Path.ending first (rest ++ [last])) = true) :
    Closed after.root.occupant? (after.startOf first) (stepsAlong first (rest ++ [last])) fault := by
  have hfault := pathFault?_of_makeDirectory (Path.ending_text_ne_empty hslash) hmake
  obtain ⟨hplace, hend, -⟩ := place_ending hlast hslash
  obtain ⟨hstart, hroute⟩ := hleads.route_along (Path.noSlash_beginning hslash)
  have hnever {goal : Location}
      (hgoal : route after.root.occupant? location [Step.ofText last] = .ok goal) :
      after.root.occupant? goal ≠ some .directory := fun hdirectory =>
    hno (leadsTo_ending hlast hslash hfault hstart
      (route_append_eq_ok_iff.mpr ⟨location, hroute, hgoal⟩) hdirectory).isDirectory
  have hmade := makeDirectory_of_route hfault (by rwa [start_ending hslash])
    (by rwa [start_ending hslash, hplace]) hleads.directory
  rw [hend, hagain] at hmade
  rw [stepsAlong_concat]
  cases hstep : Step.ofText last with
  | stay =>
    rw [hstep] at hnever
    exact absurd hleads.directory (hnever ((route_stay ..).trans (if_pos hleads.directory)))
  | up =>
    rw [hstep] at hnever
    have habove : after.root.occupant? location.dropLast = some .directory :=
      directory_above hleads.directory (List.dropLast_prefix location)
    exact absurd habove (hnever ((route_up ..).trans (if_pos hleads.directory)))
  | enter name =>
    rw [hstep] at hnever hmade
    refine closed_of_enter hlast hslash hmake hgrows hleads.directory hroute hstep hmade ?_
    intro hsize hdirectory
    exact hnever (route_enter_eq_ok_iff.mpr
      ⟨hleads.directory, hsize, by simp [hdirectory], rfl⟩) hdirectory

end Last

/-- Nothing need be made above a path with a single part. -/
theorem makeDirectoriesOf_single (storage : Storage) (first : Name) :
    storage.makeDirectoriesOf (Path.parentsOf (Path.beginning first []).reverse) =
      (.ok (), storage) := by
  change storage.makeDirectoriesOf (Path.parentsOf [⟨first, firstComponent true first⟩]) = _
  rw [Path.parentsOf]
  dsimp only
  split
  · rfl
  · rfl
  · rfl

/-- Where making directories fails, nothing was made, or the way to the last of them is closed now. -/
theorem closed_of_makeDirectories
    (hslash : ∀ text ∈ first :: rest, Name.slash ∉ text)
    (h : storage.makeDirectories (Path.ending first rest) = (.error fault, after)) :
    after = storage ∨
      Closed after.root.occupant? (after.startOf first) (stepsAlong first rest) fault := by
  -- What ends the way up is the first of the directories that cannot be made after those above it.
  induction rest using List.reverseRecOn with
  | nil =>
    obtain ⟨-, hsame | ⟨hmake, habove | ⟨habove, -, -⟩⟩⟩ := makeDirectoriesOf_cons_eq_error h
    · exact .inl hsame
    · rw [Path.parents_ending hslash, makeDirectoriesOf_single] at habove
      cases habove
    · rw [Path.parents_ending hslash, makeDirectoriesOf_single] at habove
      exact .inl (Prod.mk.inj habove).2.symm
  | append_singleton rest last ih =>
    have hslash' := Path.noSlash_beginning hslash
    by_cases hlast : laterComponent last = none
    · rw [Path.ending_concat_silent hlast] at h
      refine (ih hslash' h).imp_right fun hclosed => ?_
      rw [stepsAlong_concat]
      exact hclosed.append _
    · have hparents := (Path.parents_ending hslash).trans (Path.parentsOf_concat hlast hslash')
      rw [makeDirectories, hparents] at h
      obtain ⟨-, hsame | ⟨hmake, habove | ⟨habove, hagain, hno⟩⟩⟩ := makeDirectoriesOf_cons_eq_error h
      · exact .inl hsame
      · refine (ih hslash' habove).imp_right fun hclosed => ?_
        rw [stepsAlong_concat]
        exact hclosed.append _
      · have hmakes := storage.makeDirectories_makes (Path.ending first rest)
        rw [makeDirectories, habove] at hmakes
        obtain ⟨location, hleads⟩ := hmakes.leadsTo rfl (Path.ending_text_ne_empty hslash')
        exact .inr (closed_concat hlast hslash hmake hmakes.grows hleads hagain hno)

/-- Slashes are taken off only behind the last part that has a text. -/
theorem withoutSlashes_append_cons {part : PathPart} (hpart : part.text ≠ [])
    (before more : List PathPart) :
    withoutSlashes (before ++ part :: more) = before ++ part :: withoutSlashes more := by
  have hkept : (part :: before.reverse).dropWhile (·.text.isEmpty) = part :: before.reverse :=
    List.dropWhile_cons_of_neg (by simpa using hpart)
  rw [withoutSlashes, withoutSlashes, List.reverse_append, List.reverse_cons, List.append_assoc,
    List.singleton_append, List.dropWhile_append, hkept]
  split
  next hempty => simp [List.isEmpty_iff.mp hempty]
  next => simp

/-- What is above a path that begins with the given parts: nothing that need be made, or the path that
ends before the last part that says something. -/
theorem parents_cases {path : Path} (hpath : path.text ≠ []) :
    (∀ storage : Storage, storage.makeDirectoriesOf path.parents = (.ok (), storage)) ∨
    ∃ first rest, path.parents = Path.ending first rest :: (Path.ending first rest).parents ∧
      (∀ text ∈ first :: rest, Name.slash ∉ text) ∧
      path.parts.head?.map (·.text) = some first ∧ stepsAlong first rest <+: stepsToPlace path := by
  obtain ⟨first, rest, hfront, hslash⟩ := Path.exists_front_eq_beginning hpath
  rw [Path.parents_eq_of_parts path.parts_eq_front, hfront]
  rcases Path.exists_last_component rest with hnone | ⟨before, last, silent, rfl, hlast, hsilent⟩
  · left
    intro storage
    have habove : Path.parentsOf (Path.beginning first ([] ++ rest)).reverse =
        Path.parentsOf (Path.beginning first []).reverse := Path.parentsOf_append_silent hnone
    rw [List.nil_append] at habove
    rw [habove, makeDirectoriesOf_single]
  · right
    have hslash' := Path.noSlash_beginning hslash
    have habove : Path.parentsOf (Path.beginning first (before ++ [last] ++ silent)).reverse =
        Path.parentsOf (Path.beginning first (before ++ [last])).reverse :=
      Path.parentsOf_append_silent hsilent
    rw [List.append_assoc, List.singleton_append] at habove
    have hne : (PathPart.later last).text ≠ [] := by
      rintro rfl
      exact hlast rfl
    obtain ⟨more, hparts⟩ : ∃ more,
        path.parts = Path.beginning first before ++ .later last :: more := by
      have hbeginning : Path.beginning first (before ++ last :: silent) =
          Path.beginning first before ++ .later last :: silent.map .later := by
        simp [Path.beginning]
      rcases path.parts_eq_front with hparts | hparts
      · exact ⟨_, by rw [hparts, hfront, hbeginning]⟩
      · exact ⟨_, by rw [hparts, hfront, hbeginning, List.append_assoc, List.cons_append]⟩
    refine ⟨first, before, habove.trans (Path.parentsOf_concat hlast hslash'), hslash', ?_, ?_⟩
    · rw [hparts]
      rfl
    · rw [stepsToPlace, hparts, withoutSlashes_append_cons hne,
        List.dropLast_append_of_ne_nil (List.cons_ne_nil _ _), List.map_append]
      exact List.prefix_append _ _

/-- Two dots on the way to the place of a path are a component of the path. -/
theorem parent_mem_components {path : Path} (h : .up ∈ stepsToPlace path) :
    Component.parent ∈ path.components := by
  obtain ⟨part, hpart, hstep⟩ := List.mem_map.mp h
  have hmem : part ∈ path.parts :=
    (withoutSlashes_isPrefix path.parts).subset (List.dropLast_subset _ hpart)
  have htext : part.text = ".." := by
    unfold Step.ofText at hstep
    split at hstep <;> first | rfl | cases hstep
    assumption
  refine List.mem_filterMap.mpr ⟨part, hmem, ?_⟩
  rw [Path.parts_eq_partsOf] at hmem
  cases htexts : path.texts with
  | nil => exact absurd htexts path.texts_ne_nil
  | cons first rest =>
    rw [htexts, Path.partsOf] at hmem
    rcases List.mem_cons.mp hmem with rfl | hmem
    · dsimp only at htext ⊢
      rw [htext]
      rfl
    · obtain ⟨text, -, rfl⟩ := List.mem_map.mp hmem
      simp only [PathPart.later] at htext ⊢
      rw [htext]
      rfl

/-- No directory is made where the way to its place is closed. -/
theorem makeDirectories_of_closed {path : Path} (hfault : pathFault? path = none)
    (h : Closed storage.root.occupant? (storage.start path) (stepsToPlace path) fault) :
    ∃ told, Closed.Told (stepsToPlace path) fault told ∧
      storage.makeDirectories path = (.error told, storage) := by
  obtain ⟨told, htold, hroute⟩ := h.exists_told
  have hstart : storage.root.occupant? (storage.start path) ≠ none := by simp [h.start_directory]
  have hmake := makeDirectory_of_closed hfault hstart hroute
  have hother : told ≠ .notFound ∧ told ≠ .alreadyExists := by
    rcases htold with ⟨rfl, rfl⟩ | ⟨rfl, -, -⟩ <;> decide
  have hno : ¬ storage.isDirectory path = true := by
    rw [isDirectory_eq_true_iff]
    rintro ⟨location, hleads⟩
    exact hother.2 (Except.error.inj (hmake.symm.trans hleads.makeDirectory))
  refine ⟨told, htold, ?_⟩
  rw [makeDirectories, makeDirectoriesOf_cons (text_ne_empty_of_pathFault? hfault) hmake hother.1,
    if_neg hno]

/-- The directories above one that could not be made after them are there. -/
theorem makeDirectoriesOf_parents_again {path : Path} (hpath : path.text ≠ [])
    (h : storage.makeDirectoriesOf path.parents = (.ok (), after)) :
    after.makeDirectoriesOf path.parents = (.ok (), after) := by
  rcases parents_cases hpath with hnone | ⟨first, rest, hparents, hslash, -, -⟩
  · exact hnone after
  · rw [hparents] at h ⊢
    have hmakes := storage.makeDirectories_makes (Path.ending first rest)
    rw [makeDirectories, h] at hmakes
    obtain ⟨location, hleads⟩ := hmakes.leadsTo rfl (Path.ending_text_ne_empty hslash)
    exact hleads.makeDirectories

/-- Making directories that could not be made fails again and makes nothing more. It fails for the same
reason, unless there are two dots in the path. -/
theorem makeDirectories_again {path : Path}
    (h : storage.makeDirectories path = (.error fault, after)) :
    after.makeDirectories path = (.error fault, after) ∨
      Component.parent ∈ path.components ∧ fault = .alreadyExists ∧
        after.makeDirectories path = (.error .notADirectory, after) := by
  obtain ⟨hpath, rfl | ⟨hmake, habove | ⟨habove, hagain, hno⟩⟩⟩ := makeDirectoriesOf_cons_eq_error h
  · exact .inl h
  · rcases parents_cases hpath with hnone | ⟨first, rest, hparents, hslash, hhead, hpre⟩
    · rw [hnone] at habove
      cases habove
    · rw [hparents] at habove
      rcases closed_of_makeDirectories hslash habove with rfl | hclosed
      · exact .inl h
      · rw [← start_eq_startOf hpath hhead] at hclosed
        obtain ⟨more, hmore⟩ := hpre
        obtain ⟨told, htold, hresult⟩ := makeDirectories_of_closed
          (pathFault?_of_makeDirectory hpath hmake) (hmore ▸ hclosed.append more)
        rcases htold with ⟨rfl, -⟩ | ⟨rfl, rfl, hup⟩
        · exact .inl hresult
        · exact .inr ⟨parent_mem_components hup, rfl, hresult⟩
  · left
    by_cases hfault : fault = .notFound
    · subst hfault
      rw [makeDirectories, makeDirectoriesOf, if_neg (by simpa using hpath)]
      simp only [hagain, makeDirectoriesOf_parents_again hpath habove, if_neg hno]
    · rw [makeDirectories, makeDirectoriesOf_cons hpath hagain hfault, if_neg hno]

end Again

end Storage

end Carta
