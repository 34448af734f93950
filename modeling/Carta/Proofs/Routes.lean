import Carta.Proofs.Trees
import Carta.Storage.Basic
import Mathlib.Data.List.Induction

/-!
# Where paths lead

A walk goes along the names of a path with the nodes it has come through at hand. Where it leads is
decided by what is at the locations on the way alone: each of them but the last has to be a
directory. So a walk to a directory leads to the same location in every tree that has the same
directories, whatever files there are in it.
-/

namespace Carta.Storage

/-- Where steps lead from a location, told from what is at the locations on the way. -/
def route (occupant? : Location → Option Occupant) (location : Location) :
    List Step → Except Fault Location
  | [] => .ok location
  | step :: rest =>
    if occupant? location = some .directory then
      match step with
      | .stay => route occupant? location rest
      | .up => route occupant? location.dropLast rest
      | .enter name =>
        if maxNameSize < name.length then .error .nameTooLong
        else if (occupant? (location ++ [name])).isSome then
          route occupant? (location ++ [name]) rest
        else .error .notFound
    else .error .notADirectory

section Route

variable {occupant? occupant?' : Location → Option Occupant} {location goal : Location}

/-- A step that stays goes on from the same directory. -/
theorem route_stay (occupant? : Location → Option Occupant) (location : Location)
    (rest : List Step) :
    route occupant? location (.stay :: rest) =
      if occupant? location = some .directory then route occupant? location rest
      else .error .notADirectory :=
  rfl

/-- A step up goes on from the directory above. -/
theorem route_up (occupant? : Location → Option Occupant) (location : Location)
    (rest : List Step) :
    route occupant? location (.up :: rest) =
      if occupant? location = some .directory then route occupant? location.dropLast rest
      else .error .notADirectory :=
  rfl

/-- A step into an entry goes on from it when it is there and its name is short enough. -/
theorem route_enter (occupant? : Location → Option Occupant) (location : Location) (name : Name)
    (rest : List Step) :
    route occupant? location (.enter name :: rest) =
      if occupant? location = some .directory then
        if maxNameSize < name.length then .error .nameTooLong
        else if (occupant? (location ++ [name])).isSome then
          route occupant? (location ++ [name]) rest
        else .error .notFound
      else .error .notADirectory :=
  rfl

/-- No step can be taken from what is no directory. -/
theorem route_of_not_directory (h : occupant? location ≠ some .directory) (step : Step)
    (rest : List Step) : route occupant? location (step :: rest) = .error .notADirectory :=
  if_neg h

/-- A route that goes on comes from a directory. -/
theorem occupant?_of_route_cons {step : Step} {rest : List Step}
    (h : route occupant? location (step :: rest) = .ok goal) :
    occupant? location = some .directory := by
  by_contra hne
  rw [route_of_not_directory hne] at h
  cases h

/-- Steps that stand together are taken one after the other. -/
theorem route_append (occupant? : Location → Option Occupant) (location : Location)
    (first second : List Step) :
    route occupant? location (first ++ second) =
      (route occupant? location first).bind fun middle => route occupant? middle second := by
  induction first generalizing location with
  | nil => rfl
  | cons step rest ih =>
    rw [List.cons_append]
    by_cases hdirectory : occupant? location = some .directory
    · cases step with
      | stay => rw [route_stay, route_stay, if_pos hdirectory, if_pos hdirectory, ih]
      | up => rw [route_up, route_up, if_pos hdirectory, if_pos hdirectory, ih]
      | enter name =>
        rw [route_enter, route_enter, if_pos hdirectory, if_pos hdirectory]
        split
        next => rfl
        next =>
          split
          next => exact ih _
          next => rfl
    · cases step with
      | stay => rw [route_stay, route_stay, if_neg hdirectory, if_neg hdirectory]; rfl
      | up => rw [route_up, route_up, if_neg hdirectory, if_neg hdirectory]; rfl
      | enter name => rw [route_enter, route_enter, if_neg hdirectory, if_neg hdirectory]; rfl

/-- Steps that lead somewhere when taken together do so one after the other. -/
theorem route_append_eq_ok_iff {first second : List Step} :
    route occupant? location (first ++ second) = .ok goal ↔
      ∃ middle, route occupant? location first = .ok middle ∧
        route occupant? middle second = .ok goal := by
  rw [route_append]
  cases route occupant? location first <;> simp [Except.bind]

/-- Entering a name from a directory leads to what has that name. -/
theorem route_enter_eq_ok_iff {name : Name} {rest : List Step} :
    route occupant? location (.enter name :: rest) = .ok goal ↔
      occupant? location = some .directory ∧ name.length ≤ maxNameSize ∧
        occupant? (location ++ [name]) ≠ none ∧
        route occupant? (location ++ [name]) rest = .ok goal := by
  rw [route_enter]
  by_cases hdirectory : occupant? location = some .directory
  · by_cases hsize : maxNameSize < name.length
    · simp [hdirectory, hsize, Nat.not_le.mpr hsize]
    · cases hbelow : occupant? (location ++ [name]) with
      | none => simp [hdirectory, hsize]
      | some occupant => simp [hdirectory, hsize, Nat.not_lt.mp hsize]
  · simp [hdirectory]

/-- Names that are entered one after the other lead to where they name. -/
theorem eq_append_of_route_enter {names : List Name}
    (h : route occupant? location (names.map .enter) = .ok goal) : goal = location ++ names := by
  induction names generalizing location with
  | nil =>
    obtain rfl := Except.ok.inj h
    simp
  | cons name rest ih =>
    obtain ⟨-, -, -, hrest⟩ := route_enter_eq_ok_iff.mp h
    simp [ih hrest]

/-- A route leads to the same place wherever the directories of the one tree are directories and
there is something in that place. -/
theorem route_mono (hdirectories : ∀ place, occupant? place = some .directory →
      occupant?' place = some .directory) {steps : List Step}
    (h : route occupant? location steps = .ok goal) (hgoal : occupant?' goal ≠ none) :
    route occupant?' location steps = .ok goal := by
  induction steps generalizing location with
  | nil => exact h
  | cons step rest ih =>
    have hhere := occupant?_of_route_cons h
    cases step with
    | stay =>
      rw [route_stay, if_pos hhere] at h
      rw [route_stay, if_pos (hdirectories _ hhere), ih h]
    | up =>
      rw [route_up, if_pos hhere] at h
      rw [route_up, if_pos (hdirectories _ hhere), ih h]
    | enter name =>
      obtain ⟨-, hsize, -, hrest⟩ := route_enter_eq_ok_iff.mp h
      refine route_enter_eq_ok_iff.mpr ⟨hdirectories _ hhere, hsize, ?_, ih hrest⟩
      -- What is entered last is the goal, and what is entered before is left again.
      cases rest with
      | nil => exact Except.ok.inj hrest ▸ hgoal
      | cons next rest => simp [hdirectories _ (occupant?_of_route_cons hrest)]

end Route

namespace Node

/-- A way has the node it comes to. -/
theorem way?_ne_some_nil (tree : Node) (location : Location) : tree.way? location ≠ some [] := by
  cases location with
  | nil => simp [way?]
  | cons name rest =>
    cases tree with
    | file content => simp [way?]
    | directory entries =>
      intro h
      obtain ⟨child, -, hchild⟩ := Option.bind_eq_some_iff.mp h
      obtain ⟨nodes, -, hnodes⟩ := Option.map_eq_some_iff.mp hchild
      exact List.append_ne_nil_of_right_ne_nil nodes (List.cons_ne_nil _ []) hnodes

/-- The way to an entry goes through its directory. -/
theorem way?_append_singleton (tree : Node) (location : Location) (name : Name) :
    tree.way? (location ++ [name]) =
      match tree.way? location with
      | some (.directory entries :: above) =>
        (Entries.get? name entries).map fun child => child :: .directory entries :: above
      | _ => none := by
  induction location generalizing tree with
  | nil =>
    cases tree with
    | file content => simp [way?]
    | directory entries => cases hget : Entries.get? name entries <;> simp [way?, hget]
  | cons first location ih =>
    cases tree with
    | file content => simp [way?]
    | directory entries =>
      rw [List.cons_append, way?, way?]
      cases hget : Entries.get? first entries with
      | none => rfl
      | some child =>
        simp only [Option.bind_some, ih child]
        cases hway : child.way? location with
        | none => rfl
        | some nodes =>
          match nodes with
          | [] => exact absurd hway (way?_ne_some_nil child location)
          | .file content :: above => rfl
          | .directory below :: above =>
            simp only [Option.map_some, List.cons_append, Option.map_map]
            rfl

/-- The way to a location ends with the node there. -/
theorem at?_of_way? {tree : Node} {location : Location} {node : Node} {above : List Node}
    (h : tree.way? location = some (node :: above)) : tree.at? location = some node := by
  induction location using List.reverseRecOn generalizing node above with
  | nil =>
    obtain ⟨rfl, -⟩ : tree = node ∧ [] = above := by simpa [way?] using h
    exact at?_nil tree
  | append_singleton location name ih =>
    rw [way?_append_singleton] at h
    split at h
    next entries above' hway =>
      obtain ⟨child, hget, heq⟩ := Option.map_eq_some_iff.mp h
      obtain ⟨rfl, -⟩ := List.cons.inj heq
      simp [at?_append, ih hway, hget]
    next => cases h

/-- There is a way to every node. -/
theorem exists_way?_of_at? {tree : Node} {location : Location} {node : Node}
    (h : tree.at? location = some node) : ∃ above, tree.way? location = some (node :: above) := by
  induction location using List.reverseRecOn generalizing node with
  | nil =>
    obtain rfl : tree = node := by simpa using h
    exact ⟨[], by simp [way?]⟩
  | append_singleton location name ih =>
    rw [at?_append, Option.bind_eq_some_iff] at h
    obtain ⟨parent, hparent, hnode⟩ := h
    obtain ⟨above, hway⟩ := ih hparent
    cases parent with
    | file content => cases hnode
    | directory entries =>
      have hget : Entries.get? name entries = some node := by simpa using hnode
      refine ⟨.directory entries :: above, ?_⟩
      rw [way?_append_singleton, hway]
      simp [hget]

end Node

/-- A walk that has come to a location goes on by what is at the locations before it. -/
theorem walkFrom_eq_route {tree node : Node} {location : Location} {above : List Node}
    (h : tree.way? location = some (node :: above)) (steps : List Step) :
    walkFrom location.reverse node above steps = route tree.occupant? location steps := by
  induction steps generalizing location node above with
  | nil => simp [walkFrom, route]
  | cons step rest ih =>
    have hat := Node.at?_of_way? h
    cases node with
    | file content =>
      have hfile : tree.occupant? location = some (.file content) := Node.occupant?_eq_file_iff.mpr hat
      simp [walkFrom, route, hfile]
    | directory entries =>
      have hdirectory : tree.occupant? location = some .directory :=
        Node.occupant?_eq_directory_iff.mpr ⟨entries, hat⟩
      cases step with
      | stay =>
        rw [walkFrom, route_stay, if_pos hdirectory]
        exact ih h
      | up =>
        rw [route_up, if_pos hdirectory]
        cases location using List.reverseRecOn with
        | nil =>
          obtain ⟨-, rfl⟩ : _ ∧ [] = above := by simpa [Node.way?] using h
          exact ih h
        | append_singleton location name =>
          rw [Node.way?_append_singleton] at h
          split at h
          next below above' hway =>
            obtain ⟨child, -, heq⟩ := Option.map_eq_some_iff.mp h
            obtain ⟨-, rfl⟩ := List.cons.inj heq
            simpa [walkFrom] using ih hway
          next => cases h
      | enter name =>
        have hbelow : tree.occupant? (location ++ [name]) =
            (Entries.get? name entries).map Node.occupant := by
          simp [Node.occupant?, Node.at?_append, hat]
        rw [walkFrom, route_enter, if_pos hdirectory, hbelow]
        split
        next => rfl
        next =>
          cases hget : Entries.get? name entries with
          | none => rfl
          | some child =>
            have hway : tree.way? (location ++ [name]) = some (child :: .directory entries :: above) := by
              rw [Node.way?_append_singleton, h]
              simp [hget]
            simpa using ih hway

/-- A walk from somewhere goes by what is on the way. -/
theorem walk_eq_route {tree : Node} {location : Location} (h : tree.occupant? location ≠ none)
    (steps : List Step) : walk tree location steps = route tree.occupant? location steps := by
  obtain ⟨node, hat⟩ := Option.ne_none_iff_exists'.mp (mt Node.occupant?_eq_none_iff.mpr h)
  obtain ⟨above, hway⟩ := Node.exists_way?_of_at? hat
  rw [walk, hway]
  exact walkFrom_eq_route hway steps

/-- A walk succeeds when it begins somewhere and what is on the way lets it pass. -/
theorem walk_eq_ok_iff {tree : Node} {location goal : Location} {steps : List Step} :
    walk tree location steps = .ok goal ↔
      tree.occupant? location ≠ none ∧ route tree.occupant? location steps = .ok goal := by
  cases hat : tree.at? location with
  | none =>
    have hnone : tree.occupant? location = none := Node.occupant?_eq_none_iff.mpr hat
    rw [walk]
    split
    next node above hway => simp [Node.at?_of_way? hway] at hat
    next => simp [hnone]
  | some node =>
    have hsome : tree.occupant? location ≠ none := by simp [Node.occupant?, hat]
    simp [walk_eq_route hsome, hsome]

/-- The location of a path is where its steps lead. -/
theorem locate_eq_ok_iff {storage : Storage} {path : Path} {location : Location} :
    storage.locate path = .ok location ↔ pathFault? path = none ∧
      storage.root.occupant? (storage.start path) ≠ none ∧
      route storage.root.occupant? (storage.start path) (stepsOf path) = .ok location := by
  rw [locate]
  cases pathFault? path <;> simp [walk_eq_ok_iff]

/-- What a path leads to is at its location. -/
theorem open?_eq_ok_iff {storage : Storage} {path : Path} {node : Node} :
    storage.open? path = .ok node ↔
      ∃ location, storage.locate path = .ok location ∧ storage.root.at? location = some node := by
  rw [open?]
  cases storage.locate path with
  | error fault => simp
  | ok location => cases hat : storage.root.at? location <;> simp [hat]

/-- The place of a name is in the directory that the other parts of the path lead to. -/
theorem place_eq_ok_iff {storage : Storage} {path : Path} {directory : Location} {name : Name}
    {slash : Bool} :
    storage.place path = .ok ⟨directory, some name, slash⟩ ↔ pathFault? path = none ∧
      walk storage.root (storage.start path)
        ((withoutSlashes path.parts).dropLast.map fun part => Step.ofText part.text) = .ok directory ∧
      storage.root.occupant? directory = some .directory ∧
      ((withoutSlashes path.parts).getLast?.map fun part => Step.ofText part.text) =
        some (.enter name) ∧
      name.length ≤ maxNameSize ∧
      decide ((withoutSlashes path.parts).length < path.parts.length) = slash := by
  rw [place]
  cases pathFault? path with
  | some fault => simp
  | none =>
    dsimp only
    cases walk storage.root (storage.start path)
        ((withoutSlashes path.parts).dropLast.map fun part => Step.ofText part.text) with
    | error fault => simp
    | ok goal =>
      simp only [true_and, Except.ok.injEq]
      split
      next entries hat =>
        have hgoal := Node.occupant?_eq_directory_iff.mpr ⟨entries, hat⟩
        split
        next name' hlast =>
          rw [hlast]
          split
          next hsize =>
            constructor
            · exact nofun
            · rintro ⟨-, -, hname, hfit, -⟩
              obtain rfl : name' = name := by simpa using hname
              exact absurd hsize (Nat.not_lt.mpr hfit)
          next hsize =>
            constructor
            · intro h
              obtain ⟨rfl, hname, rfl⟩ := Place.mk.inj (Except.ok.inj h)
              obtain rfl := Option.some.inj hname
              exact ⟨rfl, hgoal, rfl, Nat.not_lt.mp hsize, rfl⟩
            · rintro ⟨rfl, -, hname, -, rfl⟩
              obtain rfl : name' = name := by simpa using hname
              rfl
        next hlast =>
          constructor
          · exact fun h => nomatch Except.ok.inj h
          · rintro ⟨-, -, hname, -⟩
            exact absurd hname (hlast name)
      next hat =>
        constructor
        · exact nofun
        · rintro ⟨rfl, hdirectory, -⟩
          obtain ⟨entries, hentries⟩ := Node.occupant?_eq_directory_iff.mp hdirectory
          exact absurd hentries (hat entries)

end Carta.Storage
