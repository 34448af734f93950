import Carta.Proofs.Paths
import Carta.Proofs.Replacement

/-!
# Directories that are made on the way

Below a directory, what names lead to is told by what is at the locations between. Making the
directories on such a way either fails, where a file stands in it, and changes nothing, or makes a
directory of every location on the way that is none yet.
-/

namespace Carta.Storage

/-- A path leads to a directory. -/
structure LeadsTo (storage : Storage) (path : Path) (location : Location) : Prop where
  locate : storage.locate path = .ok location
  directory : storage.root.occupant? location = some .directory

/-- A name is entered as what it is. -/
theorem Step.ofText_eq_enter {name : Name} (h : IsEntryName name) :
    Step.ofText name = .enter name := by
  rw [Step.ofText]
  · exact h.ne_empty
  · exact h.ne_dot
  · exact h.ne_dots

/-- The names of entries are steps into them. -/
theorem map_ofText_later {names : List Name} (h : ∀ name ∈ names, IsEntryName name) :
    ((names.map PathPart.later).map fun part => Step.ofText part.text) = names.map .enter := by
  rw [List.map_map]
  exact List.map_congr_left fun name hname => Step.ofText_eq_enter (h name hname)

/-- A path can be looked up when it is not empty, holds no NUL and is not too long. -/
theorem pathFault?_eq_none_iff {path : Path} : pathFault? path = none ↔
    (0 : UInt8) ∉ path.text ∧ path.text ≠ [] ∧ path.text.length ≤ maxPathSize := by
  have hnul : path.text.any (· = 0) = true ↔ (0 : UInt8) ∈ path.text := by simp
  rw [pathFault?]
  split
  next h => exact iff_of_false nofun fun hpath => hpath.1 (hnul.mp h)
  next h =>
    split
    next hempty => exact iff_of_false nofun fun hpath => hpath.2.1 (List.isEmpty_iff.mp hempty)
    next hempty =>
      have hne : path.text ≠ [] := by simpa using hempty
      split
      next hlong => exact iff_of_false nofun fun hpath => absurd hlong (Nat.not_lt.mpr hpath.2.2)
      next hlong => exact iff_of_true rfl ⟨hnul.not.mp h, hne, Nat.not_lt.mp hlong⟩

/-- A path that can be looked up is not empty. -/
theorem text_ne_empty_of_pathFault? {path : Path} (h : pathFault? path = none) : path.text ≠ [] :=
  (pathFault?_eq_none_iff.mp h).2.1

/-- The beginning of a path that can be looked up can be looked up, unless it is empty. -/
theorem pathFault?_of_isPrefix {first second : Path} (hne : first.text ≠ [])
    (hpre : first.text <+: second.text) (h : pathFault? second = none) :
    pathFault? first = none := by
  obtain ⟨hnul, -, hsize⟩ := pathFault?_eq_none_iff.mp h
  exact pathFault?_eq_none_iff.mpr
    ⟨fun hmem => hnul (hpre.subset hmem), hne, hpre.length_le.trans hsize⟩

/-- What is below a path can be looked up unless it is too long. -/
theorem pathFault?_descend {path : Path} {names : List Name} (h : pathFault? path = none)
    (hnames : ∀ name ∈ names, IsEntryName name)
    (hsize : (path.descend names).text.length ≤ maxPathSize) :
    pathFault? (path.descend names) = none := by
  obtain ⟨hnul, hne, -⟩ := pathFault?_eq_none_iff.mp h
  refine pathFault?_eq_none_iff.mpr ⟨?_, Path.descend_text_ne_empty hne hnames, hsize⟩
  clear h hne hsize
  induction names generalizing path with
  | nil => exact hnul
  | cons name rest ih =>
    rw [List.forall_mem_cons] at hnames
    refine @ih (path.join ⟨name⟩) hnames.2 ?_
    rw [Path.join, if_neg (by simp [Path.isAbsolute_name hnames.1])]
    split
    next => exact List.not_mem_append hnul hnames.1.noNul
    next => exact List.not_mem_append (List.not_mem_append hnul (by decide)) hnames.1.noNul

section Below

variable {storage : Storage} {base : Path} {location : Location}

/-- A path that leads somewhere has no fault of its own. -/
theorem LeadsTo.pathFault? (h : storage.LeadsTo base location) : Storage.pathFault? base = none :=
  (locate_eq_ok_iff.mp h.locate).1

/-- A path that leads somewhere is not empty. -/
theorem LeadsTo.text_ne_empty (h : storage.LeadsTo base location) : base.text ≠ [] :=
  text_ne_empty_of_pathFault? h.pathFault?

/-- The front of a path leads where the path does. -/
theorem LeadsTo.route_front (h : storage.LeadsTo base location) :
    storage.root.occupant? (storage.start base) ≠ none ∧
    route storage.root.occupant? (storage.start base)
      (base.front.map fun part => Step.ofText part.text) = .ok location := by
  obtain ⟨-, hstart, hroute⟩ := locate_eq_ok_iff.mp h.locate
  refine ⟨hstart, ?_⟩
  rw [stepsOf] at hroute
  rcases base.parts_eq_front with hparts | hparts
  · rwa [hparts] at hroute
  · rw [hparts, List.map_append, route_append_eq_ok_iff] at hroute
    obtain ⟨middle, hmiddle, hstay⟩ := hroute
    have hhere := occupant?_of_route_cons hstay
    have hsame : route storage.root.occupant? middle [.stay] = .ok middle := by
      rw [route_stay, if_pos hhere]
      rfl
    obtain rfl : middle = location := Except.ok.inj (hsame.symm.trans hstay)
    exact hmiddle

variable {names : List Name} (hnames : ∀ name ∈ names, IsEntryName name)

/-- Steps below a directory are taken from there. -/
theorem LeadsTo.route_below (h : storage.LeadsTo base location) (steps : List Step) :
    route storage.root.occupant? (storage.start base)
      ((base.front.map fun part => Step.ofText part.text) ++ steps) =
      route storage.root.occupant? location steps := by
  rw [route_append, h.route_front.2]
  rfl

/-- A path that begins as another one starts where that one does. -/
theorem LeadsTo.start_eq (h : storage.LeadsTo base location) {path : Path}
    (hpath : path.text ≠ []) (hhead : path.parts.head? = base.front.head?) :
    storage.start path = storage.start base := by
  rw [start, start, Path.isAbsolute_of_head? h.text_ne_empty hpath hhead]

include hnames

/-- What names lead to below a directory. -/
theorem LeadsTo.locate_eq (h : storage.LeadsTo base location) {path : Path}
    (hparts : path.parts = base.front ++ names.map .later) :
    storage.locate path =
      (Storage.pathFault? path).elim (route storage.root.occupant? location (names.map .enter)) .error := by
  rw [Storage.locate]
  cases hfault : Storage.pathFault? path with
  | some fault => rfl
  | none =>
    have hstart := h.start_eq (text_ne_empty_of_pathFault? hfault)
      (hparts ▸ Path.head?_front_append h.text_ne_empty _)
    rw [hstart]
    refine (walk_eq_route h.route_front.1 _).trans ?_
    rw [stepsOf, hparts, List.map_append, map_ofText_later hnames]
    exact h.route_below _

/-- The place of a name below a directory. -/
theorem LeadsTo.place_eq (h : storage.LeadsTo base location) {path : Path}
    (hfault : Storage.pathFault? path = none) {name : Name} (hname : IsEntryName name)
    (hparts : path.parts = base.front ++ (names ++ [name]).map .later) :
    storage.place path =
      (route storage.root.occupant? location (names.map .enter)).bind fun directory =>
        if storage.root.occupant? directory = some .directory then
          if maxNameSize < name.length then .error .nameTooLong
          else .ok ⟨directory, some name, false⟩
        else .error .notADirectory := by
  have hlast : path.parts = base.front ++ names.map .later ++ [.later name] := by
    rw [hparts, List.map_append, List.append_assoc]
    rfl
  have hslashes : withoutSlashes path.parts = path.parts := by
    rw [hlast, withoutSlashes, List.reverse_append, List.reverse_singleton, List.singleton_append,
      List.dropWhile_cons_of_neg (by simp [PathPart.later, hname.ne_empty])]
    simp
  have hwalk : walk storage.root (storage.start path)
      (path.parts.dropLast.map fun part => Step.ofText part.text) =
      route storage.root.occupant? location (names.map .enter) := by
    have hstart := h.start_eq (text_ne_empty_of_pathFault? hfault)
      (hparts ▸ Path.head?_front_append h.text_ne_empty _)
    rw [hstart, walk_eq_route h.route_front.1, hlast, List.dropLast_concat, List.map_append,
      map_ofText_later hnames]
    exact h.route_below _
  have hstep : (path.parts.getLast?.map fun part => Step.ofText part.text) = some (.enter name) := by
    rw [hlast, List.getLast?_concat]
    exact congrArg some (Step.ofText_eq_enter hname)
  rw [place, hfault]
  dsimp only
  rw [hslashes, hwalk, hstep]
  cases route storage.root.occupant? location (names.map .enter) with
  | error fault => rfl
  | ok directory =>
    simp only [Except.bind]
    by_cases hdirectory : storage.root.occupant? directory = some .directory
    · obtain ⟨entries, hat⟩ := Node.occupant?_eq_directory_iff.mp hdirectory
      rw [hat, if_pos hdirectory]
      simp
    · rw [if_neg hdirectory]
      split
      next entries hat => exact absurd (Node.occupant?_eq_directory_iff.mpr ⟨entries, hat⟩) hdirectory
      next => rfl

end Below

/-- No file stands in the way that names lead. -/
def Unblocked (occupant? : Location → Option Occupant) (location : Location) (names : List Name) :
    Prop :=
  ∀ before, before <+: names → ∀ content, occupant? (location ++ before) ≠ some (.file content)

/-- What is there when every location on the way that names lead is a directory. -/
def withWay (occupant? : Location → Option Occupant) (location : Location) (names : List Name) :
    Location → Option Occupant := fun other =>
  if location <+: other ∧ other <+: location ++ names then some .directory else occupant? other

section Way

variable {occupant? : Location → Option Occupant} {location : Location} {names : List Name}

/-- A way goes on when there is no file at its next location. -/
theorem Unblocked.concat (h : Unblocked occupant? location names) {name : Name}
    (hname : ∀ content, occupant? (location ++ names ++ [name]) ≠ some (.file content)) :
    Unblocked occupant? location (names ++ [name]) := by
  intro before hbefore content
  rcases List.prefix_concat_iff.mp hbefore with rfl | hbefore
  · rw [← List.append_assoc]
    exact hname content
  · exact h before hbefore content

/-- The beginning of an unblocked way is unblocked. -/
theorem Unblocked.of_append {more : List Name} (h : Unblocked occupant? location (names ++ more)) :
    Unblocked occupant? location names :=
  fun before hbefore => h before (hbefore.trans (List.prefix_append _ _))

/-- Names lead on through directories. -/
theorem route_of_directories (hsizes : ∀ name ∈ names, name.length ≤ maxNameSize)
    (h : ∀ before, before <+: names → occupant? (location ++ before) = some .directory) :
    route occupant? location (names.map .enter) = .ok (location ++ names) := by
  induction names generalizing location with
  | nil => simp [route]
  | cons name rest ih =>
    rw [List.forall_mem_cons] at hsizes
    have hhere : occupant? location = some .directory := by simpa using h [] List.nil_prefix
    have hname : occupant? (location ++ [name]) = some .directory :=
      h [name] (List.cons_prefix_cons.mpr ⟨rfl, List.nil_prefix⟩)
    rw [List.map_cons]
    refine route_enter_eq_ok_iff.mpr ⟨hhere, hsizes.1, by simp [hname], ?_⟩
    rw [ih hsizes.2, List.append_assoc, List.singleton_append]
    intro before hbefore
    rw [List.append_assoc]
    exact h (name :: before) (List.cons_prefix_cons.mpr ⟨rfl, hbefore⟩)

/-- Where nothing is in the end and no file is before, the way ends at nothing. -/
theorem route_missing (hsizes : ∀ name ∈ names, name.length ≤ maxNameSize)
    (hhere : occupant? location = some .directory) (hway : Unblocked occupant? location names)
    (h : occupant? (location ++ names) = none) :
    route occupant? location (names.map .enter) = .error .notFound := by
  induction names generalizing location with
  | nil => simp [hhere] at h
  | cons name rest ih =>
    rw [List.forall_mem_cons] at hsizes
    rw [List.map_cons, route_enter, if_pos hhere, if_neg (Nat.not_lt.mpr hsizes.1)]
    cases hname : occupant? (location ++ [name]) with
    | none => rfl
    | some occupant =>
      cases occupant with
      | file content =>
        exact absurd hname (hway [name] (List.cons_prefix_cons.mpr ⟨rfl, List.nil_prefix⟩) content)
      | directory =>
        refine (if_pos rfl).trans ?_
        refine ih hsizes.2 hname (fun before hbefore => ?_) (by simpa using h)
        rw [List.append_assoc]
        exact hway (name :: before) (List.cons_prefix_cons.mpr ⟨rfl, hbefore⟩)

end Way

section Tree

variable {tree : Node} {location : Location} {names : List Name}

/-- Whatever has something on a way below it is something. -/
theorem occupant?_ne_none_of_append {more : List Name}
    (h : tree.occupant? (location ++ more) ≠ none) : tree.occupant? location ≠ none := by
  cases more with
  | nil => simpa using h
  | cons name rest => simp [Node.occupant?_of_append (List.cons_ne_nil _ _) h]

/-- A way to a directory leads through directories. -/
theorem directory_of_isPrefix (h : tree.occupant? (location ++ names) = some .directory)
    {before : List Name} (hbefore : before <+: names) :
    tree.occupant? (location ++ before) = some .directory := by
  obtain ⟨after, rfl⟩ := hbefore
  rw [← List.append_assoc] at h
  cases after with
  | nil => simpa using h
  | cons name rest =>
    exact Node.occupant?_of_append (List.cons_ne_nil _ _) fun hnone => nomatch h.symm.trans hnone

/-- The way to a directory is unblocked. -/
theorem unblocked_of_directory (h : tree.occupant? (location ++ names) = some .directory) :
    Unblocked tree.occupant? location names := by
  intro before hbefore content
  simp [directory_of_isPrefix h hbefore]

/-- A way that leads to a directory is there already. -/
theorem withWay_of_directory (h : tree.occupant? (location ++ names) = some .directory) :
    withWay tree.occupant? location names = tree.occupant? := by
  funext other
  rw [withWay]
  split
  next hbetween =>
    obtain ⟨before, rfl⟩ := hbetween.1
    exact (directory_of_isPrefix h ((List.prefix_append_right_inj _).mp hbetween.2)).symm
  next => rfl

/-- Names lead to whatever is there. -/
theorem route_of_occupant? (hsizes : ∀ name ∈ names, name.length ≤ maxNameSize)
    (h : tree.occupant? (location ++ names) ≠ none) :
    route tree.occupant? location (names.map .enter) = .ok (location ++ names) := by
  cases names using List.reverseRecOn with
  | nil => simp [route]
  | append_singleton before last =>
    simp only [List.forall_mem_append, List.forall_mem_singleton] at hsizes
    rw [← List.append_assoc] at h ⊢
    have hdirectory := Node.occupant?_of_append_singleton h
    rw [List.map_append, route_append_eq_ok_iff]
    refine ⟨location ++ before, ?_, route_enter_eq_ok_iff.mpr ⟨hdirectory, hsizes.2, h, rfl⟩⟩
    exact route_of_directories hsizes.1 fun names hnames => directory_of_isPrefix hdirectory hnames

/-- A file in the way does not let anyone pass to a directory. -/
theorem route_blocked (hsizes : ∀ name ∈ names, name.length ≤ maxNameSize)
    (hway : ¬ Unblocked tree.occupant? location names) {A : Type}
    {next : Location → Except Fault A}
    (hnext : ∀ goal, tree.occupant? goal ≠ some .directory → next goal = .error .notADirectory) :
    (route tree.occupant? location (names.map .enter)).bind next = .error .notADirectory := by
  simp only [Unblocked, not_forall, not_not] at hway
  obtain ⟨before, hbefore, content, hfile⟩ := hway
  induction names generalizing location before with
  | nil =>
    obtain rfl := List.prefix_nil.mp hbefore
    rw [List.append_nil] at hfile
    exact hnext location (by simp [hfile])
  | cons name rest ih =>
    rw [List.forall_mem_cons] at hsizes
    rw [List.map_cons, route_enter]
    by_cases hhere : tree.occupant? location = some .directory
    · rw [if_pos hhere, if_neg (Nat.not_lt.mpr hsizes.1)]
      cases before with
      | nil => simp [hhere] at hfile
      | cons first before =>
        obtain ⟨rfl, hrest⟩ := List.cons_prefix_cons.mp hbefore
        rw [← List.singleton_append, ← List.append_assoc] at hfile
        have hsome : tree.occupant? (location ++ [first]) ≠ none :=
          occupant?_ne_none_of_append fun hnone => nomatch hfile.symm.trans hnone
        rw [if_pos (Option.isSome_iff_ne_none.mpr hsome)]
        exact ih hsizes.2 before hrest hfile
    · rw [if_neg hhere]
      rfl

end Tree

section Lookup

variable {storage : Storage} {base : Path} {location : Location} (h : storage.LeadsTo base location)
  {names : List Name} {path : Path} (hparts : path.parts = base.front ++ names.map .later)

include h hparts

/-- A path below a directory leads to what has its names there. -/
theorem LeadsTo.locate_of_occupant?
    (hnames : ∀ name ∈ names, IsEntryName name ∧ name.length ≤ maxNameSize)
    (hfault : Storage.pathFault? path = none)
    (hsome : storage.root.occupant? (location ++ names) ≠ none) :
    storage.locate path = .ok (location ++ names) := by
  rw [h.locate_eq (fun name hname => (hnames name hname).1) hparts, hfault, Option.elim_none]
  exact route_of_occupant? (fun name hname => (hnames name hname).2) hsome

/-- A path below a directory leads nowhere else. -/
theorem LeadsTo.eq_of_locate (hnames : ∀ name ∈ names, IsEntryName name) {goal : Location}
    (hlocate : storage.locate path = .ok goal) : goal = location ++ names := by
  rw [h.locate_eq hnames hparts] at hlocate
  cases hfault : Storage.pathFault? path with
  | some fault =>
    rw [hfault] at hlocate
    cases hlocate
  | none =>
    rw [hfault, Option.elim_none] at hlocate
    exact eq_append_of_route_enter hlocate

end Lookup

section MakeDirectory

variable {storage : Storage} {base : Path} {location : Location}

/-- A path to a directory has a place, and when the place has a name, something has that name. -/
theorem LeadsTo.exists_place {path : Path} (h : storage.LeadsTo path location) :
    ∃ place, storage.place path = .ok place ∧
      ∀ name, place.name = some name → storage.root.occupant? (place.directory ++ [name]) ≠ none := by
  obtain ⟨hfault, hstart, hroute⟩ := locate_eq_ok_iff.mp h.locate
  obtain ⟨slashes, hslashes⟩ := withoutSlashes_isPrefix path.parts
  rw [stepsOf, ← hslashes, List.map_append] at hroute
  rw [place, hfault]
  dsimp only
  rw [walk_eq_route hstart]
  generalize hkept : withoutSlashes path.parts = kept at hslashes hroute ⊢
  cases kept using List.reverseRecOn with
  | nil =>
    -- There is nothing but slashes, the first of which is passed at the start.
    have hne : slashes ≠ [] := by
      rintro rfl
      have htexts := path.map_text_parts
      rw [← hslashes] at htexts
      exact path.texts_ne_nil htexts.symm
    obtain ⟨slash, more, rfl⟩ := List.exists_cons_of_ne_nil hne
    obtain ⟨entries, hat⟩ := Node.occupant?_eq_directory_iff.mp (occupant?_of_route_cons hroute)
    simp [route, hat]
  | append_singleton before last =>
    rw [List.map_append, List.append_assoc, route_append_eq_ok_iff] at hroute
    obtain ⟨middle, hmiddle, hlast⟩ := hroute
    obtain ⟨entries, hat⟩ := Node.occupant?_eq_directory_iff.mp (occupant?_of_route_cons hlast)
    rw [List.dropLast_concat, hmiddle, List.getLast?_concat, Option.map_some]
    dsimp only
    rw [hat]
    dsimp only
    rw [List.map_singleton, List.singleton_append] at hlast
    generalize Step.ofText last.text = step at hlast ⊢
    cases step with
    | stay => exact ⟨_, rfl, by rintro _ ⟨⟩⟩
    | up => exact ⟨_, rfl, by rintro _ ⟨⟩⟩
    | enter name =>
      obtain ⟨-, hsize, hsome, -⟩ := route_enter_eq_ok_iff.mp hlast
      refine ⟨_, if_neg (Nat.not_lt.mpr hsize), ?_⟩
      rintro _ ⟨⟩
      exact hsome

/-- A directory that is there is not made again. -/
theorem LeadsTo.makeDirectory {path : Path} (h : storage.LeadsTo path location) :
    storage.makeDirectory path = .error .alreadyExists := by
  obtain ⟨⟨directory, name, slash⟩, hplace, hname⟩ := h.exists_place
  rw [Storage.makeDirectory, hplace]
  cases name with
  | none => rfl
  | some name =>
    have hisSome : (storage.root.at? (directory ++ [name])).isSome = true := by
      rw [Option.isSome_iff_ne_none]
      exact fun hnone => hname name rfl (Node.occupant?_eq_none_iff.mpr hnone)
    exact if_pos hisSome

variable (h : storage.LeadsTo base location) {names : List Name}
  (hnames : ∀ name ∈ names, IsEntryName name ∧ name.length ≤ maxNameSize)
  {name : Name} (hname : IsEntryName name ∧ name.length ≤ maxNameSize)
  {path : Path} (hfault : pathFault? path = none)
  (hparts : path.parts = base.front ++ (names ++ [name]).map .later)

include h hnames hname hfault hparts

/-- A directory is not made where a file is in the way. -/
theorem makeDirectory_blocked (hway : ¬ Unblocked storage.root.occupant? location names) :
    storage.makeDirectory path = .error .notADirectory := by
  rw [makeDirectory, h.place_eq (fun name hname => (hnames name hname).1) hfault hname.1 hparts,
    route_blocked (fun name hname => (hnames name hname).2) hway fun goal hgoal => if_neg hgoal]

/-- A directory is not made where the one above it is missing. -/
theorem makeDirectory_missing (hway : Unblocked storage.root.occupant? location names)
    (hmissing : storage.root.occupant? (location ++ names) = none) :
    storage.makeDirectory path = .error .notFound := by
  rw [makeDirectory, h.place_eq (fun name hname => (hnames name hname).1) hfault hname.1 hparts,
    route_missing (fun name hname => (hnames name hname).2) h.directory hway hmissing]
  rfl

/-- A directory is made in another one where nothing has its name. -/
theorem makeDirectory_of_directory
    (hdirectory : storage.root.occupant? (location ++ names) = some .directory) :
    storage.makeDirectory path =
      if (storage.root.occupant? (location ++ names ++ [name])).isSome then .error .alreadyExists
      else .ok (storage.set (location ++ names ++ [name]) (.directory [])) := by
  have hroute := route_of_directories (fun name hname => (hnames name hname).2)
    (fun before hbefore => directory_of_isPrefix hdirectory hbefore)
  rw [makeDirectory, h.place_eq (fun name hname => (hnames name hname).1) hfault hname.1 hparts, hroute]
  simp only [Except.bind, if_pos hdirectory, if_neg (Nat.not_lt.mpr hname.2)]
  rw [Node.occupant?, Option.isSome_map]

/-- Where nothing has its name, a directory is made, and nothing else changes. -/
theorem makeDirectory_new (hordered : storage.root.Ordered)
    (hdirectory : storage.root.occupant? (location ++ names) = some .directory)
    (hnone : storage.root.occupant? (location ++ names ++ [name]) = none) : ∃ root : Node,
      storage.makeDirectory path = .ok { storage with root } ∧ root.Ordered ∧
      root.occupant? = Function.update storage.root.occupant? (location ++ names ++ [name])
        (some .directory) := by
  have hmake := makeDirectory_of_directory h hnames hname hfault hparts hdirectory
  rw [hnone, Option.isSome_none] at hmake
  have hempty : (Node.directory []).Ordered := .directory .nil fun _ _ hget => nomatch hget
  exact ⟨_, hmake, hordered.set hempty _,
    Node.occupant?_set_leaf _ Node.isLeaf_emptyDirectory hdirectory
      fun hdir => nomatch hnone.symm.trans hdir⟩

end MakeDirectory

section MakeDirectories

variable {storage : Storage} {base : Path} {location : Location}

/-- What says nothing is no step. -/
theorem ofText_of_silent (hbase : base.text ≠ []) {part : PathPart} (hpart : part ∈ base.front)
    (h : part.component = none) : Step.ofText part.text = .stay := by
  obtain ⟨first, rest, -, hfront⟩ := Path.exists_front_eq hbase
  rw [hfront] at hpart
  rcases List.mem_cons.mp hpart with rfl | hpart
  · exact absurd h (Path.firstComponent_ne_none first)
  · obtain ⟨text, -, rfl⟩ := List.mem_map.mp hpart
    simp only [PathPart.later] at h ⊢
    unfold laterComponent at h
    split at h
    · rfl
    · rfl
    · cases h
    · cases h

/-- Staying somewhere leads nowhere else. -/
theorem eq_of_route_stay {occupant? : Location → Option Occupant} {steps : List Step}
    (hsteps : ∀ step ∈ steps, step = .stay) {goal : Location}
    (h : route occupant? location steps = .ok goal) : location = goal := by
  induction steps with
  | nil => exact Except.ok.inj h
  | cons step rest ih =>
    rw [List.forall_mem_cons] at hsteps
    obtain ⟨rfl, hrest⟩ := hsteps
    have hhere := occupant?_of_route_cons h
    rw [route_stay, if_pos hhere] at h
    exact ih hrest h

/-- A path leads to the same directory without what is at its end and says nothing. -/
theorem LeadsTo.within_nil (h : storage.LeadsTo base location) :
    storage.LeadsTo (base.within []) location := by
  have hbase := h.text_ne_empty
  have hnone : ∀ name ∈ ([] : List Name), IsEntryName name := fun _ hname => nomatch hname
  have hne := Path.within_text_ne_empty hbase hnone
  obtain ⟨silent, hsilent, hquiet⟩ := Path.exists_silent base.front
  have hkept : Path.withoutSilent (base.front ++ [].map .later) = Path.withoutSilent base.front := by
    simp
  obtain ⟨hstart, hfront⟩ := h.route_front
  rw [hsilent, List.map_append, route_append_eq_ok_iff] at hfront
  obtain ⟨middle, hmiddle, hstays⟩ := hfront
  obtain rfl : middle = location := by
    refine eq_of_route_stay ?_ hstays
    intro step hstep
    obtain ⟨part, hpart, rfl⟩ := List.mem_map.mp hstep
    exact ofText_of_silent hbase (hsilent ▸ List.mem_append_right _ hpart) (hquiet part hpart)
  have hparts := Path.parts_within_cases hbase hnone
  rw [hkept] at hparts
  have hpre : Path.withoutSilent base.front <+: base.parts := by
    refine (Path.withoutSilent_isPrefix base.front).trans ?_
    rcases base.parts_eq_front with hfront | hfront <;> simp [hfront]
  have hfault : Storage.pathFault? (base.within []) = none := by
    refine pathFault?_of_isPrefix hne ?_ h.pathFault?
    rw [Path.within, hkept]
    exact Path.ofParts_isPrefix hpre
  have hhead : (base.within []).parts.head? = base.front.head? := by
    obtain ⟨first, rest, -, hfront⟩ := Path.exists_front_eq hbase
    obtain ⟨kept, -, hkept⟩ := Path.exists_withoutSilent_eq first rest
    rw [hfront, hkept] at hparts
    rcases hparts with hparts | hparts <;> simp [hparts, hfront]
  refine ⟨locate_eq_ok_iff.mpr ⟨hfault, ?_, ?_⟩, h.directory⟩
  · rw [h.start_eq hne hhead]
    exact hstart
  · rw [h.start_eq hne hhead, stepsOf]
    rcases hparts with hparts | hparts
    · rw [hparts]
      exact hmiddle
    · rw [hparts, List.map_append, route_append_eq_ok_iff]
      exact ⟨middle, hmiddle, if_pos h.directory⟩

/-- A path leads to the same directory in every tree that has the same directories. -/
theorem LeadsTo.mono {after : Storage} (h : storage.LeadsTo base location)
    (hhere : after.here = storage.here)
    (hdirectories : ∀ place, storage.root.occupant? place = some .directory →
      after.root.occupant? place = some .directory) : after.LeadsTo base location := by
  obtain ⟨hfault, -, hroute⟩ := locate_eq_ok_iff.mp h.locate
  have hgoal := hdirectories _ h.directory
  have hstart : after.start base = storage.start base := by rw [start, start, hhere]
  have hroute' := route_mono hdirectories hroute (by simp [hgoal])
  refine ⟨locate_eq_ok_iff.mpr ⟨hfault, ?_, ?_⟩, hgoal⟩
  · rw [hstart]
    -- The start is a directory: it is where the path leads, or the first step goes out from it.
    cases hsteps : stepsOf base with
    | nil =>
      rw [hsteps] at hroute'
      rw [Except.ok.inj hroute', hgoal]
      exact Option.some_ne_none _
    | cons step rest =>
      rw [hsteps] at hroute'
      rw [occupant?_of_route_cons hroute']
      exact Option.some_ne_none _
  · rw [hstart]
    exact hroute'

variable {names : List Name}

/-- A path is that of a directory when there is a directory where its names lead. -/
theorem LeadsTo.isDirectory_iff (h : storage.LeadsTo base location)
    (hnames : ∀ name ∈ names, IsEntryName name ∧ name.length ≤ maxNameSize) {path : Path}
    (hfault : Storage.pathFault? path = none) (hparts : path.parts = base.front ++ names.map .later) :
    storage.isDirectory path = true ↔
      storage.root.occupant? (location ++ names) = some .directory := by
  have hlocate := h.locate_eq (fun name hname => (hnames name hname).1) hparts
  rw [hfault, Option.elim_none] at hlocate
  constructor
  · intro hdirectory
    rw [isDirectory] at hdirectory
    split at hdirectory
    next entries hopen =>
      obtain ⟨goal, hgoal, hat⟩ := open?_eq_ok_iff.mp hopen
      rw [hlocate] at hgoal
      rw [← eq_append_of_route_enter hgoal]
      exact Node.occupant?_eq_directory_iff.mpr ⟨entries, hat⟩
    next => cases hdirectory
  · intro hdirectory
    obtain ⟨entries, hat⟩ := Node.occupant?_eq_directory_iff.mp hdirectory
    have hroute := route_of_directories (fun name hname => (hnames name hname).2)
      (fun before hbefore => directory_of_isPrefix hdirectory hbefore)
    have hopen : storage.open? path = .ok (.directory entries) :=
      open?_eq_ok_iff.mpr ⟨_, hlocate.trans hroute, hat⟩
    rw [isDirectory, hopen]

/-- A new directory at the end of a way completes the way. -/
theorem update_withWay {occupant? : Location → Option Occupant} (name : Name) :
    Function.update (withWay occupant? location names) (location ++ names ++ [name])
      (some .directory) = withWay occupant? location (names ++ [name]) := by
  funext other
  have hiff : other <+: location ++ (names ++ [name]) ↔
      other = location ++ names ++ [name] ∨ other <+: location ++ names := by
    rw [← List.append_assoc, List.prefix_concat_iff]
  rw [Function.update_apply, withWay, withWay]
  simp only [hiff]
  by_cases heq : other = location ++ names ++ [name]
  · simp [heq]
  · simp only [heq, if_false, false_or]

/-- A directory that cannot be made, but not for want of the one above it, may be there already. -/
theorem makeDirectoriesOf_cons {path : Path} (hpath : path.text ≠ []) {fault : Fault}
    (hmake : storage.makeDirectory path = .error fault) (hfault : fault ≠ .notFound)
    (above : List Path) :
    storage.makeDirectoriesOf (path :: above) =
      if storage.isDirectory path then (.ok (), storage) else (.error fault, storage) := by
  rw [makeDirectoriesOf, if_neg (by simpa using hpath), hmake]
  cases fault <;> first | rfl | exact absurd rfl hfault

/-- No directory is made for a path that cannot be looked up. -/
theorem makeDirectories_of_pathFault? {path : Path} (hpath : path.text ≠ []) {fault : Fault}
    (h : Storage.pathFault? path = some fault) :
    storage.makeDirectories path = (.error fault, storage) := by
  have hmake : storage.makeDirectory path = .error fault := by rw [makeDirectory, place, h]
  have hno : ¬ storage.isDirectory path = true := by
    rw [isDirectory, open?, locate, h]
    exact Bool.false_ne_true
  have hfault : fault ≠ .notFound := by
    rintro rfl
    rw [Storage.pathFault?, if_neg (c := path.text.isEmpty = true) (by simpa using hpath)] at h
    grind
  rw [makeDirectories, makeDirectoriesOf_cons hpath hmake hfault, if_neg hno]

/-- A path that leads somewhere is a directory. -/
theorem LeadsTo.isDirectory {path : Path} (h : storage.LeadsTo path location) :
    storage.isDirectory path = true := by
  obtain ⟨entries, hat⟩ := Node.occupant?_eq_directory_iff.mp h.directory
  rw [Storage.isDirectory, open?_eq_ok_iff.mpr ⟨location, h.locate, hat⟩]

/-- A directory that is there need not be made. -/
theorem LeadsTo.makeDirectories {path : Path} (h : storage.LeadsTo path location) :
    storage.makeDirectories path = (.ok (), storage) := by
  rw [Storage.makeDirectories, makeDirectoriesOf_cons h.text_ne_empty h.makeDirectory (by simp),
    if_pos h.isDirectory]

end MakeDirectories

/-- What making the directories on a way comes to: a directory at every location on it, unless a file
is in the way; then nothing is changed. -/
structure MakesWay (storage : Storage) (location : Location) (names : List Name)
    (result : Except Fault Unit × Storage) : Prop where
  made : Unblocked storage.root.occupant? location names → ∃ root : Node,
    result = (.ok (), { storage with root }) ∧ root.Ordered ∧
      root.occupant? = withWay storage.root.occupant? location names
  blocked : ¬ Unblocked storage.root.occupant? location names →
    ∃ fault, result = (.error fault, storage)

namespace MakesWay

variable {storage : Storage} {location : Location} {names : List Name}

/-- No file is in a way that is made. -/
theorem of_root {root : Node} (hroot : root.Ordered)
    (hfree : Unblocked storage.root.occupant? location names)
    (hoccupant : root.occupant? = withWay storage.root.occupant? location names) :
    MakesWay storage location names (.ok (), { storage with root }) where
  made _ := ⟨root, rfl, hroot, hoccupant⟩
  blocked hblocked := absurd hfree hblocked

/-- A way to a directory is there already. -/
theorem of_directory (hordered : storage.root.Ordered)
    (h : storage.root.occupant? (location ++ names) = some .directory) :
    MakesWay storage location names (.ok (), storage) :=
  .of_root hordered (unblocked_of_directory h) (withWay_of_directory h).symm

/-- A way that is blocked is not made, whatever the fault. -/
theorem of_fault (h : ¬ Unblocked storage.root.occupant? location names) (fault : Fault) :
    MakesWay storage location names (.error fault, storage) where
  made hfree := absurd hfree h
  blocked _ := ⟨fault, rfl⟩

end MakesWay

section MakesWay

variable {storage : Storage} {base : Path} {location : Location}
  (h : storage.LeadsTo base location) (hordered : storage.root.Ordered)
  {names : List Name} (hnames : ∀ name ∈ names, IsEntryName name ∧ name.length ≤ maxNameSize)
  {name : Name} (hname : IsEntryName name ∧ name.length ≤ maxNameSize)
  (hfault : pathFault? (base.within (names ++ [name])) = none)

include h hnames hname

/-- The parts within a base are those of the base and the names, the last of which is named
apart. -/
theorem parts_within_concat :
    (base.within (names ++ [name])).parts = base.front ++ (names ++ [name]).map .later := by
  refine Path.parts_within h.text_ne_empty ?_ (by simp)
  simp only [List.forall_mem_append, List.forall_mem_singleton]
  exact ⟨fun other hother => (hnames other hother).1, hname.1⟩

include hfault

/-- The last directory on a way is there when the tree has one. -/
theorem isDirectory_within_concat : storage.isDirectory (base.within (names ++ [name])) = true ↔
    storage.root.occupant? (location ++ names ++ [name]) = some .directory := by
  rw [List.append_assoc]
  refine h.isDirectory_iff ?_ hfault (parts_within_concat h hnames hname)
  exact List.forall_mem_append.mpr ⟨hnames, List.forall_mem_singleton.mpr hname⟩

/-- The way to the last directory can be looked up. -/
theorem pathFault?_within_of_concat : pathFault? (base.within names) = none := by
  refine pathFault?_of_isPrefix (Path.within_text_ne_empty h.text_ne_empty
    fun other hother => (hnames other hother).1) ?_ hfault
  refine Path.ofParts_isPrefix ((Path.withoutSilent_isPrefix _).trans ?_)
  rw [parts_within_concat h hnames hname, List.map_append, ← List.append_assoc]
  exact List.prefix_append _ _

/-- A file before the last directory is in the way. -/
theorem makesWay_of_blocked (hway : ¬ Unblocked storage.root.occupant? location names) :
    MakesWay storage location (names ++ [name])
      (storage.makeDirectories (base.within (names ++ [name]))) := by
  have hblocked := makeDirectory_blocked h hnames hname hfault
    (parts_within_concat h hnames hname) hway
  have hno : ¬ storage.isDirectory (base.within (names ++ [name])) = true := fun hdirectory =>
    hway (unblocked_of_directory (by
      simpa using (isDirectory_within_concat h hnames hname hfault).mp hdirectory)).of_append
  rw [makeDirectories, makeDirectoriesOf_cons (text_ne_empty_of_pathFault? hfault) hblocked (by simp),
    if_neg hno]
  exact .of_fault (fun hfree => hway hfree.of_append) _

include hordered

/-- Where all directories but the last are there, and something has the name of the last, nothing is
made. -/
theorem makesWay_of_occupied
    (hend : storage.root.occupant? (location ++ names) = some .directory) {occupant : Occupant}
    (hlast : storage.root.occupant? (location ++ names ++ [name]) = some occupant) :
    MakesWay storage location (names ++ [name])
      (storage.makeDirectories (base.within (names ++ [name]))) := by
  have hmake := makeDirectory_of_directory h hnames hname hfault
    (parts_within_concat h hnames hname) hend
  have hthere := isDirectory_within_concat h hnames hname hfault
  rw [hlast, Option.isSome_some, if_pos rfl] at hmake
  rw [makeDirectories, makeDirectoriesOf_cons (text_ne_empty_of_pathFault? hfault) hmake (by simp)]
  cases occupant with
  | file content =>
    have hno : ¬ storage.isDirectory (base.within (names ++ [name])) = true := by
      rw [hthere, hlast]
      simp
    rw [if_neg hno]
    exact .of_fault
      (fun hfree => hfree _ List.prefix_rfl content (by rw [← List.append_assoc, hlast])) _
  | directory =>
    rw [if_pos (hthere.mpr hlast)]
    exact .of_directory hordered (by rw [← List.append_assoc, hlast])

/-- Where all directories but the last are there, the last is made. -/
theorem makesWay_of_last
    (hend : storage.root.occupant? (location ++ names) = some .directory)
    (hlast : storage.root.occupant? (location ++ names ++ [name]) = none) :
    MakesWay storage location (names ++ [name])
      (storage.makeDirectories (base.within (names ++ [name]))) := by
  obtain ⟨root, hnew, hroot, hupdate⟩ := makeDirectory_new h hnames hname hfault
    (parts_within_concat h hnames hname) hordered hend hlast
  rw [makeDirectories, makeDirectoriesOf,
    if_neg (by simpa using text_ne_empty_of_pathFault? hfault), hnew]
  refine .of_root hroot ((unblocked_of_directory hend).concat
    fun content hfile => nomatch hlast.symm.trans hfile) ?_
  rw [hupdate, ← update_withWay, withWay_of_directory hend]

omit hordered

/-- Where the directory before the last is missing, the way to it is made first. -/
theorem makesWay_of_missing (hway : Unblocked storage.root.occupant? location names)
    (hend : storage.root.occupant? (location ++ names) = none)
    (hbefore : MakesWay storage location names (storage.makeDirectories (base.within names))) :
    MakesWay storage location (names ++ [name])
      (storage.makeDirectories (base.within (names ++ [name]))) := by
  have hparts := parts_within_concat h hnames hname
  have habove := Path.parents_eq_within h.text_ne_empty
    (fun other hother => (hnames other hother).1) hname.1 hparts
  have hnone : storage.root.occupant? (location ++ names ++ [name]) = none := by
    by_contra hsome
    simp [Node.occupant?_of_append_singleton hsome] at hend
  obtain ⟨middle, hmade, hmiddle, hoccupant⟩ := hbefore.made hway
  have hleads : LeadsTo { storage with root := middle } base location := by
    refine h.mono rfl fun place hplace => ?_
    change middle.occupant? place = _
    rw [hoccupant, withWay]
    split
    · rfl
    · exact hplace
  have hnone' : middle.occupant? (location ++ names ++ [name]) = none := by
    rw [hoccupant, withWay, if_neg, hnone]
    exact fun hbetween => absurd hbetween.2.length_le (by simp)
  obtain ⟨root, hnew, hroot, hupdate⟩ := makeDirectory_new hleads hnames hname hfault hparts
    hmiddle (by simp [hoccupant, withWay]) hnone'
  have hresult : storage.makeDirectories (base.within (names ++ [name])) =
      (.ok (), { storage with root }) := by
    rw [makeDirectories, makeDirectoriesOf,
      if_neg (by simpa using text_ne_empty_of_pathFault? hfault),
      makeDirectory_missing h hnames hname hfault hparts hway hend, habove]
    rw [makeDirectories] at hmade
    simp only [hmade, hnew]
  rw [hresult]
  refine .of_root hroot (hway.concat fun content hfile => nomatch hnone.symm.trans hfile) ?_
  rw [hupdate]
  change Function.update middle.occupant? _ _ = _
  rw [hoccupant, update_withWay]

end MakesWay

/-- Making the directories on a way makes a directory of every location on it, unless a file is in
the way; then nothing is changed. -/
theorem makeDirectories_within {storage : Storage} {base : Path} {location : Location}
    (h : storage.LeadsTo base location) (hordered : storage.root.Ordered) {names : List Name}
    (hnames : ∀ name ∈ names, IsEntryName name ∧ name.length ≤ maxNameSize)
    (hfault : pathFault? (base.within names) = none) :
    MakesWay storage location names (storage.makeDirectories (base.within names)) := by
  -- The last directory is made after those before it.
  induction names using List.reverseRecOn with
  | nil =>
    rw [h.within_nil.makeDirectories]
    exact .of_directory hordered (by simpa using h.directory)
  | append_singleton names name ih =>
    simp only [List.forall_mem_append, List.forall_mem_singleton] at hnames
    obtain ⟨hbefore, hname⟩ := hnames
    by_cases hway : Unblocked storage.root.occupant? location names
    · cases hend : storage.root.occupant? (location ++ names) with
      | none =>
        exact makesWay_of_missing h hbefore hname hfault hway hend
          (ih hbefore (pathFault?_within_of_concat h hbefore hname hfault))
      | some occupant =>
        cases occupant with
        | file content => exact absurd hend (hway names List.prefix_rfl content)
        | directory =>
          cases hlast : storage.root.occupant? (location ++ names ++ [name]) with
          | none => exact makesWay_of_last h hordered hbefore hname hfault hend hlast
          | some occupant => exact makesWay_of_occupied h hordered hbefore hname hfault hend hlast
    · exact makesWay_of_blocked h hbefore hname hfault hway

end Carta.Storage
