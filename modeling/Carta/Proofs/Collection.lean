import Carta.Command.Plan
import Carta.Proofs.Directories
import Carta.Proofs.Names

/-!
# What is collected and where its mapfiles are

The projects below a directory are the files with the extension of one, by the names that lead to
them; a directory whose path is too long to be looked at is not entered, and is taken for a project
when it has that extension. The mapfile of a project below a directory has the same names before its
own, below the output, and is never called like a project.
-/

namespace Carta

namespace Path

/-- Whether a name is that of a project file. -/
def isProjectName (name : Name) : Bool :=
  (splitName name).2.any fun extension =>
    Name.lowerAscii extension = "qgs" || Name.lowerAscii extension = "qgz"

/-- A path is that of a project file when its last name is. -/
theorem isProjectFile_eq (path : Path) :
    Command.isProjectFile path = path.fileName?.any isProjectName := by
  rw [Command.isProjectFile, extension?]
  cases path.fileName? <;> rfl

/-- The extension of a mapfile, with the dot before it. -/
def mapEnding : Name := ".map"

/-- The name of a mapfile for that of a project. -/
def mapName (name : Name) : Name :=
  (splitName name).1 ++ mapEnding

/-- The bytes of a stem are among those of its name. -/
theorem stem_subset (name : Name) : (splitName name).1 ⊆ name := by
  rw [splitName]
  split
  next c stem hstem =>
    split
    next => exact List.Subset.refl _
    next =>
      intro d hd
      have hmem : d ∈ name.reverse.dropWhile (· ≠ Name.dot) :=
        hstem ▸ List.mem_cons_of_mem _ (List.mem_reverse.mp hd)
      exact List.mem_reverse.mp ((List.dropWhile_suffix _).subset hmem)
  next => exact List.Subset.refl _

/-- What is a mapfile is no project. -/
theorem isProjectName_mapName (name : Name) : isProjectName (mapName name) = false := by
  have hending : mapEnding.reverse = [0x70, 0x61, 0x6D, Name.dot] := by decide +kernel
  have hreverse : (mapName name).reverse =
      [0x70, 0x61, 0x6D, Name.dot] ++ (splitName name).1.reverse := by
    rw [mapName, List.reverse_append, hending]
  have htake : (mapName name).reverse.takeWhile (· ≠ Name.dot) = [0x70, 0x61, 0x6D] := by
    rw [hreverse]
    rfl
  have hdrop : (mapName name).reverse.dropWhile (· ≠ Name.dot) =
      Name.dot :: (splitName name).1.reverse := by
    rw [hreverse]
    rfl
  rw [isProjectName, splitName, hdrop, htake]
  dsimp only
  split
  next => rfl
  next =>
    dsimp only [Option.any_some]
    decide +kernel

/-- The name of a mapfile leads from a directory to what is in it. -/
theorem isEntryName_mapName {name : Name} (h : IsEntryName name) : IsEntryName (mapName name) := by
  have hmem {b : UInt8} (hb : b ∈ mapName name) : b ∈ name ∨ b ∈ mapEnding :=
    (List.mem_append.mp hb).imp_left fun hstem => stem_subset name hstem
  have hending : mapEnding.length = 4 := by decide +kernel
  have hlong {other : Name} (hother : other.length < 4) : mapName name ≠ other := by
    rintro rfl
    rw [mapName, List.length_append, hending] at hother
    exact absurd hother (Nat.not_lt.mpr (Nat.le_add_left 4 _))
  refine ⟨hlong (by decide), hlong (by decide), hlong (by decide), ?_, ?_⟩
  · exact fun hslash => (hmem hslash).elim h.noSlash (by decide +kernel)
  · exact fun hnul => (hmem hnul).elim h.noNul (by decide +kernel)

/-- A name that is divided at a dot is what is before it, the dot and what is after it. -/
theorem splitName_append {name extension : Name} (h : (splitName name).2 = some extension) :
    (splitName name).1 ++ [Name.dot] ++ extension = name := by
  rw [splitName] at h ⊢
  split at h
  next b stem hstem =>
    split at h
    next => cases h
    next hne =>
      obtain rfl := Option.some.inj h
      have hdot : b = Name.dot := by
        have hhead := List.head?_dropWhile_not (· ≠ Name.dot) name.reverse
        rw [hstem] at hhead
        simpa using hhead
      have hname := List.takeWhile_append_dropWhile (p := (· ≠ Name.dot)) (l := name.reverse)
      rw [hstem, hdot] at hname
      rw [if_neg hne]
      refine List.reverse_injective ?_
      simpa using hname
  next => cases h

/-- The name of a mapfile has the size of that of its project. -/
theorem length_mapName {name : Name} (h : isProjectName name = true) :
    (mapName name).length = name.length := by
  rw [isProjectName] at h
  obtain ⟨extension, hextension⟩ : ∃ extension, (splitName name).2 = some extension := by
    rw [← Option.ne_none_iff_exists']
    intro hnone
    rw [hnone] at h
    cases h
  rw [hextension, Option.any_some, Bool.or_eq_true, decide_eq_true_eq, decide_eq_true_eq] at h
  have hlower : extension.length = (Name.lowerAscii extension).length := by
    rw [Name.lowerAscii, List.length_map]
  have hsize : extension.length = 3 := by
    rcases h with h | h <;>
    · rw [hlower, h]
      decide +kernel
  have hending : mapEnding.length = 4 := by decide +kernel
  nth_rewrite 2 [← splitName_append hextension]
  rw [mapName, List.length_append, List.length_append, List.length_append, hsize, hending]
  rfl

section Relative

/-- Beginning with the components of parts leaves what comes after these, but for what says
nothing. -/
theorem exists_dropComponents (parts more : List PathPart) : ∃ silent,
    dropComponents (parts.filterMap (·.component)) (parts ++ more) = some (silent ++ more) ∧
      ∀ part ∈ silent, part.component = none := by
  induction parts with
  | nil => exact ⟨[], by simp [dropComponents], nofun⟩
  | cons part rest ih =>
    obtain ⟨silent, hsilent, hnone⟩ := ih
    cases hpart : part.component with
    | some component =>
      rw [List.filterMap_cons_some hpart, List.cons_append, dropComponents, hpart]
      exact ⟨silent, by simpa using hsilent, hnone⟩
    | none =>
      rw [List.filterMap_cons_none hpart, List.cons_append]
      cases hrest : rest.filterMap (·.component) with
      | nil =>
        refine ⟨part :: rest, rfl, ?_⟩
        rw [List.forall_mem_cons]
        exact ⟨hpart, List.filterMap_eq_nil_iff.mp hrest⟩
      | cons component components =>
        rw [hrest] at hsilent
        rw [dropComponents, hpart]
        exact ⟨silent, hsilent, hnone⟩

/-- Parts that say nothing are dropped before others. -/
theorem dropSilent_append {silent : List PathPart} (h : ∀ part ∈ silent, part.component = none)
    (parts : List PathPart) : dropSilent (silent ++ parts) = dropSilent parts :=
  List.dropWhile_append_of_pos fun part hpart => by simp [h part hpart]

/-- Names are kept where what says nothing is dropped. -/
theorem ofParts_names {names : List Name} (h : ∀ name ∈ names, IsEntryName name) :
    ofParts (withoutSilent (dropSilent (names.map .later))) = ⟨[Name.slash].intercalate names⟩ := by
  have hdrop : dropSilent (names.map .later) = names.map .later := by
    cases names with
    | nil => rfl
    | cons name rest =>
      rw [List.map_cons, dropSilent, List.dropWhile_cons_of_neg]
      simp [later_of_isEntryName (h name List.mem_cons_self)]
  have hkept : withoutSilent (names.map .later) = names.map .later := by
    cases names using List.reverseRecOn with
    | nil => rfl
    | append_singleton rest name =>
      rw [List.map_append]
      exact withoutSilent_append_later _ (laterComponent_of_isEntryName (h name (by simp)))
  rw [hdrop, hkept]
  unfold ofParts
  split
  next hroot =>
    cases names with
    | nil => cases hroot
    | cons name rest =>
      have hname := congrArg PathPart.text (List.cons.inj hroot).1
      exact absurd hname (h name List.mem_cons_self).ne_empty
  next => simp [Function.comp_def, PathPart.later]

variable {root : Path} (hroot : root.text ≠ []) {names : List Name}
  (hnames : ∀ name ∈ names, IsEntryName name)

include hroot hnames

/-- Of a path within another one, beyond what says nothing, the names are left. -/
theorem exists_dropComponents_within : ∃ silent : List PathPart,
    dropComponents root.components (root.within names).parts = some (silent ++ names.map .later) ∧
      ∀ part ∈ silent, part.component = none := by
  by_cases hne : names = []
  · obtain ⟨rest, hrest, hsilent⟩ := exists_silent root.front
    have hcomponents : root.components =
        (withoutSilent root.front).filterMap (·.component) := by
      rw [← components_front]
      nth_rewrite 1 [hrest]
      rw [List.filterMap_append, List.filterMap_eq_nil_iff.mpr hsilent, List.append_nil]
    have hcases := parts_within_cases hroot hnames
    rw [hne, List.map_nil, List.append_nil] at hcases
    rw [hne, hcomponents, List.map_nil]
    rcases hcases with hparts | hparts
    · obtain ⟨silent, hdrop, hnone⟩ := exists_dropComponents (withoutSilent root.front) []
      rw [List.append_nil] at hdrop
      exact ⟨silent, by rw [hparts]; exact hdrop, hnone⟩
    · obtain ⟨silent, hdrop, hnone⟩ :=
        exists_dropComponents (withoutSilent root.front) [⟨[], none⟩]
      refine ⟨silent ++ [⟨[], none⟩], by rw [hparts, List.append_nil]; exact hdrop, ?_⟩
      simpa [or_imp, forall_and] using hnone
  · rw [parts_within hroot hnames hne, ← components_front]
    exact exists_dropComponents _ _

variable {name : Name} (hname : IsEntryName name)

include hname

/-- The components of what is below a path end with its name. -/
theorem fileName?_descend : (root.descend (names ++ [name])).fileName? = some name := by
  have hall := List.forall_mem_append.mpr ⟨hnames, List.forall_mem_singleton.mpr hname⟩
  have hcomponents : (root.descend (names ++ [name])).components =
      (root.front ++ names.map PathPart.later).filterMap (·.component) ++ [.name name] := by
    rw [components, parts_descend hroot hall (by simp), List.map_append, ← List.append_assoc,
      List.filterMap_append, List.map_singleton, later_of_isEntryName hname]
    rfl
  rw [fileName?, hcomponents, List.getLast?_concat]

/-- What is below a path is a project when it has the name of one. -/
theorem isProjectFile_descend :
    Command.isProjectFile (root.descend (names ++ [name])) = isProjectName name := by
  rw [isProjectFile_eq, fileName?_descend hroot hnames hname, Option.any_some]

/-- A project is found below its root by the names before its own. -/
theorem relativeDirectory_descend :
    Command.relativeDirectory root (root.descend (names ++ [name])) = ⟨[Name.slash].intercalate names⟩ := by
  have hall := List.forall_mem_append.mpr ⟨hnames, List.forall_mem_singleton.mpr hname⟩
  have hparts := parts_descend hroot hall (by simp)
  have hparent : (root.descend (names ++ [name])).parent? = some (root.within names) := by
    rw [parent?, parents_eq_within hroot hnames hname hparts]
    rfl
  have hrelative : (root.within names).relativeTo? root = some ⟨[Name.slash].intercalate names⟩ := by
    obtain ⟨silent, hdrop, hsilent⟩ := exists_dropComponents_within hroot hnames
    have hkept : withoutSilent (dropSilent (silent ++ names.map .later)) =
        withoutSilent (dropSilent (names.map .later)) := by rw [dropSilent_append hsilent]
    rw [relativeTo?, hdrop, Option.map_some, ← ofParts_names hnames, ← hkept]
    rfl
  rw [Command.relativeDirectory, if_neg (by simpa using hroot), hparent, Option.bind_some, hrelative]
  rfl

end Relative

/-- The mapfile of a project is called by the stem of the project, when that is a text. -/
theorem mapFileFor_eq_ok_iff {root path output mapFile : Path} :
    Command.mapFileFor root path output = .ok mapFile ↔
      ∃ stem, path.fileStem? = some stem ∧ Name.isText stem = true ∧
        mapFile = (output.join (Command.relativeDirectory root path)).join ⟨stem ++ mapEnding⟩ := by
  rw [Command.mapFileFor]
  cases path.fileStem? with
  | none => simp
  | some stem =>
    cases htext : Name.text? stem with
    | none => simp [htext, Name.isText]
    | some text =>
      have hname : Text.Utf8.encode (text ++ ".map") = stem ++ mapEnding := by
        rw [Text.Utf8.encode_append, Name.text?_eq_some_iff.mp htext, mapEnding]
      simp only [Option.bind_some, htext, hname, Name.isText, Except.ok.injEq, Option.some.injEq]
      constructor
      · rintro rfl
        exact ⟨stem, rfl, by rw [htext, Option.isSome_some], rfl⟩
      · rintro ⟨_, rfl, -, rfl⟩
        rfl

section Mapfiles

variable {output : Path} (houtput : output.text ≠ []) {names : List Name}
  (hnames : ∀ name ∈ names, IsEntryName name)

include hnames

/-- Names that are joined by slashes are no absolute path. -/
theorem isAbsolute_intercalate : isAbsolute ⟨[Name.slash].intercalate names⟩ = false := by
  cases names with
  | nil => rfl
  | cons name rest =>
    rw [List.forall_mem_cons] at hnames
    have hhead : ([Name.slash].intercalate (name :: rest)).head? = name.head? := by
      cases rest with
      | nil => simp
      | cons next rest =>
        rw [List.intercalate_cons_cons, List.append_assoc]
        exact List.head?_append_of_ne_nil _ hnames.1.ne_empty
    have hname := isAbsolute_name hnames.1
    rwa [isAbsolute, ← hhead] at hname

include houtput

/-- A path has the parts of names that are joined to it, and an empty one when there are none. -/
theorem front_join_intercalate :
    (output.join ⟨[Name.slash].intercalate names⟩).front = output.front ++ names.map .later := by
  have hrelative := isAbsolute_intercalate hnames
  rw [front, texts_join output hrelative, parts_join houtput hrelative]
  cases names using List.reverseRecOn with
  | nil =>
    have hempty : texts ⟨[Name.slash].intercalate []⟩ = [[]] := by decide
    rw [hempty, List.getLast?_concat, if_pos rfl, List.map_singleton, List.dropLast_concat]
    simp
  | append_singleton before last =>
    have hlast : last ≠ [] := (hnames last (by simp)).ne_empty
    rw [texts_intercalate (by simp) fun name hname => (hnames name hname).noSlash, ← List.append_assoc,
      List.getLast?_concat, if_neg (by simpa using hlast)]

/-- The parts of a name below names below the output. -/
theorem parts_join_join {name : Name} (hname : IsEntryName name) :
    ((output.join ⟨[Name.slash].intercalate names⟩).join ⟨name⟩).parts =
      output.front ++ (names ++ [name]).map .later := by
  have hne : (output.join ⟨[Name.slash].intercalate names⟩).text ≠ [] := by
    intro hempty
    have hfront := front_join_intercalate houtput hnames
    obtain ⟨first, rest, -, hparts⟩ := exists_front_eq houtput
    have hpath : output.join ⟨[Name.slash].intercalate names⟩ = ⟨[]⟩ := by
      rw [← Path.mk.injEq] at hempty
      exact hempty
    rw [hpath, hparts] at hfront
    cases hfront
  rw [parts_join hne (isAbsolute_name hname), front_join_intercalate houtput hnames,
    texts_eq_singleton hname.noSlash, List.map_append, List.append_assoc]

/-- The mapfile of a project below a directory has the same names, but for the extension, below the
output. -/
theorem parts_of_mapFileFor_descend {root : Path} (hroot : root.text ≠ []) {name : Name}
    (hname : IsEntryName name) {mapFile : Path}
    (h : Command.mapFileFor root (root.descend (names ++ [name])) output = .ok mapFile) :
    mapFile.parts = output.front ++ (names ++ [mapName name]).map .later := by
  obtain ⟨stem, hstem, -, rfl⟩ := mapFileFor_eq_ok_iff.mp h
  rw [fileStem?, fileName?_descend hroot hnames hname, Option.map_some, Option.some.injEq] at hstem
  rw [relativeDirectory_descend hroot hnames hname, ← hstem]
  exact parts_join_join houtput hnames (isEntryName_mapName hname)

end Mapfiles

end Path

namespace Command

/-- The names in a tree lead from directories to what is in them, and are not too long. -/
def Named (tree : Storage.Node) : Prop :=
  ∀ location name, tree.occupant? (location ++ [name]) ≠ none →
    IsEntryName name ∧ name.length ≤ Storage.maxNameSize

/-- Names that lead to something are those of entries. -/
theorem Named.of_append {tree : Storage.Node} (h : Named tree) {location : Storage.Location}
    {names : List Name} (hsome : tree.occupant? (location ++ names) ≠ none) :
    ∀ name ∈ names, IsEntryName name ∧ name.length ≤ Storage.maxNameSize := by
  intro name hname
  obtain ⟨before, after, rfl⟩ := List.append_of_mem hname
  have hmore : tree.occupant? (location ++ before ++ [name] ++ after) ≠ none := by simpa using hsome
  exact h (location ++ before) name (Storage.occupant?_ne_none_of_append hmore)

/-- What is collected at a path: a project file, or what has the extension of one and a path that
is too long to be looked at. -/
def IsCollected (project : Path) (node : Storage.Node) : Prop :=
  isProjectFile project = true ∧
    ((∃ content, node = .file content) ∨ Storage.pathFault? project ≠ none)

mutual

/-- Every project that is collected below a node is below it by some names. -/
theorem exists_of_mem_projectsBelow {project : Path} (path : Path) :
    ∀ node : Storage.Node, node.Ordered → project ∈ projectsBelow path node →
      ∃ names found, names ≠ [] ∧ node.at? names = some found ∧ project = path.descend names ∧
        IsCollected project found
  | .file _, _, h => nomatch h
  | .directory entries, hordered, h =>
    exists_of_mem_projectsAmong path entries hordered (List.mem_mergeSort.mp h)

/-- Every project that is collected among entries is below them by some names. -/
theorem exists_of_mem_projectsAmong {project : Path} (path : Path) :
    ∀ entries : Storage.Entries, (Storage.Node.directory entries).Ordered →
      project ∈ projectsAmong path entries →
      ∃ names found, names ≠ [] ∧ (Storage.Node.directory entries).at? names = some found ∧
        project = path.descend names ∧ IsCollected project found
  | [], _, h => nomatch h
  | (name, node) :: rest, hordered, h => by
    have hfirst := Storage.Entries.get?_cons_self name node rest
    rw [projectsAmong] at h
    rcases List.mem_append.mp h with h | h
    · split at h
      next hnode =>
        obtain ⟨names, found, hne, hfound, hproject, hcollected⟩ :=
          exists_of_mem_projectsBelow _ node (hordered.child hfirst) h
        refine ⟨name :: names, found, List.cons_ne_nil _ _, ?_, hproject, hcollected⟩
        rw [Storage.Node.at?_directory_cons, hfirst, Option.bind_some, hfound]
      next hnode =>
        split at h
        next hproject =>
          obtain rfl := List.mem_singleton.mp h
          refine ⟨[name], node, List.cons_ne_nil _ _, ?_, rfl, hproject, ?_⟩
          · rw [Storage.Node.at?_directory_cons, hfirst, Option.bind_some, Storage.Node.at?_nil]
          · cases node with
            | file content => exact .inl ⟨content, rfl⟩
            | directory entries => exact .inr (by simpa [Storage.Node.isDirectory] using hnode)
        next => cases h
    · obtain ⟨names, found, hne, hfound, hproject, hcollected⟩ :=
        exists_of_mem_projectsAmong path rest hordered.tail h
      refine ⟨names, found, hne, ?_, hproject, hcollected⟩
      obtain ⟨first, more, rfl⟩ := List.exists_cons_of_ne_nil hne
      rw [Storage.Node.at?_directory_cons] at hfound ⊢
      obtain ⟨child, hchild, hat⟩ := Option.bind_eq_some_iff.mp hfound
      rw [Storage.Entries.get?_cons_of_get? hordered.entries hchild]
      exact hat

end

mutual

/-- A project file below a node is collected, unless its path is too long. -/
theorem mem_projectsBelow {path : Path} (hpath : path.text ≠ []) {content : List UInt8} :
    ∀ (node : Storage.Node) {names : List Name}, names ≠ [] →
      (∀ name ∈ names, IsEntryName name) → node.at? names = some (.file content) →
      isProjectFile (path.descend names) = true →
      Storage.pathFault? (path.descend names) = none →
      path.descend names ∈ projectsBelow path node
  | .file _, _, hne, _, hat, _, _ => by
    obtain ⟨first, more, rfl⟩ := List.exists_cons_of_ne_nil hne
    cases hat
  | .directory entries, _, hne, hnames, hat, hproject, hfault =>
    List.mem_mergeSort.mpr (mem_projectsAmong hpath entries hne hnames hat hproject hfault)

/-- A project file below entries is collected, unless its path is too long. -/
theorem mem_projectsAmong {path : Path} (hpath : path.text ≠ []) {content : List UInt8} :
    ∀ (entries : Storage.Entries) {names : List Name}, names ≠ [] →
      (∀ name ∈ names, IsEntryName name) →
      (Storage.Node.directory entries).at? names = some (.file content) →
      isProjectFile (path.descend names) = true →
      Storage.pathFault? (path.descend names) = none →
      path.descend names ∈ projectsAmong path entries
  | [], _, hne, _, hat, _, _ => by
    obtain ⟨first, more, rfl⟩ := List.exists_cons_of_ne_nil hne
    cases hat
  | (name, node) :: rest, names, hne, hnames, hat, hproject, hfault => by
    obtain ⟨first, more, rfl⟩ := List.exists_cons_of_ne_nil hne
    rw [Storage.Node.at?_directory_cons, Storage.Entries.get?] at hat
    rw [projectsAmong]
    split at hat
    next heq =>
      obtain rfl := heq
      rw [Option.bind_some] at hat
      rw [List.forall_mem_cons] at hnames
      have hhere := @Path.join_text_ne_empty path ⟨name⟩ hnames.1.ne_empty
      refine List.mem_append_left _ ?_
      cases more with
      | nil =>
        obtain rfl : node = .file content := by simpa using hat
        have hhere : isProjectFile (path.join ⟨name⟩) = true := hproject
        simp only [Storage.Node.isDirectory, Bool.false_and, Bool.false_eq_true, if_false]
        rw [if_pos hhere]
        exact List.mem_singleton_self _
      | cons next more =>
        have hfine : Storage.pathFault? (path.join ⟨name⟩) = none :=
          Storage.pathFault?_of_isPrefix hhere (Path.descend_isPrefix _ hnames.2) hfault
        have hdirectory : node.isDirectory = true := by
          cases node with
          | file content => cases hat
          | directory entries => rfl
        rw [if_pos (by simp [hfine, hdirectory])]
        exact mem_projectsBelow hhere node (List.cons_ne_nil _ _) hnames.2 hat hproject hfault
    next heq =>
      have hrest : (Storage.Node.directory rest).at? (first :: more) = some (.file content) := by
        rw [Storage.Node.at?_directory_cons]
        exact hat
      exact List.mem_append_right _ (mem_projectsAmong hpath rest hne hnames hrest hproject hfault)

end

/-- What is collected below a directory: the project files, but for those whose path is too long,
and nothing that is not below it. -/
theorem mem_collectProjects {storage : Storage} {path : Path} {projects : List Path}
    (h : collectProjects storage path = .ok projects) : ∃ location,
      storage.LeadsTo path location ∧
      (storage.root.Ordered → ∀ project ∈ projects, ∃ names found, names ≠ [] ∧
        storage.root.at? (location ++ names) = some found ∧ project = path.descend names ∧
        IsCollected project found) ∧
      ∀ names content, names ≠ [] → (∀ name ∈ names, IsEntryName name) →
        storage.root.at? (location ++ names) = some (.file content) →
        isProjectFile (path.descend names) = true →
        Storage.pathFault? (path.descend names) = none → path.descend names ∈ projects := by
  rw [collectProjects, bind_eq_ok_iff] at h
  obtain ⟨entries, hentries, hprojects⟩ := h
  obtain rfl := Except.ok.inj hprojects
  rw [Storage.entries] at hentries
  split at hentries
  next => cases hentries
  next => cases hentries
  next found hopen =>
    obtain rfl := Except.ok.inj hentries
    obtain ⟨location, hlocate, hat⟩ := Storage.open?_eq_ok_iff.mp hopen
    have hleads : storage.LeadsTo path location :=
      ⟨hlocate, Storage.Node.occupant?_eq_directory_iff.mpr ⟨_, hat⟩⟩
    refine ⟨location, hleads, ?_, ?_⟩
    · intro hordered project hproject
      have hbelow : (Storage.Node.directory found).Ordered := by
        intro other entries hentries
        refine hordered (location ++ other) entries ?_
        rw [Storage.Node.at?_append, hat]
        exact hentries
      obtain ⟨names, node, hne, hnode, hdescend, hcollected⟩ :=
        exists_of_mem_projectsAmong path found hbelow (List.mem_mergeSort.mp hproject)
      refine ⟨names, node, hne, ?_, hdescend, hcollected⟩
      rw [Storage.Node.at?_append, hat]
      exact hnode
    · intro names content hne hnames hfile hproject hfault
      rw [Storage.Node.at?_append, hat] at hfile
      exact List.mem_mergeSort.mpr
        (mem_projectsAmong hleads.text_ne_empty found hne hnames hfile hproject hfault)

/-- A plan has a task for each project, in their order, and no two tasks with the same mapfile. -/
theorem planAfter_eq_ok {root output : Path} {planned tasks : List Task} {projects : List Path}
    (h : planAfter root output planned projects = .ok tasks)
    (hplanned : planned.Pairwise fun first second => ¬ first.mapFile.same second.mapFile = true) :
    (∃ more, tasks = planned ++ more ∧ more.map (·.project) = projects ∧
      ∀ task ∈ more, mapFileFor root task.project output = .ok task.mapFile) ∧
    tasks.Pairwise fun first second => ¬ first.mapFile.same second.mapFile = true := by
  induction projects generalizing planned with
  | nil =>
    obtain rfl := Except.ok.inj h
    exact ⟨⟨[], by simp⟩, hplanned⟩
  | cons project rest ih =>
    rw [planAfter] at h
    split at h
    next => cases h
    next mapFile hmapFile =>
      split at h
      next => cases h
      next hnone =>
        have hnew : ∀ task ∈ planned, ¬ task.mapFile.same mapFile = true := by
          simpa using hnone
        obtain ⟨⟨more, hmore, hprojects, hfiles⟩, hdistinct⟩ := ih h
          (List.pairwise_append.mpr ⟨hplanned, List.pairwise_singleton _ _, fun first hfirst second hsecond =>
            List.mem_singleton.mp hsecond ▸ hnew first hfirst⟩)
        refine ⟨⟨⟨project, mapFile⟩ :: more, by simp [hmore], by simp [hprojects], ?_⟩, hdistinct⟩
        rw [List.forall_mem_cons]
        exact ⟨hmapFile, hfiles⟩

end Command

end Carta
