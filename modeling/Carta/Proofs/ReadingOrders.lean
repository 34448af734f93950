import Carta.Proofs.Completion
import Carta.Proofs.ListedProjects
import Carta.Proofs.WellFormed

/-!
# Directories are read in any order

The entries of a directory may come in any order when it is read, and in another one in every other
directory. The projects that are collected are the same ones in the same order, each of them once and
before those whose components follow its own: they are the files that are called like projects, as
long as no directory has a path that is too long to be looked at.
-/

namespace Carta

namespace Storage

mutual

/-- A node and what is read of it: the entries of every directory come in some order. -/
inductive Node.Reads : Node → Node → Prop
  | file (content : List UInt8) : Node.Reads (.file content) (.file content)
  | directory {entries others read : Entries} (hbelow : ReadsAll entries others)
    (horder : others.Perm read) : Node.Reads (.directory entries) (.directory read)

/-- Entries and what is read of them, one by one. -/
inductive ReadsAll : Entries → Entries → Prop
  | nil : ReadsAll [] []
  | cons {name : Name} {node read : Node} {rest others : Entries} (hnode : Node.Reads node read)
    (hrest : ReadsAll rest others) : ReadsAll ((name, node) :: rest) ((name, read) :: others)

end

/-- Entries with different names are found under them in any order. -/
theorem Entries.get?_eq_of_perm {first second : Entries} (h : first.Perm second)
    (hdistinct : (first.map (·.1)).Nodup) (name : Name) : get? name first = get? name second := by
  induction h with
  | nil => rfl
  | cons entry _ ih =>
    obtain ⟨other, node⟩ := entry
    rw [List.map_cons, List.nodup_cons] at hdistinct
    rw [get?, get?, ih hdistinct.2]
  | swap entry next rest =>
    obtain ⟨other, node⟩ := entry
    obtain ⟨another, found⟩ := next
    have hne : another ≠ other := by
      rw [List.map_cons, List.map_cons, List.nodup_cons] at hdistinct
      exact fun heq => hdistinct.1 (heq ▸ List.mem_cons_self)
    rw [get?, get?, get?, get?]
    by_cases hname : another = name
    · rw [if_pos hname, if_neg (hname ▸ hne.symm), if_pos hname]
    · rw [if_neg hname, if_neg hname]
  | trans hfirst _ ih ih' => exact (ih hdistinct).trans (ih' ((hfirst.map _).nodup hdistinct))

/-- What is read of entries has their names, one by one. -/
theorem ReadsAll.map_names {entries others : Entries} (h : ReadsAll entries others) :
    others.map (·.1) = entries.map (·.1) := by
  induction entries generalizing others with
  | nil =>
    cases h
    rfl
  | cons entry rest ih =>
    cases h with
    | cons hnode hrest => rw [List.map_cons, List.map_cons, ih hrest]

/-- Under each name is what is read of the node that has it. -/
theorem ReadsAll.get? {entries others : Entries} (h : ReadsAll entries others) (name : Name) :
    Option.Rel Node.Reads (Entries.get? name entries) (Entries.get? name others) := by
  induction entries generalizing others with
  | nil =>
    cases h
    exact .none
  | cons entry rest ih =>
    cases h with
    | cons hnode hrest =>
      rw [Entries.get?, Entries.get?]
      split
      next => exact .some hnode
      next => exact ih hrest

/-- At each location is what is read of the node there. -/
theorem Node.Reads.at? {node read : Node} (h : node.Reads read) (hordered : node.Ordered)
    (location : Location) : Option.Rel Node.Reads (node.at? location) (read.at? location) := by
  induction location generalizing node read with
  | nil =>
    rw [Node.at?_nil, Node.at?_nil]
    exact .some h
  | cons name rest ih =>
    cases h with
    | file content => exact .none
    | @directory entries others _ hbelow horder =>
      have hdistinct : (others.map (·.1)).Nodup := by
        rw [hbelow.map_names]
        exact List.pairwise_map.mpr (hordered.entries.imp fun hlt => Std.ne_of_lt hlt)
      rw [Node.at?_directory_cons, Node.at?_directory_cons,
        ← Entries.get?_eq_of_perm horder hdistinct]
      have hname := hbelow.get? name
      generalize hchild : Entries.get? name entries = child at hname ⊢
      generalize Entries.get? name others = other at hname ⊢
      cases hname with
      | none => exact .none
      | some hread => exact ih hread (hordered.child hchild)

/-- What is read of a tree has the same at every location. -/
theorem Node.Reads.occupant? {tree read : Node} (h : tree.Reads read) (hordered : tree.Ordered) :
    read.occupant? = tree.occupant? := by
  funext location
  have hat := h.at? hordered location
  rw [Node.occupant?, Node.occupant?]
  generalize tree.at? location = found at hat ⊢
  generalize read.at? location = again at hat ⊢
  cases hat with
  | none => rfl
  | some hread => cases hread <;> rfl

/-- A path leads to the same directory when what is on the way is read in another order. -/
theorem LeadsTo.of_reads {storage : Storage} {path : Path} {location : Location} {read : Node}
    (h : storage.LeadsTo path location) (hordered : storage.root.Ordered)
    (hread : storage.root.Reads read) : LeadsTo { storage with root := read } path location := by
  have hsame := hread.occupant? hordered
  constructor
  · have hlocate := locate_eq_ok_iff.mp h.locate
    rw [← hsame] at hlocate
    exact locate_eq_ok_iff.mpr hlocate
  · rw [hsame]
    exact h.directory

end Storage

namespace Command

open Storage (Location Node Entries LeadsTo)

section Reading

/-- The projects among entries are those at each of them. -/
theorem projectsAmong_eq_flatMap (path : Path) (entries : Entries) :
    projectsAmong path entries = entries.flatMap fun entry => projectsAt path entry.1 entry.2 := by
  induction entries with
  | nil => rfl
  | cons entry rest ih => rw [projectsAmong_cons, ih, List.flatMap_cons]

/-- What is found at an entry comes in another order when what is below it does. -/
theorem projectsAt_perm {path : Path} {name : Name} {node read : Node} (h : node.Reads read)
    (hbelow : (projectsBelow (path.join ⟨name⟩) node).Perm (projectsBelow (path.join ⟨name⟩) read)) :
    (projectsAt path name node).Perm (projectsAt path name read) := by
  have hsame : node.isDirectory = read.isDirectory := by cases h <;> rfl
  rw [projectsAt, projectsAt, hsame]
  split
  next => exact hbelow
  next => exact .rfl

mutual

/-- The same projects are found below a node in whatever order it is read. -/
theorem projectsBelow_perm (path : Path) : ∀ node read : Node, node.Reads read →
    (projectsBelow path node).Perm (projectsBelow path read)
  | .file _, _, h => by
    cases h
    exact .rfl
  | .directory entries, _, h => by
    cases h with
    | @directory _ others read hbelow horder =>
      have hread : (projectsAmong path others).Perm (projectsAmong path read) := by
        rw [projectsAmong_eq_flatMap, projectsAmong_eq_flatMap]
        exact horder.flatMap_right _
      rw [projectsBelow, projectsBelow]
      exact (sortPaths_perm _).trans (((projectsAmong_perm path entries others hbelow).trans hread).trans
        (sortPaths_perm _).symm)

/-- The same projects are found among entries in whatever order what is below them is read. -/
theorem projectsAmong_perm (path : Path) : ∀ entries others : Entries,
    Storage.ReadsAll entries others → (projectsAmong path entries).Perm (projectsAmong path others)
  | [], _, h => by
    cases h
    exact .rfl
  | (name, node) :: rest, _, h => by
    cases h with
    | @cons _ _ read _ others hnode hrest =>
      rw [projectsAmong_cons, projectsAmong_cons]
      exact (projectsAt_perm hnode (projectsBelow_perm (path.join ⟨name⟩) node read hnode)).append
        (projectsAmong_perm path rest others hrest)

end

end Reading

section Collecting

variable {storage : Storage} (h : storage.WellFormed) {path : Path} {location : Location}
  (hpath : storage.LeadsTo path location)

include h hpath

/-- The directory that a path leads to is a tree with names in order. -/
theorem exists_entries : ∃ entries, storage.root.at? location = some (.directory entries) ∧
    (Node.directory entries).Ordered ∧ Named (.directory entries) ∧
    ∀ names, (Node.directory entries).occupant? names = storage.root.occupant? (location ++ names) := by
  obtain ⟨entries, hat⟩ := Node.occupant?_eq_directory_iff.mp hpath.directory
  have hbelow (names : List Name) : (Node.directory entries).occupant? names =
      storage.root.occupant? (location ++ names) := by
    rw [Node.occupant?_append, hat]
    rfl
  refine ⟨entries, hat, fun below others hothers => ?_, fun below name hsome => ?_, hbelow⟩
  · refine h.ordered (location ++ below) others ?_
    rw [Node.at?_append, hat]
    exact hothers
  · refine h.named (location ++ below) name ?_
    rwa [List.append_assoc, ← hbelow]

/-- What is collected does not depend on the orders in which directories are read. -/
theorem collectProjects_of_reads {read : Node} (hread : storage.root.Reads read) :
    collectProjects { storage with root := read } path = collectProjects storage path := by
  obtain ⟨entries, hat, hordered, hnamed, -⟩ := exists_entries h hpath
  have hthere := hread.at? h.ordered location
  rw [hat] at hthere
  generalize hagain : read.at? location = again at hthere
  cases hthere with
  | @some _ again hnode =>
    have hperm := projectsBelow_perm path _ _ hnode
    cases hnode with
    | @directory _ _ others _ _ =>
      have hsame : (projectsAmong path entries).Perm (projectsAmong path others) :=
        ((sortPaths_perm _).symm.trans hperm).trans (sortPaths_perm _)
      have hdistinct : ∀ first ∈ projectsAmong path entries,
          ∀ second ∈ projectsAmong path entries, first.same second = true → first = second :=
        fun first hfirst second hsecond => eq_of_mem_projectsAmong hordered hnamed hfirst hsecond
      rw [collectProjects_of_at? hpath.locate hat,
        collectProjects_of_at? (hpath.of_reads h.ordered hread).locate hagain,
        sortPaths_eq_of_perm hdistinct hsame]

/-- When no directory has a path that is too long, project files are listed and nothing else. -/
theorem isListed_iff (hfits : ∀ names, storage.root.occupant? (location ++ names) = some .directory →
      (path.descend names).text.length ≤ Storage.maxPathSize) (names : List Name) :
    (names ≠ [] ∧ IsListed path names (storage.root.occupant? (location ++ names))) ↔
      (∃ content, storage.root.occupant? (location ++ names) = some (.file content)) ∧
        isProjectFile (path.descend names) = true := by
  have hreach {names : List Name}
      (hdirectory : storage.root.occupant? (location ++ names) = some .directory) :
      Storage.pathFault? (path.descend names) = none := by
    have hsome : storage.root.occupant? (location ++ names) ≠ none := by
      rw [hdirectory]
      exact Option.some_ne_none _
    exact Storage.pathFault?_descend hpath.pathFault?
      (fun name hname => (h.named.of_append hsome name hname).1) (hfits names hdirectory)
  constructor
  · rintro ⟨-, hlisted⟩
    refine ⟨?_, hlisted.project⟩
    rcases hlisted.found with hfile | ⟨hsome, hfault⟩
    · exact hfile
    · obtain ⟨occupant, hfound⟩ := Option.ne_none_iff_exists'.mp hsome
      cases occupant with
      | file content => exact ⟨content, hfound⟩
      | directory => exact absurd (hreach hfound) hfault
  · rintro ⟨⟨content, hfile⟩, hproject⟩
    have hne : names ≠ [] := by
      rintro rfl
      rw [List.append_nil, hpath.directory] at hfile
      cases hfile
    refine ⟨hne, hproject, .inl ⟨content, hfile⟩, fun before hbefore hpre => hreach ?_⟩
    -- everything on the way to the file is a directory
    obtain ⟨more, hmore⟩ := hpre
    have hnames : names = before ++ (more ++ [names.getLast hne]) := by
      rw [← List.append_assoc, hmore, List.dropLast_concat_getLast]
    rw [hnames, ← List.append_assoc] at hfile
    exact Node.occupant?_of_append (List.append_ne_nil_of_right_ne_nil more (List.cons_ne_nil _ []))
      (by rw [hfile]; exact Option.some_ne_none _)

end Collecting

/-- Directories are read in any order. The projects that are collected below a directory are the same
ones in the same order, however its entries and those of the directories below it come: each of them
comes once, before those whose components follow its own. They are what is listed below the
directory, and when no directory there has a path that is too long, that is the files below it that
are called like projects. -/
theorem collectProjects_in_any_order {storage : Storage} (h : storage.WellFormed) {path : Path}
    {location : Location} (hpath : storage.LeadsTo path location) : ∃ projects,
      collectProjects storage path = .ok projects ∧
      (∀ read, storage.root.Reads read →
        collectProjects { storage with root := read } path = .ok projects) ∧
      (projects.Pairwise fun first second => first.le second = true ∧ ¬ first.same second = true) ∧
      (∀ project, project ∈ projects ↔ ∃ names, names ≠ [] ∧ project = path.descend names ∧
        IsListed path names (storage.root.occupant? (location ++ names))) ∧
      ((∀ names, storage.root.occupant? (location ++ names) = some .directory →
          (path.descend names).text.length ≤ Storage.maxPathSize) →
        ∀ project, project ∈ projects ↔ ∃ names content, project = path.descend names ∧
          storage.root.occupant? (location ++ names) = some (.file content) ∧
          isProjectFile project = true) := by
  obtain ⟨entries, hat, hordered, hnamed, hbelow⟩ := exists_entries h hpath
  have hcollect := collectProjects_of_at? hpath.locate hat
  have hmem (project : Path) : project ∈ sortPaths (projectsAmong path entries) ↔
      ∃ names, names ≠ [] ∧ project = path.descend names ∧
        IsListed path names (storage.root.occupant? (location ++ names)) := by
    rw [(sortPaths_perm _).mem_iff, mem_projectsAmong_iff path entries hordered]
    simp only [hbelow]
  refine ⟨_, hcollect, fun read hread => (collectProjects_of_reads h hpath hread).trans hcollect,
    ?strict, hmem, fun hfits project => ?files⟩
  case strict =>
    exact strict_sortPaths (fun first hfirst second hsecond =>
      eq_of_mem_projectsAmong hordered hnamed hfirst hsecond)
      (nodup_projectsAmong path entries hordered hnamed)
  case files =>
    rw [hmem]
    constructor
    · rintro ⟨names, hne, rfl, hlisted⟩
      obtain ⟨⟨content, hfile⟩, hproject⟩ := (isListed_iff h hpath hfits names).mp ⟨hne, hlisted⟩
      exact ⟨names, content, rfl, hfile, hproject⟩
    · rintro ⟨names, content, rfl, hfile, hproject⟩
      obtain ⟨hne, hlisted⟩ := (isListed_iff h hpath hfits names).mpr ⟨⟨content, hfile⟩, hproject⟩
      exact ⟨names, hne, rfl, hlisted⟩

/-- A directory with two empty files. -/
def twoFiles (first second : Name) : Node :=
  .directory [(first, .file []), (second, .file [])]

/-- Projects in a directory and in two directories below it, one of which is called like a project. -/
def sharedStorage : Storage where
  root := .directory [("in", .directory [("a", twoFiles "b.qgs" "z.qgs"), ("a.qgs", .file []),
    ("x.qgs", twoFiles "notes" "y.QGZ")])]

/-- What is read of that when all entries come the other way round. -/
def sharedReading : Node :=
  .directory [("in", .directory [("x.qgs", twoFiles "y.QGZ" "notes"), ("a.qgs", .file []),
    ("a", twoFiles "z.qgs" "b.qgs")])]

/-- The reading is one of the shared directory. -/
theorem reads_shared : sharedStorage.root.Reads sharedReading := by
  have hfiles (first second : Name) : (twoFiles first second).Reads (twoFiles second first) :=
    .directory (.cons (.file []) (.cons (.file []) .nil)) (List.Perm.swap _ _ _)
  have hin : Storage.ReadsAll
      [("a", twoFiles "b.qgs" "z.qgs"), ("a.qgs", .file []), ("x.qgs", twoFiles "notes" "y.QGZ")]
      [("a", twoFiles "z.qgs" "b.qgs"), ("a.qgs", .file []), ("x.qgs", twoFiles "y.QGZ" "notes")] :=
    .cons (hfiles _ _) (.cons (.file []) (.cons (hfiles _ _) .nil))
  exact .directory (.cons (.directory hin (List.reverse_perm _).symm) .nil) .rfl

/-- There is no directory below one that holds two files. -/
theorem occupant?_twoFiles (first second : Name) {names : List Name} (hne : names ≠ []) :
    (twoFiles first second).occupant? names ≠ some .directory := by
  obtain ⟨name, rest, rfl⟩ := List.exists_cons_of_ne_nil hne
  have hfile : (Node.file []).occupant? rest ≠ some .directory := by
    cases rest <;> simp [Node.occupant]
  rw [twoFiles, Node.occupant?_directory_cons, Entries.get?, Entries.get?, Entries.get?]
  split_ifs <;> simp [hfile]

/-- All directories have paths that can be looked at. -/
theorem fits_shared (names : List Name)
    (h : sharedStorage.root.occupant? ((["in"] : Location) ++ names) = some .directory) :
    (Path.descend ⟨"in"⟩ names).text.length ≤ Storage.maxPathSize := by
  have hcases : names = [] ∨ names = [↑"a"] ∨ names = [↑"x.qgs"] := by
    cases names with
    | nil => exact .inl rfl
    | cons name rest =>
      have hfile : (Node.file []).occupant? rest ≠ some .directory := by
        cases rest <;> simp [Node.occupant]
      simp only [sharedStorage, List.singleton_append, Node.occupant?_directory_cons, Entries.get?,
        if_true, Option.bind_some] at h
      by_cases hrest : rest = []
      · subst hrest
        split_ifs at h <;> simp_all
      · split_ifs at h <;> simp_all [occupant?_twoFiles]
  rcases hcases with rfl | rfl | rfl <;> decide

/-- The projects are found in the order of the components of their paths, whichever way the
directories are read, and the directory that is called like a project is none of them. -/
theorem sharedStorage_in_any_order : ∃ projects,
    collectProjects sharedStorage ⟨"in"⟩ = .ok projects ∧
    collectProjects { sharedStorage with root := sharedReading } ⟨"in"⟩ = .ok projects ∧
    (projects.Pairwise fun first second => first.le second = true ∧ ¬ first.same second = true) ∧
    (∀ project, project ∈ projects ↔ ∃ names content, project = Path.descend ⟨"in"⟩ names ∧
      sharedStorage.root.occupant? ((["in"] : Location) ++ names) = some (.file content) ∧
      isProjectFile project = true) ∧
    ⟨"in/x.qgs/y.QGZ"⟩ ∈ projects := by
  have hwell : sharedStorage.WellFormed := .of_check (by decide +kernel)
  have hleads : sharedStorage.LeadsTo ⟨"in"⟩ ["in"] := ⟨by decide +kernel, rfl⟩
  obtain ⟨projects, hprojects, hread, hstrict, -, hfiles⟩ :=
    collectProjects_in_any_order hwell hleads
  have hmem := hfiles fits_shared
  exact ⟨projects, hprojects, hread _ reads_shared, hstrict, hmem,
    (hmem _).mpr ⟨["x.qgs", "y.QGZ"], [], by decide, rfl, by decide⟩⟩

/-- A project is passed over when the path of its directory is too long to be looked at. -/
theorem dotted_not_collected : dottedStorage.WellFormed ∧
    dottedStorage.LeadsTo ⟨dotted 2046⟩ ["in"] ∧
    (∃ content, dottedStorage.root.occupant? ["in", "d", "x.qgs"] = some (.file content)) ∧
    isProjectFile ((⟨dotted 2046⟩ : Path).descend ["d", "x.qgs"]) = true ∧
    collectProjects dottedStorage ⟨dotted 2046⟩ = .ok [] := by
  have hleads := @leadsTo_dotted dottedStorage rfl rfl 2046 (by decide)
  have hnames : ∀ name ∈ (["d"] : List Name), IsEntryName name :=
    List.forall_mem_singleton.mpr (by decide)
  have hname : IsEntryName "x.qgs" := by decide
  have hproject : isProjectFile ((⟨dotted 2046⟩ : Path).descend ["d", "x.qgs"]) = true :=
    (Path.isProjectFile_descend hleads.text_ne_empty hnames hname).trans (by decide)
  exact ⟨.of_check (by decide +kernel), hleads, ⟨_, rfl⟩, hproject,
    collectProjects_dotted (by decide) (by decide)⟩

end Command

end Carta
