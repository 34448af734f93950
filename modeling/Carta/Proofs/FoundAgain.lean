import Carta.Proofs.Collection

/-!
# Projects that are found again

A run adds directories and mapfiles to a tree. As long as what is new does not have the name of a
project, or is a directory that can be looked at, or is where nothing can, the projects that are
found in the tree stay the same ones, in the same order.
-/

namespace Carta.Command

open Storage (Location Occupant Node Entries LeadsTo)

/-- What is found at an entry of the directory that a path leads to. -/
def projectsAt (path : Path) (name : Name) (node : Node) : List Path :=
  if node.isDirectory && (Storage.pathFault? (path.join ⟨name⟩)).isNone then
    projectsBelow (path.join ⟨name⟩) node
  else if isProjectFile (path.join ⟨name⟩) then [path.join ⟨name⟩] else []

/-- The projects among entries are those at the first one and those among the rest. -/
theorem projectsAmong_cons (path : Path) (name : Name) (node : Node) (rest : Entries) :
    projectsAmong path ((name, node) :: rest) = projectsAt path name node ++ projectsAmong path rest := by
  rw [projectsAmong]
  rfl

/-- What was at a path and what is there when more was added: a directory stays one, and a file stays
a file. A new file is no project, and a new directory that has the name of a project can be looked
at, if the one above it can. -/
inductive Kept (above path : Path) : Option Occupant → Option Occupant → Prop
  | nothing : Kept above path none none
  | directory : Kept above path (some .directory) (some .directory)
  | file (before after : List UInt8) : Kept above path (some (.file before)) (some (.file after))
  | newFile (content : List UInt8) (h : isProjectFile path = false) :
    Kept above path none (some (.file content))
  | newDirectory (h : isProjectFile path = true → Storage.pathFault? above = none →
      Storage.pathFault? path = none) : Kept above path none (some .directory)

section Kept

variable {above path : Path} {before after : Option Occupant}

/-- Nothing is taken away. -/
theorem Kept.eq_none (h : Kept above path before none) : before = none := by
  cases h
  rfl

/-- Seen from itself, a directory can be looked at if it can. -/
theorem Kept.here (h : Kept above path before after) : Kept path path before after := by
  cases h with
  | nothing => exact .nothing
  | directory => exact .directory
  | file before after => exact .file before after
  | newFile content h => exact .newFile content h
  | newDirectory _ => exact .newDirectory fun _ hfault => hfault

end Kept

/-- What was below a path and what is there when more was added. -/
def Keeps (path : Path) (before after : Location → Option Occupant) : Prop :=
  ∀ names, Kept (path.descend names.dropLast) (path.descend names) (before names) (after names)

section Keeps

variable {path : Path} {name : Name} {node old : Node} {before rest : Entries}

/-- What is below an entry of a directory is what is below its node. -/
theorem occupant?_of_get? {entries : Entries} (h : Entries.get? name entries = some node)
    (names : List Name) :
    (Node.directory entries).occupant? (name :: names) = node.occupant? names := by
  rw [Node.occupant?_directory_cons, h]
  rfl

/-- Nothing is below an entry that a directory does not have. -/
theorem occupant?_of_get?_eq_none {entries : Entries} (h : Entries.get? name entries = none)
    (names : List Name) : (Node.directory entries).occupant? (name :: names) = none := by
  rw [Node.occupant?_directory_cons, h]
  rfl

/-- The other entries do not have what the first one has. -/
theorem occupant?_tail (h : (Node.directory ((name, node) :: rest)).Ordered) (other : Name)
    (names : List Name) :
    (Node.directory rest).occupant? (other :: names) = if other = name then none
      else (Node.directory ((name, node) :: rest)).occupant? (other :: names) := by
  split
  next heq =>
    obtain rfl := heq
    exact occupant?_of_get?_eq_none
      (Entries.get?_eq_none_of_lt (List.pairwise_cons.mp h.entries).1) names
  next hne =>
    rw [Node.occupant?_directory_cons, Node.occupant?_directory_cons, Entries.get?,
      if_neg (Ne.symm hne)]

/-- Where a directory is empty, nothing was in it. -/
theorem Keeps.eq_nil (h : Keeps path (Node.directory before).occupant? (Node.directory []).occupant?) :
    before = [] := by
  cases before with
  | nil => rfl
  | cons entry rest =>
    obtain ⟨name, node⟩ := entry
    have hfirst := (h [name]).eq_none
    rw [occupant?_of_get? (Entries.get?_cons_self name node rest), Node.occupant?_nil] at hfirst
    cases hfirst

variable (h : Keeps path (Node.directory before).occupant?
    (Node.directory ((name, node) :: rest)).occupant?)

include h

/-- What is below the first entry is kept. -/
theorem Keeps.child (hbefore : Entries.get? name before = some old) :
    Keeps (path.join ⟨name⟩) old.occupant? node.occupant? := by
  intro names
  have hnames := h (name :: names)
  rw [occupant?_of_get? hbefore, occupant?_of_get? (Entries.get?_cons_self name node rest)] at hnames
  cases names with
  | nil => exact hnames.here
  | cons first names => exact hnames

/-- When the first entry is new, so is all that is below it. -/
theorem Keeps.new (hbefore : Entries.get? name before = none) (names : List Name) :
    Kept (path.descend (name :: names).dropLast) ((path.join ⟨name⟩).descend names) none
      (node.occupant? names) := by
  have hnames := h (name :: names)
  rwa [occupant?_of_get?_eq_none hbefore, occupant?_of_get? (Entries.get?_cons_self name node rest)]
    at hnames

variable (hordered : (Node.directory ((name, node) :: rest)).Ordered)

include hordered

/-- The entries before and after the first one is left out. -/
theorem Keeps.others {kept : Entries} (hkept : ∀ other names,
      (Node.directory kept).occupant? (other :: names) = if other = name then none
        else (Node.directory before).occupant? (other :: names)) :
    Keeps path (Node.directory kept).occupant? (Node.directory rest).occupant? := by
  intro names
  cases names with
  | nil => exact .directory
  | cons other names =>
    rw [hkept, occupant?_tail hordered]
    split
    next => exact .nothing
    next => exact h (other :: names)

/-- The others are kept when the first one is new. -/
theorem Keeps.others_of_none (hbefore : Entries.get? name before = none) :
    Keeps path (Node.directory before).occupant? (Node.directory rest).occupant? := by
  refine h.others hordered fun other names => ?_
  split
  next heq => exact heq ▸ occupant?_of_get?_eq_none hbefore names
  next => rfl

/-- The first entry is the first one that was there, if it was there. -/
theorem Keeps.exists_cons (hbefore : (Node.directory before).Ordered)
    (hget : Entries.get? name before = some old) : ∃ others, before = (name, old) :: others ∧
      Keeps path (Node.directory others).occupant? (Node.directory rest).occupant? := by
  cases before with
  | nil => cases hget
  | cons entry others =>
    obtain ⟨first, found⟩ := entry
    obtain rfl : first = name := by
      by_contra hne
      rw [Entries.get?, if_neg hne] at hget
      have hless : first < name :=
        (List.pairwise_cons.mp hbefore.entries).1 _ (Entries.mem_of_get? hget)
      have hlater : Entries.get? first ((name, node) :: rest) = none := by
        refine Entries.get?_eq_none_of_lt (List.forall_mem_cons.mpr ⟨hless, fun entry hentry => ?_⟩)
        exact List.lt_trans hless ((List.pairwise_cons.mp hordered.entries).1 entry hentry)
      have hfirst := h [first]
      rw [occupant?_of_get? (Entries.get?_cons_self first found others), Node.occupant?_nil,
        occupant?_of_get?_eq_none hlater] at hfirst
      cases hfirst.eq_none
    obtain rfl := Option.some.inj ((Entries.get?_cons_self first found others).symm.trans hget)
    exact ⟨others, rfl, h.others hordered (occupant?_tail hbefore)⟩

end Keeps

section At

variable {path : Path} {name : Name} {node old : Node}

/-- What is found at an entry is found again when what is below it is. -/
theorem projectsAt_eq (h : Keeps (path.join ⟨name⟩) old.occupant? node.occupant?)
    (hbelow : Storage.pathFault? (path.join ⟨name⟩) = none →
      projectsBelow (path.join ⟨name⟩) node = projectsBelow (path.join ⟨name⟩) old) :
    projectsAt path name node = projectsAt path name old := by
  have hsame : node.isDirectory = old.isDirectory := by
    have hhere := h []
    cases node <;> cases old <;> first | rfl | cases hhere
  rw [projectsAt, projectsAt, hsame]
  by_cases hfault : Storage.pathFault? (path.join ⟨name⟩) = none
  · rw [hbelow hfault]
  · simp [hfault]

/-- Nothing is found at a new entry when nothing is found below it. -/
theorem projectsAt_of_new (hpath : Storage.pathFault? path = none)
    (h : ∀ names, Kept (path.descend (name :: names).dropLast) ((path.join ⟨name⟩).descend names) none
      (node.occupant? names))
    (hbelow : Storage.pathFault? (path.join ⟨name⟩) = none →
      Keeps (path.join ⟨name⟩) (Node.directory []).occupant? node.occupant? →
      projectsBelow (path.join ⟨name⟩) node = projectsBelow (path.join ⟨name⟩) (.directory [])) :
    projectsAt path name node = [] := by
  have hhere : Kept path (path.join ⟨name⟩) none (node.occupant? []) := h []
  rw [Node.occupant?_nil] at hhere
  rw [projectsAt]
  cases node with
  | file content =>
    cases hhere with
    | newFile _ hproject => simp [Node.isDirectory, hproject]
  | directory entries =>
    cases hhere with
    | newDirectory hlooked =>
      by_cases hfault : Storage.pathFault? (path.join ⟨name⟩) = none
      · have hkeeps : Keeps (path.join ⟨name⟩) (Node.directory []).occupant?
            (Node.directory entries).occupant? := by
          intro names
          cases names with
          | nil => exact .directory
          | cons first names => exact h (first :: names)
        rw [if_pos (by simp [hfault, Node.isDirectory]), hbelow hfault hkeeps]
        simp [projectsBelow, projectsAmong, sortPaths]
      · rw [if_neg (by simp [hfault]), if_neg fun hproject => hfault (hlooked hproject hpath)]

end At

mutual

/-- The projects below a node are found again. -/
theorem projectsBelow_eq (path : Path) (hpath : Storage.pathFault? path = none) :
    ∀ after before : Node, after.Ordered → before.Ordered →
    Keeps path before.occupant? after.occupant? → projectsBelow path after = projectsBelow path before
  | .file _, before, _, _, h => by
    have hhere := h []
    cases before with
    | file content => rfl
    | directory entries => cases hhere
  | .directory entries, before, hafter, hbefore, h => by
    have hhere := h []
    cases before with
    | file content => cases hhere
    | directory others =>
      rw [projectsBelow, projectsBelow, projectsAmong_eq path hpath entries others hafter hbefore h]

/-- The projects among entries are found again. -/
theorem projectsAmong_eq (path : Path) (hpath : Storage.pathFault? path = none) :
    ∀ after before : Entries, (Node.directory after).Ordered → (Node.directory before).Ordered →
    Keeps path (Node.directory before).occupant? (Node.directory after).occupant? →
    projectsAmong path after = projectsAmong path before
  | [], before, _, _, h => by rw [h.eq_nil]
  | (name, node) :: rest, before, hafter, hbefore, h => by
    have hchild := hafter.child (Entries.get?_cons_self name node rest)
    rw [projectsAmong_cons]
    cases hget : Entries.get? name before with
    | none =>
      have hrest := projectsAmong_eq path hpath rest before hafter.tail hbefore
        (h.others_of_none hafter hget)
      have hempty : (Node.directory []).Ordered := .directory .nil fun _ _ hnone => nomatch hnone
      have hnone : projectsAt path name node = [] := projectsAt_of_new hpath (h.new hget) fun hfault =>
        projectsBelow_eq (path.join ⟨name⟩) hfault node (.directory []) hchild hempty
      rw [hnone, hrest, List.nil_append]
    | some old =>
      have hbelow := h.child hget
      have hsame : projectsAt path name node = projectsAt path name old :=
        projectsAt_eq hbelow fun hfault =>
          projectsBelow_eq (path.join ⟨name⟩) hfault node old hchild (hbefore.child hget) hbelow
      obtain ⟨others, rfl, hothers⟩ := h.exists_cons hafter hbefore hget
      rw [projectsAmong_cons, hsame,
        projectsAmong_eq path hpath rest others hafter.tail hbefore.tail hothers]

end

/-- What is collected below a directory is what is found among the entries there. -/
theorem collectProjects_of_at? {storage : Storage} {path : Path} {location : Location}
    {entries : Entries} (hlocate : storage.locate path = .ok location)
    (hat : storage.root.at? location = some (.directory entries)) :
    collectProjects storage path = .ok (sortPaths (projectsAmong path entries)) := by
  have hopen := Storage.open?_eq_ok_iff.mpr ⟨location, hlocate, hat⟩
  rw [collectProjects, Storage.entries, hopen]
  rfl

/-- What is collected below a directory is what is found among its entries. -/
theorem collectProjects_of_leadsTo {storage : Storage} {path : Path} {location : Location}
    (h : storage.LeadsTo path location) (hordered : storage.root.Ordered) : ∃ entries,
      collectProjects storage path = .ok (sortPaths (projectsAmong path entries)) ∧
      (Node.directory entries).Ordered ∧
      ∀ names, storage.root.occupant? (location ++ names) =
        (Node.directory entries).occupant? names := by
  obtain ⟨entries, hat⟩ := Node.occupant?_eq_directory_iff.mp h.directory
  refine ⟨entries, collectProjects_of_at? h.locate hat, fun below others hbelow => ?_,
    fun names => ?_⟩
  · refine hordered (location ++ below) others ?_
    rw [Node.at?_append, hat]
    exact hbelow
  · rw [Node.occupant?_append, hat]
    rfl

/-- The projects below a directory are found again when nothing is added that would be taken for
one. -/
theorem collectProjects_eq {before after : Storage} {path : Path} {location : Location}
    (hbefore : before.LeadsTo path location) (hafter : after.LeadsTo path location)
    (hordered : before.root.Ordered) (hordered' : after.root.Ordered)
    (h : Keeps path (fun names => before.root.occupant? (location ++ names))
      fun names => after.root.occupant? (location ++ names)) :
    collectProjects after path = collectProjects before path := by
  obtain ⟨entries, hprojects, hentries, hbelow⟩ := collectProjects_of_leadsTo hbefore hordered
  obtain ⟨entries', hprojects', hentries', hbelow'⟩ := collectProjects_of_leadsTo hafter hordered'
  have hkeeps : Keeps path (Node.directory entries).occupant? (Node.directory entries').occupant? := by
    intro names
    rw [← hbelow, ← hbelow']
    exact h names
  rw [hprojects, hprojects',
    projectsAmong_eq path hbefore.pathFault? entries' entries hentries' hentries hkeeps]

end Carta.Command
