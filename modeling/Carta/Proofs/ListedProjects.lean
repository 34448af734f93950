import Carta.Proofs.FoundAgain
import Carta.Proofs.PathOrder
import Carta.Proofs.RelativePaths

/-!
# What is listed below a directory

The projects below a directory are the files that are called like projects, and what has such a name
and a path that is too long to be looked at. Directories on the way are entered, as long as they can
be looked at, whatever they are called. Nothing is found twice.
-/

namespace Carta.Command

open Storage (Occupant Node Entries)

section Listing

/-- Names lead from a path to what is listed there: a file that is called like a project, or anything
with such a name that cannot be looked at. All directories on the way can be looked at. -/
structure IsListed (path : Path) (names : List Name) (found : Option Occupant) : Prop where
  project : isProjectFile (path.descend names) = true
  found : (∃ content, found = some (.file content)) ∨
    found ≠ none ∧ Storage.pathFault? (path.descend names) ≠ none
  entered : ∀ before, before ≠ [] → before <+: names.dropLast →
    Storage.pathFault? (path.descend before) = none

variable {path project : Path} {name : Name} {names : List Name}

/-- There is something where names lead to what is listed. -/
theorem IsListed.found_ne_none {found : Option Occupant} (h : IsListed path names found) :
    found ≠ none := by
  rcases h.found with ⟨content, hfile⟩ | ⟨hsome, -⟩
  · rw [hfile]
    exact Option.some_ne_none _
  · exact hsome

/-- What is listed further below is listed below the first directory on the way, which can be looked
at. -/
theorem isListed_cons {found : Option Occupant} (hne : names ≠ []) :
    IsListed path (name :: names) found ↔
      Storage.pathFault? (path.join ⟨name⟩) = none ∧ IsListed (path.join ⟨name⟩) names found := by
  obtain ⟨next, rest, rfl⟩ := List.exists_cons_of_ne_nil hne
  constructor
  · intro h
    refine ⟨h.entered [name] (List.cons_ne_nil _ _) ?_, h.project, h.found, fun before hbefore hpre => ?_⟩
    · rw [List.dropLast_cons_cons]
      exact List.prefix_append [name] _
    · refine h.entered (name :: before) (List.cons_ne_nil _ _) ?_
      rw [List.dropLast_cons_cons]
      exact (List.prefix_cons_inj name).mpr hpre
  · rintro ⟨hhere, h⟩
    refine ⟨h.project, h.found, fun before hbefore hpre => ?_⟩
    rw [List.dropLast_cons_cons] at hpre
    obtain ⟨first, more, rfl⟩ := List.exists_cons_of_ne_nil hbefore
    obtain ⟨rfl, hrest⟩ := List.cons_prefix_cons.mp hpre
    by_cases hmore : more = []
    · rw [hmore]
      exact hhere
    · exact h.entered more hmore hrest

/-- An entry itself is listed when it is no directory that can be looked at. -/
theorem isListed_singleton_iff {node : Node} : IsListed path [name] (some node.occupant) ↔
    isProjectFile (path.join ⟨name⟩) = true ∧
      ¬ (node.isDirectory && (Storage.pathFault? (path.join ⟨name⟩)).isNone) = true := by
  constructor
  · intro h
    refine ⟨h.project, fun hentered => ?_⟩
    obtain ⟨hdirectory, hfault⟩ := Bool.and_eq_true_iff.mp hentered
    rcases h.found with ⟨content, hfile⟩ | ⟨-, hfault'⟩
    · cases node with
      | file => cases hdirectory
      | directory => cases hfile
    · exact hfault' (Option.isNone_iff_eq_none.mp hfault)
  · rintro ⟨hproject, hnot⟩
    refine ⟨hproject, ?_, fun before hbefore hpre => absurd (List.prefix_nil.mp hpre) hbefore⟩
    cases node with
    | file content => exact .inl ⟨content, rfl⟩
    | directory =>
      refine .inr ⟨nofun, fun hfault => hnot ?_⟩
      have hfault' : Storage.pathFault? (path.join ⟨name⟩) = none := hfault
      rw [hfault']
      rfl

/-- What is found at an entry is the entry itself or below it. -/
theorem mem_projectsAt_iff {node : Node}
    (hbelow : project ∈ projectsBelow (path.join ⟨name⟩) node ↔ ∃ names, names ≠ [] ∧
      project = (path.join ⟨name⟩).descend names ∧
        IsListed (path.join ⟨name⟩) names (node.occupant? names)) :
    project ∈ projectsAt path name node ↔ ∃ names, project = path.descend (name :: names) ∧
      IsListed path (name :: names) (node.occupant? names) := by
  have hhere := @isListed_singleton_iff path name node
  rw [projectsAt]
  by_cases hentered : (node.isDirectory && (Storage.pathFault? (path.join ⟨name⟩)).isNone) = true
  · have hfault : Storage.pathFault? (path.join ⟨name⟩) = none := by
      simpa using (Bool.and_eq_true_iff.mp hentered).2
    rw [if_pos hentered, hbelow]
    constructor
    · rintro ⟨names, hne, hproject, h⟩
      exact ⟨names, hproject, (isListed_cons hne).mpr ⟨hfault, h⟩⟩
    · rintro ⟨names, hproject, h⟩
      have hne : names ≠ [] := by
        rintro rfl
        rw [Node.occupant?_nil] at h
        exact (hhere.mp h).2 hentered
      exact ⟨names, hne, hproject, ((isListed_cons hne).mp h).2⟩
  · rw [if_neg hentered]
    constructor
    · intro h
      split at h
      next hproject =>
        obtain rfl := List.mem_singleton.mp h
        refine ⟨[], rfl, ?_⟩
        rw [Node.occupant?_nil]
        exact hhere.mpr ⟨hproject, hentered⟩
      next => cases h
    · rintro ⟨names, rfl, h⟩
      cases names with
      | nil =>
        have hproject : isProjectFile (path.join ⟨name⟩) = true := h.project
        rw [if_pos hproject]
        exact List.mem_singleton_self _
      | cons next rest =>
        obtain ⟨hfault, h⟩ := (isListed_cons (List.cons_ne_nil next rest)).mp h
        cases node with
        | file content =>
          exact absurd (Node.isLeaf_file content _ (List.cons_ne_nil next rest)) h.found_ne_none
        | directory entries => exact absurd (by simp [Node.isDirectory, hfault]) hentered

mutual

/-- The projects below a node are what is listed there. -/
theorem mem_projectsBelow_iff {project : Path} (path : Path) : ∀ node : Node, node.Ordered →
    (project ∈ projectsBelow path node ↔ ∃ names, names ≠ [] ∧ project = path.descend names ∧
      IsListed path names (node.occupant? names))
  | .file content, _ =>
    iff_of_false nofun fun ⟨names, hne, _, h⟩ =>
      h.found_ne_none (Node.isLeaf_file content names hne)
  | .directory entries, hordered =>
    (sortPaths_perm _).mem_iff.trans (mem_projectsAmong_iff path entries hordered)

/-- The projects among entries are what is listed there. -/
theorem mem_projectsAmong_iff {project : Path} (path : Path) : ∀ entries : Entries,
    (Node.directory entries).Ordered →
    (project ∈ projectsAmong path entries ↔ ∃ names, names ≠ [] ∧ project = path.descend names ∧
      IsListed path names ((Node.directory entries).occupant? names))
  | [], _ =>
    iff_of_false nofun fun ⟨names, hne, _, h⟩ =>
      h.found_ne_none (Node.isLeaf_emptyDirectory names hne)
  | (name, node) :: rest, hordered => by
    have hget := Entries.get?_cons_self name node rest
    have hbelow := @mem_projectsBelow_iff project (path.join ⟨name⟩) node (hordered.child hget)
    have hat := mem_projectsAt_iff hbelow
    rw [projectsAmong_cons, List.mem_append, hat, mem_projectsAmong_iff path rest hordered.tail]
    constructor
    · rintro (⟨names, hproject, h⟩ | ⟨names, hne, hproject, h⟩)
      · exact ⟨name :: names, List.cons_ne_nil _ _, hproject, by rwa [occupant?_of_get? hget]⟩
      · refine ⟨names, hne, hproject, ?_⟩
        obtain ⟨first, more, rfl⟩ := List.exists_cons_of_ne_nil hne
        rw [occupant?_tail hordered] at h
        split at h
        next => exact absurd rfl h.found_ne_none
        next => exact h
    · rintro ⟨names, hne, hproject, h⟩
      obtain ⟨first, more, rfl⟩ := List.exists_cons_of_ne_nil hne
      by_cases hfirst : first = name
      · subst hfirst
        rw [occupant?_of_get? hget] at h
        exact .inl ⟨more, hproject, h⟩
      · refine .inr ⟨first :: more, hne, hproject, ?_⟩
        rwa [occupant?_tail hordered, if_neg hfirst]

end

end Listing

section Distinct

/-- What is in a directory of a tree with names has names. -/
theorem Named.child {entries : Entries} (h : Named (.directory entries)) {name : Name}
    {node : Node} (hget : Entries.get? name entries = some node) : Named node := by
  intro location other hsome
  refine h (name :: location) other ?_
  rwa [List.cons_append, occupant?_of_get? hget]

/-- A tree with names has them after its first entry is left out. -/
theorem Named.tail {name : Name} {node : Node} {rest : Entries}
    (h : Named (.directory ((name, node) :: rest)))
    (hordered : (Node.directory ((name, node) :: rest)).Ordered) : Named (.directory rest) := by
  intro location other hsome
  refine h location other ?_
  obtain ⟨first, more, hall⟩ := List.exists_cons_of_ne_nil
    (List.append_ne_nil_of_right_ne_nil location (List.cons_ne_nil other []))
  rw [hall, occupant?_tail hordered] at hsome
  rw [hall]
  split at hsome
  next => exact absurd rfl hsome
  next => exact hsome

/-- Names that lead to what is listed are those of entries. -/
theorem IsListed.isEntryName {path : Path} {names : List Name} {tree : Node}
    (h : IsListed path names (tree.occupant? names)) (hnamed : Named tree) :
    ∀ name ∈ names, IsEntryName name := fun name hname =>
  (@Named.of_append tree hnamed [] names h.found_ne_none name hname).1

variable {path : Path} {entries : Entries} (hordered : (Node.directory entries).Ordered)
  (hnamed : Named (.directory entries))

include hordered hnamed

/-- Projects among entries that are the same path are written the same. -/
theorem eq_of_mem_projectsAmong {first second : Path} (hfirst : first ∈ projectsAmong path entries)
    (hsecond : second ∈ projectsAmong path entries) (h : first.same second = true) :
    first = second := by
  obtain ⟨names, -, rfl, hlisted⟩ := (mem_projectsAmong_iff path entries hordered).mp hfirst
  obtain ⟨others, -, rfl, hlisted'⟩ := (mem_projectsAmong_iff path entries hordered).mp hsecond
  rw [(path.descend_same_iff (hlisted.isEntryName hnamed) (hlisted'.isEntryName hnamed)).mp h]

end Distinct

mutual

/-- No project is found twice below a node. -/
theorem nodup_projectsBelow (path : Path) : ∀ node : Node, node.Ordered → Named node →
    (projectsBelow path node).Nodup
  | .file _, _, _ => .nil
  | .directory entries, hordered, hnamed =>
    (sortPaths_perm _).symm.nodup (nodup_projectsAmong path entries hordered hnamed)

/-- No project is found twice among entries. -/
theorem nodup_projectsAmong (path : Path) : ∀ entries : Entries, (Node.directory entries).Ordered →
    Named (.directory entries) → (projectsAmong path entries).Nodup
  | [], _, _ => .nil
  | (name, node) :: rest, hordered, hnamed => by
    have hget := Entries.get?_cons_self name node rest
    have hchild := hordered.child hget
    have hnamed' := hnamed.tail hordered
    have hat : (projectsAt path name node).Nodup := by
      rw [projectsAt]
      split
      next => exact nodup_projectsBelow (path.join ⟨name⟩) node hchild (hnamed.child hget)
      next =>
        split
        next => exact List.pairwise_singleton _ _
        next => exact .nil
    rw [projectsAmong_cons]
    refine List.nodup_append.mpr ⟨hat, nodup_projectsAmong path rest hordered.tail hnamed', ?_⟩
    intro first hfirst second hsecond heq
    obtain ⟨names, hnames, hlisted⟩ :=
      (mem_projectsAt_iff (mem_projectsBelow_iff (path.join ⟨name⟩) node hchild)).mp hfirst
    obtain ⟨others, hne, hothers, hlisted'⟩ :=
      (mem_projectsAmong_iff path rest hordered.tail).mp hsecond
    rw [← occupant?_of_get? hget] at hlisted
    -- the names begin with that of the first entry here, and with another one there
    have hsame : (path.descend (name :: names)).same (path.descend others) = true := by
      rw [← hnames, ← hothers, heq]
      exact decide_eq_true rfl
    rw [path.descend_same_iff (hlisted.isEntryName hnamed) (hlisted'.isEntryName hnamed')] at hsame
    rw [← hsame, occupant?_tail hordered, if_pos rfl] at hlisted'
    exact hlisted'.found_ne_none rfl

end

end Carta.Command
