import Carta.Storage.Node
import Mathlib.Logic.Function.Basic

/-!
# Trees of files by their locations

A tree is known by what is at each of its locations: nothing, a file with its content, or a
directory. Putting a file or an empty directory at a location where no directory is changes what is
there and nothing else, and so does taking a file away. Where the names in every directory are
distinct and in order, the locations determine the tree.
-/

namespace Carta.Storage

namespace Entries

/-- The names among entries are distinct and in order. -/
def Ordered (entries : Entries) : Prop :=
  entries.Pairwise fun first second => first.1 < second.1

/-- The first of the entries is found under its name. -/
theorem get?_cons_self (name : Name) (node : Node) (rest : Entries) :
    get? name ((name, node) :: rest) = some node :=
  if_pos rfl

/-- What entries have under a name is one of them. -/
theorem mem_of_get? {name : Name} {node : Node} {entries : Entries}
    (h : get? name entries = some node) : (name, node) ∈ entries := by
  induction entries with
  | nil => cases h
  | cons entry rest ih =>
    obtain ⟨other, old⟩ := entry
    rw [get?] at h
    split at h
    next heq =>
      obtain rfl := Option.some.inj h
      exact heq ▸ List.mem_cons_self
    next => exact List.mem_cons_of_mem _ (ih h)

/-- In ordered entries each one is found under its name. -/
theorem get?_eq_some_of_mem {name : Name} {node : Node} {entries : Entries}
    (hordered : Ordered entries) (h : (name, node) ∈ entries) : get? name entries = some node := by
  induction entries with
  | nil => cases h
  | cons entry rest ih =>
    obtain ⟨other, old⟩ := entry
    obtain ⟨hfirst, hrest⟩ := List.pairwise_cons.mp hordered
    rcases List.mem_cons.mp h with heq | hmem
    · obtain ⟨rfl, rfl⟩ := Prod.mk.inj heq
      exact get?_cons_self ..
    · have hne : other ≠ name := Std.ne_of_lt (hfirst _ hmem)
      rw [get?, if_neg hne, ih hrest hmem]

/-- What is found among the later of ordered entries is found among all of them. -/
theorem get?_cons_of_get? {entry : Name × Node} {entries : Entries}
    (hordered : Ordered (entry :: entries)) {name : Name} {node : Node}
    (h : get? name entries = some node) : get? name (entry :: entries) = some node :=
  get?_eq_some_of_mem hordered (List.mem_cons_of_mem _ (mem_of_get? h))

/-- A name that comes before all others is not among them. -/
theorem get?_eq_none_of_lt {name : Name} {entries : Entries}
    (h : ∀ entry ∈ entries, name < entry.1) : get? name entries = none := by
  cases hget : get? name entries with
  | none => rfl
  | some node => exact absurd (h _ (mem_of_get? hget)) (List.lt_irrefl _)

/-- Setting an entry changes what is under its name only. -/
theorem get?_set (name : Name) (node : Node) (other : Name) (entries : Entries) :
    get? other (set name node entries) = if name = other then some node else get? other entries := by
  induction entries with
  | nil => rfl
  | cons entry rest ih =>
    obtain ⟨first, old⟩ := entry
    rw [set]
    split
    next heq =>
      subst heq
      by_cases hother : first = other <;> simp [get?, hother]
    next hne =>
      split
      next => rfl
      next =>
        by_cases hother : first = other
        · subst hother
          simp [get?, Ne.symm hne]
        · simp [get?, hother, ih]

/-- Taking an entry away leaves the others. -/
theorem get?_erase_of_ne {name other : Name} (h : name ≠ other) (entries : Entries) :
    get? other (erase name entries) = get? other entries := by
  induction entries with
  | nil => rfl
  | cons entry rest ih =>
    obtain ⟨first, old⟩ := entry
    rw [erase]
    split
    next heq => rw [get?, if_neg (heq ▸ h)]
    next => simp [get?, ih]

/-- Among ordered entries, one that is taken away is gone. -/
theorem get?_erase_self {entries : Entries} (h : Ordered entries) (name : Name) :
    get? name (erase name entries) = none := by
  induction entries with
  | nil => rfl
  | cons entry rest ih =>
    obtain ⟨first, old⟩ := entry
    obtain ⟨hfirst, hrest⟩ := List.pairwise_cons.mp h
    rw [erase]
    split
    next heq => exact get?_eq_none_of_lt fun entry hentry => heq ▸ hfirst entry hentry
    next hne => rw [get?, if_neg hne, ih hrest]

/-- The names after setting an entry are those before and its own. -/
theorem mem_set {name : Name} {node : Node} {entries : Entries} {entry : Name × Node}
    (h : entry ∈ set name node entries) : entry = (name, node) ∨ entry ∈ entries := by
  induction entries with
  | nil => exact .inl (List.mem_singleton.mp h)
  | cons first rest ih =>
    obtain ⟨other, old⟩ := first
    rw [set] at h
    split at h
    next => exact (List.mem_cons.mp h).imp_right (List.mem_cons_of_mem _)
    next =>
      split at h
      next => exact List.mem_cons.mp h
      next =>
        rcases List.mem_cons.mp h with rfl | h
        · exact .inr List.mem_cons_self
        · exact (ih h).imp_right (List.mem_cons_of_mem _)

/-- Setting an entry keeps the order. -/
theorem Ordered.set {entries : Entries} (h : Ordered entries) (name : Name) (node : Node) :
    Ordered (Entries.set name node entries) := by
  induction entries with
  | nil => exact List.pairwise_singleton _ _
  | cons first rest ih =>
    obtain ⟨other, old⟩ := first
    obtain ⟨hfirst, hrest⟩ := List.pairwise_cons.mp h
    rw [Entries.set]
    split
    next heq => exact List.pairwise_cons.mpr ⟨heq ▸ hfirst, hrest⟩
    next hne =>
      split
      next hlt =>
        refine List.pairwise_cons.mpr ⟨?_, h⟩
        intro entry hentry
        rcases List.mem_cons.mp hentry with rfl | hentry
        · exact hlt
        · exact List.lt_trans hlt (hfirst entry hentry)
      next hlt =>
        refine List.pairwise_cons.mpr ⟨?_, ih hrest⟩
        intro entry hentry
        rcases mem_set hentry with rfl | hentry
        · exact Std.lt_of_le_of_ne (List.not_lt.mp hlt) hne
        · exact hfirst entry hentry

/-- What is left after taking an entry away was there before. -/
theorem erase_sublist (name : Name) (entries : Entries) : (erase name entries).Sublist entries := by
  induction entries with
  | nil => exact List.Sublist.slnil
  | cons first rest ih =>
    rw [erase]
    split
    next => exact List.sublist_cons_self _ _
    next => exact ih.cons_cons _

/-- Taking an entry away keeps the order. -/
theorem Ordered.erase {entries : Entries} (h : Ordered entries) (name : Name) :
    Ordered (Entries.erase name entries) :=
  List.Pairwise.sublist (erase_sublist name entries) h

/-- Ordered entries are the same when they have the same under every name. -/
theorem eq_of_get?_eq {first second : Entries} (hfirst : Ordered first) (hsecond : Ordered second)
    (h : ∀ name, get? name first = get? name second) : first = second := by
  have hmem : ∀ entry, entry ∈ first ↔ entry ∈ second := by
    rintro ⟨name, node⟩
    constructor
    · intro hentry
      exact mem_of_get? (h name ▸ get?_eq_some_of_mem hfirst hentry)
    · intro hentry
      exact mem_of_get? (h name ▸ get?_eq_some_of_mem hsecond hentry)
  have hnodup {entries : Entries} (hordered : Ordered entries) : entries.Nodup :=
    hordered.imp fun hlt heq => Std.ne_of_lt hlt (congrArg Prod.fst heq)
  refine List.Perm.eq_of_pairwise ?_ hfirst hsecond ?_
  · intro a b _ _ hab hba
    exact absurd (List.lt_trans hab hba) (List.lt_irrefl _)
  · exact (List.perm_ext_iff_of_nodup (hnodup hfirst) (hnodup hsecond)).mpr hmem

end Entries

/-- What is at a location, with nothing said about what is in a directory. -/
inductive Occupant
  | file (content : List UInt8)
  | directory
  deriving DecidableEq

namespace Node

/-- What a node is, with nothing said about what is in a directory. -/
def occupant : Node → Occupant
  | .file content => .file content
  | .directory _ => .directory

/-- What is at a location of a tree, if anything. -/
def occupant? (tree : Node) (location : Location) : Option Occupant :=
  (tree.at? location).map occupant

/-- The names in every directory of a tree are distinct and in order. -/
def Ordered (tree : Node) : Prop :=
  ∀ location entries, tree.at? location = some (.directory entries) → Entries.Ordered entries

/-- At no names is the tree itself. -/
@[simp] theorem at?_nil (tree : Node) : tree.at? [] = some tree := by
  cases tree <;> rfl

/-- Nothing is below a file. -/
@[simp] theorem at?_file_cons (content : List UInt8) (name : Name) (rest : Location) :
    (Node.file content).at? (name :: rest) = none :=
  rfl

/-- Below a directory is what is below the entry with the first name. -/
@[simp] theorem at?_directory_cons (entries : Entries) (name : Name) (rest : Location) :
    (Node.directory entries).at? (name :: rest) = (Entries.get? name entries).bind (at? · rest) :=
  rfl

/-- At no names is what the tree itself is. -/
@[simp] theorem occupant?_nil (tree : Node) : tree.occupant? [] = some tree.occupant := by
  simp [occupant?]

/-- There is nothing below a file. -/
@[simp] theorem occupant?_file_cons (content : List UInt8) (name : Name) (rest : Location) :
    (Node.file content).occupant? (name :: rest) = none :=
  rfl

/-- There is below a directory what there is below the entry with the first name. -/
@[simp] theorem occupant?_directory_cons (entries : Entries) (name : Name) (rest : Location) :
    (Node.directory entries).occupant? (name :: rest) =
      (Entries.get? name entries).bind (occupant? · rest) := by
  rw [occupant?, at?_directory_cons, Option.map_bind]
  rfl

/-- What is below a location is below the node there. -/
theorem at?_append (tree : Node) (location rest : Location) :
    tree.at? (location ++ rest) = (tree.at? location).bind (at? · rest) := by
  induction location generalizing tree with
  | nil => simp
  | cons name location ih =>
    cases tree with
    | file content => rfl
    | directory entries =>
      rw [List.cons_append, at?_directory_cons, at?_directory_cons, Option.bind_assoc]
      exact congrArg _ (funext ih)

/-- What is below a location is below the node there. -/
theorem occupant?_append (tree : Node) (location rest : Location) :
    tree.occupant? (location ++ rest) = (tree.at? location).bind (occupant? · rest) := by
  rw [occupant?, at?_append, Option.map_bind]
  rfl

/-- At a location is a directory when it is occupied by one. -/
theorem occupant?_eq_directory_iff {tree : Node} {location : Location} :
    tree.occupant? location = some .directory ↔ ∃ entries, tree.at? location = some (.directory entries) := by
  rw [occupant?, Option.map_eq_some_iff]
  constructor
  · rintro ⟨node, hat, hnode⟩
    cases node with
    | file content => cases hnode
    | directory entries => exact ⟨entries, hat⟩
  · rintro ⟨entries, hat⟩
    exact ⟨_, hat, rfl⟩

/-- At a location is a file when it is occupied by that file. -/
theorem occupant?_eq_file_iff {tree : Node} {location : Location} {content : List UInt8} :
    tree.occupant? location = some (.file content) ↔ tree.at? location = some (.file content) := by
  rw [occupant?, Option.map_eq_some_iff]
  constructor
  · rintro ⟨node, hat, hnode⟩
    cases node with
    | file content => exact Occupant.file.inj hnode ▸ hat
    | directory entries => cases hnode
  · exact fun hat => ⟨_, hat, rfl⟩

/-- Nothing is at a location when it is not occupied. -/
theorem occupant?_eq_none_iff {tree : Node} {location : Location} :
    tree.occupant? location = none ↔ tree.at? location = none :=
  Option.map_eq_none_iff

/-- Whatever has something below it is a directory. -/
theorem occupant?_of_append {tree : Node} {location rest : Location} (hrest : rest ≠ [])
    (h : tree.occupant? (location ++ rest) ≠ none) : tree.occupant? location = some .directory := by
  obtain ⟨name, rest, rfl⟩ := List.exists_cons_of_ne_nil hrest
  rw [occupant?_append] at h
  cases hat : tree.at? location with
  | none => simp [hat] at h
  | some node =>
    cases node with
    | file content => simp [hat] at h
    | directory entries => exact occupant?_eq_directory_iff.mpr ⟨entries, hat⟩

/-- The directory of an occupied location. -/
theorem occupant?_of_append_singleton {tree : Node} {directory : Location} {name : Name}
    (h : tree.occupant? (directory ++ [name]) ≠ none) : tree.occupant? directory = some .directory :=
  occupant?_of_append (List.cons_ne_nil _ _) h

/-- Nothing is below what is no directory. -/
theorem occupant?_eq_none_below {tree : Node} {location below : Location}
    (hpre : location <+: below) (hne : location ≠ below)
    (h : tree.occupant? location ≠ some .directory) : tree.occupant? below = none := by
  obtain ⟨rest, rfl⟩ := hpre
  by_contra hbelow
  exact h (occupant?_of_append (fun hrest => hne (by simp [hrest])) hbelow)

/-- A node put at a location in a directory occupies it and what is below, and nothing else
changes. -/
theorem occupant?_set (tree node : Node) {directory : Location} (name : Name)
    (h : tree.occupant? directory = some .directory) (location : Location) :
    (tree.set (directory ++ [name]) node).occupant? location =
      if directory ++ [name] <+: location then node.occupant? (location.drop (directory.length + 1))
      else tree.occupant? location := by
  induction directory generalizing tree location with
  | nil =>
    cases tree with
    | file content => cases h
    | directory entries =>
      cases location with
      | nil => simp [set, occupant]
      | cons first rest =>
        simp only [List.nil_append, set, occupant?_directory_cons, Entries.get?_set,
          List.cons_prefix_cons, List.nil_prefix, and_true, List.length_nil, Nat.zero_add,
          List.drop_succ_cons, List.drop_zero]
        by_cases hname : name = first <;> simp [hname]
  | cons parent directory ih =>
    cases tree with
    | file content => cases h
    | directory entries =>
      obtain ⟨more, rest, hmore⟩ := List.exists_cons_of_ne_nil
        (List.append_ne_nil_of_right_ne_nil directory (List.cons_ne_nil name []))
      cases hget : Entries.get? parent entries with
      | none => simp [hget] at h
      | some child =>
        have hchild : child.occupant? directory = some .directory := by simpa [hget] using h
        have hset : (Node.directory entries).set (parent :: directory ++ [name]) node =
            .directory (Entries.set parent (child.set (directory ++ [name]) node) entries) := by
          rw [List.cons_append, hmore, set, hget]
        rw [hset]
        cases location with
        | nil => simp [occupant]
        | cons first rest' =>
          rw [occupant?_directory_cons, occupant?_directory_cons, Entries.get?_set]
          by_cases hfirst : parent = first
          · subst hfirst
            simp [hget, ih child hchild]
          · simp [hfirst]

/-- A node without anything in it. -/
def IsLeaf (node : Node) : Prop :=
  ∀ location, location ≠ [] → node.occupant? location = none

/-- A file is a leaf. -/
theorem isLeaf_file (content : List UInt8) : (Node.file content).IsLeaf := by
  intro location h
  cases location with
  | nil => exact absurd rfl h
  | cons name rest => rfl

/-- An empty directory is a leaf. -/
theorem isLeaf_emptyDirectory : (Node.directory []).IsLeaf := by
  intro location h
  cases location with
  | nil => exact absurd rfl h
  | cons name rest => rfl

/-- A leaf put in a directory, where no directory is, changes what is at its location and nothing
else. -/
theorem occupant?_set_leaf (tree : Node) {node : Node} (hleaf : node.IsLeaf) {directory : Location}
    {name : Name} (hdirectory : tree.occupant? directory = some .directory)
    (h : tree.occupant? (directory ++ [name]) ≠ some .directory) :
    (tree.set (directory ++ [name]) node).occupant? =
      Function.update tree.occupant? (directory ++ [name]) (some node.occupant) := by
  funext location
  rw [occupant?_set tree node name hdirectory, Function.update_apply]
  by_cases heq : location = directory ++ [name]
  · subst heq
    simp
  · rw [if_neg heq]
    split
    next hpre =>
      rw [occupant?_eq_none_below hpre (Ne.symm heq) h]
      obtain ⟨rest, rfl⟩ := hpre
      apply hleaf
      simp only [ne_eq, List.append_assoc, List.drop_eq_nil_iff]
      intro hlength
      apply heq
      simp only [List.length_append, List.length_cons, List.length_nil] at hlength
      have hrest : rest = [] := List.length_eq_zero_iff.mp (by omega)
      simp [hrest]
    next => rfl

/-- A child is smaller than its directory. -/
theorem sizeOf_lt_of_get? {name : Name} {node : Node} {entries : Entries}
    (h : Entries.get? name entries = some node) : sizeOf node < sizeOf (Node.directory entries) := by
  have hmem := List.sizeOf_lt_of_mem (Entries.mem_of_get? h)
  simp only [Node.directory.sizeOf_spec, Prod.mk.sizeOf_spec] at hmem ⊢
  omega

/-- What is in a directory of an ordered tree is ordered. -/
theorem Ordered.child {entries : Entries} (h : (Node.directory entries).Ordered) {name : Name}
    {node : Node} (hget : Entries.get? name entries = some node) : node.Ordered := by
  intro location below hat
  exact h (name :: location) below (by simp [hget, hat])

/-- The entries of an ordered tree are ordered. -/
theorem Ordered.entries {entries : Entries} (h : (Node.directory entries).Ordered) :
    Entries.Ordered entries :=
  h [] entries (at?_nil _)

/-- A directory is an ordered tree when its entries are ordered and all of them are ordered
trees. -/
theorem Ordered.directory {entries : Entries} (hentries : Entries.Ordered entries)
    (h : ∀ name node, Entries.get? name entries = some node → node.Ordered) :
    (Node.directory entries).Ordered := by
  intro location below hat
  cases location with
  | nil =>
    obtain rfl : entries = below := by simpa using hat
    exact hentries
  | cons name rest =>
    rw [at?_directory_cons, Option.bind_eq_some_iff] at hat
    obtain ⟨node, hget, hat⟩ := hat
    exact h name node hget rest below hat

/-- A directory stays ordered without its first entry. -/
theorem Ordered.tail {entry : Name × Node} {entries : Entries}
    (h : (Node.directory (entry :: entries)).Ordered) : (Node.directory entries).Ordered :=
  .directory (List.pairwise_cons.mp h.entries).2 fun _ _ hget =>
    h.child (Entries.get?_cons_of_get? h.entries hget)

/-- A file has no entries, so they are in order. -/
theorem Ordered.file (content : List UInt8) : (Node.file content).Ordered := by
  intro location entries hat
  cases location <;> cases hat

/-- Putting an ordered tree somewhere keeps the order. -/
theorem Ordered.set {tree node : Node} (h : tree.Ordered) (hnode : node.Ordered)
    (location : Location) : (tree.set location node).Ordered := by
  induction location generalizing tree with
  | nil => cases tree <;> exact hnode
  | cons name rest ih =>
    cases tree with
    | file content => exact h
    | directory entries =>
      have hset {child : Node} (hchild : child.Ordered) :
          (Node.directory (Entries.set name child entries)).Ordered := by
        refine .directory (h.entries.set name child) ?_
        intro other found hget
        rw [Entries.get?_set] at hget
        split at hget
        next => exact Option.some.inj hget ▸ hchild
        next => exact h.child hget
      cases rest with
      | nil => exact hset hnode
      | cons more rest =>
        rw [Node.set]
        cases hget : Entries.get? name entries with
        | none => exact h
        | some child => exact hset (ih (h.child hget))

/-- Taking something away keeps the order. -/
theorem Ordered.erase {tree : Node} (h : tree.Ordered) (location : Location) :
    (tree.erase location).Ordered := by
  induction location generalizing tree with
  | nil => cases tree <;> exact h
  | cons name rest ih =>
    cases tree with
    | file content => exact h
    | directory entries =>
      cases rest with
      | nil =>
        refine .directory (h.entries.erase name) ?_
        intro other found hget
        have hmem := (Entries.erase_sublist name entries).subset (Entries.mem_of_get? hget)
        exact h.child (Entries.get?_eq_some_of_mem h.entries hmem)
      | cons more rest =>
        rw [Node.erase]
        cases hget : Entries.get? name entries with
        | none => exact h
        | some child =>
          refine .directory (h.entries.set name _) ?_
          intro other found hfound
          rw [Entries.get?_set] at hfound
          split at hfound
          next => exact Option.some.inj hfound ▸ ih (h.child hget)
          next => exact h.child hfound

/-- What is taken away from a directory of an ordered tree is gone with all below it, and nothing
else changes. -/
theorem occupant?_erase {tree : Node} (hordered : tree.Ordered) {directory : Location}
    (name : Name) (h : tree.occupant? directory = some .directory) (location : Location) :
    (tree.erase (directory ++ [name])).occupant? location =
      if directory ++ [name] <+: location then none else tree.occupant? location := by
  induction directory generalizing tree location with
  | nil =>
    cases tree with
    | file content => cases h
    | directory entries =>
      cases location with
      | nil => simp [erase, occupant]
      | cons first rest =>
        simp only [List.nil_append, erase, occupant?_directory_cons, List.cons_prefix_cons,
          List.nil_prefix, and_true]
        by_cases hname : name = first
        · subst hname
          simp [Entries.get?_erase_self hordered.entries]
        · simp [hname, Entries.get?_erase_of_ne hname]
  | cons parent directory ih =>
    cases tree with
    | file content => cases h
    | directory entries =>
      obtain ⟨more, rest, hmore⟩ := List.exists_cons_of_ne_nil
        (List.append_ne_nil_of_right_ne_nil directory (List.cons_ne_nil name []))
      cases hget : Entries.get? parent entries with
      | none => simp [hget] at h
      | some child =>
        have hchild : child.occupant? directory = some .directory := by simpa [hget] using h
        have herase : (Node.directory entries).erase (parent :: directory ++ [name]) =
            .directory (Entries.set parent (child.erase (directory ++ [name])) entries) := by
          rw [List.cons_append, hmore, erase, hget]
        rw [herase]
        cases location with
        | nil => simp [occupant]
        | cons first rest' =>
          rw [occupant?_directory_cons, occupant?_directory_cons, Entries.get?_set]
          by_cases hfirst : parent = first
          · subst hfirst
            simp [hget, ih (hordered.child hget) hchild]
          · simp [hfirst]

/-- Taking away what is no directory changes what is at its location and nothing else. -/
theorem occupant?_erase_leaf {tree : Node} (hordered : tree.Ordered) {directory : Location}
    {name : Name} (hdirectory : tree.occupant? directory = some .directory)
    (h : tree.occupant? (directory ++ [name]) ≠ some .directory) :
    (tree.erase (directory ++ [name])).occupant? =
      Function.update tree.occupant? (directory ++ [name]) none := by
  funext location
  rw [occupant?_erase hordered name hdirectory, Function.update_apply]
  by_cases heq : location = directory ++ [name]
  · subst heq
    simp
  · rw [if_neg heq]
    split
    next hpre => rw [occupant?_eq_none_below hpre (Ne.symm heq) h]
    next => rfl

/-- Ordered trees are the same when the same is at every location of them. -/
theorem eq_of_occupant?_eq {first second : Node} (hfirst : first.Ordered) (hsecond : second.Ordered)
    (h : first.occupant? = second.occupant?) : first = second := by
  have htop : first.occupant = second.occupant := by simpa using congrFun h []
  cases first with
  | file content =>
    cases second with
    | file content' => rw [Occupant.file.inj htop]
    | directory entries => cases htop
  | directory entries =>
    cases second with
    | file content => cases htop
    | directory entries' =>
      congr 1
      refine Entries.eq_of_get?_eq hfirst.entries hsecond.entries fun name => ?_
      have hbelow : ∀ rest, (Entries.get? name entries).bind (occupant? · rest) =
          (Entries.get? name entries').bind (occupant? · rest) := by
        intro rest
        simpa using congrFun h (name :: rest)
      cases hget : Entries.get? name entries with
      | none =>
        cases hget' : Entries.get? name entries' with
        | none => rfl
        | some node' => simpa [hget, hget'] using hbelow []
      | some node =>
        cases hget' : Entries.get? name entries' with
        | none => simpa [hget, hget'] using hbelow []
        | some node' =>
          have := sizeOf_lt_of_get? hget
          refine congrArg some (eq_of_occupant?_eq (hfirst.child hget) (hsecond.child hget') ?_)
          funext rest
          simpa [hget, hget'] using hbelow rest
termination_by sizeOf first

end Node

end Carta.Storage
