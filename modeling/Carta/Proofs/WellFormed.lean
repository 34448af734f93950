import Carta.Proofs.Collection

/-!
# Trees as they can be there

In a tree as it can be there, the names in every directory are distinct and in order, they are names,
and they are not too long. This can be checked.
-/

namespace Carta

/-- A tree as it can be there: the names in every directory are distinct and in order, they are
names, and they are not too long. -/
structure Storage.WellFormed (storage : Storage) : Prop where
  ordered : storage.root.Ordered
  named : Command.Named storage.root

namespace Storage

mutual

/-- Checks that the names in a tree are as they have to be. -/
def Node.check : Node → Bool
  | .file _ => true
  | .directory entries => checkEntries entries

/-- Checks that the names of entries, and below them, are as they have to be. -/
def checkEntries : List (Name × Node) → Bool
  | [] => true
  | (name, node) :: rest =>
    decide (IsEntryName name ∧ name.length ≤ maxNameSize) &&
      rest.all (fun entry => decide (name < entry.1)) && node.check && checkEntries rest

end

/-- There are no names below a file. -/
theorem named_file (content : List UInt8) : Command.Named (.file content) := fun location name hsome =>
  absurd (Node.isLeaf_file content (location ++ [name]) (by simp)) hsome

/-- The names below a directory are good when its own are and those below its entries are. -/
theorem named_directory {entries : Entries}
    (h : ∀ name node, Entries.get? name entries = some node →
      (IsEntryName name ∧ name.length ≤ maxNameSize) ∧ Command.Named node) :
    Command.Named (.directory entries) := by
  intro location name hsome
  cases location with
  | nil =>
    rw [List.nil_append, Node.occupant?_directory_cons] at hsome
    obtain ⟨node, hget⟩ := Option.ne_none_iff_exists'.mp fun hnone : Entries.get? name entries = none =>
      hsome (by rw [hnone]; rfl)
    exact (h name node hget).1
  | cons first rest =>
    rw [List.cons_append, Node.occupant?_directory_cons] at hsome
    cases hget : Entries.get? first entries with
    | none =>
      rw [hget] at hsome
      exact absurd rfl hsome
    | some node =>
      rw [hget] at hsome
      exact (h first node hget).2 rest name hsome

mutual

/-- A tree that is checked is as trees have to be. -/
theorem Node.ordered_of_check : ∀ node : Node, node.check = true → node.Ordered ∧ Command.Named node
  | .file content, _ => ⟨.file content, named_file content⟩
  | .directory entries, h => by
    obtain ⟨hordered, hbelow⟩ := ordered_of_checkEntries entries (by rwa [Node.check] at h)
    exact ⟨.directory hordered fun name node hget => (hbelow name node hget).2.1,
      named_directory fun name node hget => ⟨(hbelow name node hget).1, (hbelow name node hget).2.2⟩⟩

/-- Entries that are checked are in order, and below them all is as it has to be. -/
theorem ordered_of_checkEntries : ∀ entries : Entries, checkEntries entries = true →
    Entries.Ordered entries ∧ ∀ name node, Entries.get? name entries = some node →
      (IsEntryName name ∧ name.length ≤ maxNameSize) ∧ node.Ordered ∧ Command.Named node
  | [], _ => ⟨.nil, nofun⟩
  | (first, child) :: rest, h => by
    rw [checkEntries, Bool.and_eq_true, Bool.and_eq_true, Bool.and_eq_true, decide_eq_true_iff,
      List.all_eq_true] at h
    obtain ⟨⟨⟨hname, hfirst⟩, hchild⟩, hrest⟩ := h
    obtain ⟨hordered, hbelow⟩ := ordered_of_checkEntries rest hrest
    refine ⟨List.pairwise_cons.mpr
      ⟨fun entry hentry => of_decide_eq_true (hfirst entry hentry), hordered⟩, ?_⟩
    intro name node hget
    rw [Entries.get?] at hget
    split at hget
    next heq =>
      obtain rfl := heq
      obtain rfl := Option.some.inj hget
      exact ⟨hname, Node.ordered_of_check child hchild⟩
    next => exact hbelow name node hget

end

/-- A storage that passes the check is well-formed. -/
theorem WellFormed.of_check {storage : Storage} (h : storage.root.check = true) :
    storage.WellFormed :=
  ⟨(Node.ordered_of_check _ h).1, (Node.ordered_of_check _ h).2⟩

end Storage

end Carta
