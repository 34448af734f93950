import Carta.Archive.Content
import Mathlib.Data.List.Induction
import Mathlib.Data.List.Nodup

/-!
# The entries of an archive

The directory of an archive lists its entries by headers. Of several headers with one name the last
one counts, at the place of the first, so an archive has as many entries as there are names. An entry
that can be read has a content, and the project in an archive is the content of the first of its
entries that is a project.
-/

namespace Carta.Archive

/-! ## Headers and entries -/

/-- The headers that the record at an offset tells of. -/
def headersOfRecord? (bytes : List UInt8) (offset : Nat) : Option (List Entry) := do
  let place ← directoryPlace? bytes offset
  readEntries? place place.count (bytes.drop place.start)

/-- The headers in the directory of an archive, in order. -/
def headers? (bytes : List UInt8) : Option (List Entry) :=
  (occurrences endSignature 0 bytes).reverse.findSome? (headersOfRecord? bytes)

/-- The last header with a name. -/
def lastNamed? (headers : List Entry) (name : String) : Option Entry :=
  headers.reverse.find? (·.name = name)

/-- The last header of each name, at the place of the first one. -/
def lastOfEachName (headers : List Entry) : List Entry :=
  (headers.map (·.name)).eraseDups.filterMap (lastNamed? headers)

/-- A name at the end counts where it is new. -/
theorem eraseDups_concat (names : List String) (name : String) :
    (names ++ [name]).eraseDups =
      if name ∈ names then names.eraseDups else names.eraseDups ++ [name] := by
  rw [List.eraseDups_append]
  by_cases h : name ∈ names <;> simp [h, List.removeAll, List.eraseDups_cons]

/-- The names that count are different. -/
theorem nodup_eraseDups (names : List String) : names.eraseDups.Nodup := by
  induction names using List.reverseRecOn with
  | nil => exact List.nodup_nil
  | append_singleton names name ih =>
    rw [eraseDups_concat]
    split
    next => exact ih
    next h =>
      refine List.nodup_append.mpr ⟨ih, List.nodup_singleton name, fun other hother last hlast heq => ?_⟩
      rw [heq, List.mem_singleton.mp hlast, List.mem_eraseDups] at hother
      exact h hother

/-- With one more header, that one is the last of its name. -/
theorem lastNamed?_concat (headers : List Entry) (header : Entry) (name : String) :
    lastNamed? (headers ++ [header]) name =
      if header.name = name then some header else lastNamed? headers name := by
  rw [lastNamed?, List.reverse_append, List.reverse_singleton, List.singleton_append, List.find?_cons]
  by_cases h : header.name = name <;> simp [h, lastNamed?]

/-- There is a last header of each name in a directory, and it has the name. -/
theorem exists_lastNamed? {headers : List Entry} {name : String}
    (h : name ∈ headers.map (·.name)) :
    ∃ header, lastNamed? headers name = some header ∧ header.name = name := by
  obtain ⟨header, hmem, rfl⟩ := List.mem_map.mp h
  cases hlast : lastNamed? headers header.name with
  | none =>
    have := List.find?_eq_none.mp hlast header (List.mem_reverse.mpr hmem)
    simp at this
  | some last => exact ⟨last, rfl, by simpa using List.find?_some hlast⟩

/-- Putting an entry among those that belong to different names. -/
theorem putEntry_filterMap {entry : Entry} {names : List String} {of? : String → Option Entry}
    (hnodup : names.Nodup)
    (hof : ∀ name ∈ names, ∃ other, of? name = some other ∧ other.name = name) :
    putEntry entry (names.filterMap of?) =
      (if entry.name ∈ names then names else names ++ [entry.name]).filterMap fun name =>
        if entry.name = name then some entry else of? name := by
  induction names with
  | nil => simp [putEntry]
  | cons name names ih =>
    obtain ⟨other, hother, rfl⟩ := hof name List.mem_cons_self
    obtain ⟨hnew, hnodup⟩ := List.nodup_cons.mp hnodup
    have hrest := ih hnodup fun name hname => hof name (List.mem_cons_of_mem _ hname)
    rw [List.filterMap_cons_some hother, putEntry]
    by_cases hsame : other.name = entry.name
    · have hothers : ∀ name ∈ names, of? name = if entry.name = name then some entry else of? name := by
        intro name hname
        rw [if_neg]
        rintro rfl
        exact hnew (hsame ▸ hname)
      rw [if_pos hsame, if_pos (by simp [hsame]), List.filterMap_cons_some (by rw [if_pos hsame.symm]),
        List.filterMap_congr hothers]
    · have hfirst : (if entry.name = other.name then some entry else of? other.name) = some other := by
        rw [if_neg (Ne.symm hsame), hother]
      have hmem : entry.name ∈ other.name :: names ↔ entry.name ∈ names := by
        simp [Ne.symm hsame]
      rw [if_neg hsame, hrest]
      simp only [hmem]
      split <;> simp only [List.cons_append, List.filterMap_cons, hfirst]

/-- Putting the headers one after the other leaves the last of each name. -/
theorem foldl_putEntry (headers : List Entry) :
    headers.foldl (fun before entry => putEntry entry before) [] = lastOfEachName headers := by
  induction headers using List.reverseRecOn with
  | nil => rfl
  | append_singleton headers header ih =>
    have hof : ∀ name ∈ (headers.map (·.name)).eraseDups,
        ∃ other, lastNamed? headers name = some other ∧ other.name = name :=
      fun name hname => exists_lastNamed? (List.mem_eraseDups.mp hname)
    rw [List.foldl_append, List.foldl_cons, List.foldl_nil, ih, lastOfEachName,
      putEntry_filterMap (nodup_eraseDups _) hof, lastOfEachName, List.map_append, List.map_singleton,
      eraseDups_concat]
    simp only [List.mem_eraseDups]
    congr 1
    funext name
    exact (lastNamed?_concat headers header name).symm

/-- An entry with a name of its own comes after the others. -/
theorem putEntry_of_new {entry : Entry} {entries : List Entry}
    (h : entry.name ∉ entries.map (·.name)) : putEntry entry entries = entries ++ [entry] := by
  induction entries with
  | nil => rfl
  | cons other rest ih =>
    rw [List.map_cons, List.mem_cons, not_or] at h
    rw [putEntry, if_neg (Ne.symm h.1), ih h.2, List.cons_append]

/-- When all names are different, every header counts. -/
theorem lastOfEachName_eq_self {headers : List Entry} (h : (headers.map (·.name)).Nodup) :
    lastOfEachName headers = headers := by
  induction headers using List.reverseRecOn with
  | nil => rfl
  | append_singleton headers header ih =>
    rw [List.map_append, List.map_singleton, List.nodup_append] at h
    have hnew : header.name ∉ headers.map (·.name) := fun hmem =>
      h.2.2 header.name hmem header.name (List.mem_singleton_self _) rfl
    rw [← foldl_putEntry, List.foldl_append, foldl_putEntry, ih h.1, List.foldl_cons, List.foldl_nil,
      putEntry_of_new hnew]

/-- Only headers count. -/
theorem mem_of_mem_lastOfEachName {headers : List Entry} {entry : Entry}
    (h : entry ∈ lastOfEachName headers) : entry ∈ headers := by
  obtain ⟨name, -, hlast⟩ := List.mem_filterMap.mp h
  exact List.mem_reverse.mp (List.mem_of_find?_eq_some hlast)

/-- The entries of an archive are the last headers of each name. -/
theorem entries?_eq (bytes : List UInt8) : entries? bytes = (headers? bytes).map lastOfEachName := by
  rw [headers?, List.map_findSome?, entries?]
  congr 1
  funext offset
  rw [entriesOfRecord?, Function.comp_apply, headersOfRecord?, Option.bind_eq_bind,
    Option.bind_eq_bind, Option.map_bind]
  congr 1
  funext place
  simp only [foldl_putEntry]
  exact (Option.map_eq_bind ..).symm

/-! ## The content of entries -/

/-- An entry can be read and has a content: it is not encrypted, its second header is in its place,
its data are there as they are or compressed, and the content that they stand for has the stated
checksum. -/
structure Entry.HasContent (bytes : List UInt8) (entry : Entry) (content : List UInt8) : Prop where
  open_encrypted : entry.encrypted = false
  open_sealed : entry.sealed = false
  data : ∃ start, entry.dataStart? bytes = some start ∧
    (entry.method = 0 ∧ content = slice bytes start entry.size ∨
      entry.method = 8 ∧ (expand (slice bytes start entry.size)).damage = none ∧
        content = (expand (slice bytes start entry.size)).output.toList)
  checksum_eq : (Archive.checksum content).toNat = entry.checksum

/-- An entry with a content is opened, and reading it gives the content and does not fail. -/
theorem Entry.HasContent.source_eq {bytes content : List UInt8} {entry : Entry}
    (h : entry.HasContent bytes content) :
    ∃ start, entry.dataStart bytes = .ok start ∧
      entry.source bytes start = .ok { bytes := content } := by
  obtain ⟨start, hstart, hdata⟩ := h.data
  have hchecked : checkedSource entry.checksum content = { bytes := content } := by
    rw [checkedSource, if_pos h.checksum_eq]
  have hknown : entry.method ∈ knownMethods := by
    rcases hdata with ⟨hmethod, -⟩ | ⟨hmethod, -⟩ <;> rw [hmethod] <;> decide
  refine ⟨start, ?_, ?_⟩
  · simp [dataStart, h.open_encrypted, hstart, hknown, h.open_sealed]
  · rcases hdata with ⟨hmethod, hcontent⟩ | ⟨hmethod, hdamage, hcontent⟩
    · rw [source, hmethod, ← hchecked, hcontent]
      rfl
    · have hexpanded : expandedSource entry.checksum (slice bytes start entry.size) =
          { bytes := content } := by
        simp only [expandedSource, hdamage, ← hcontent, hchecked]
      rw [source, hmethod, ← hexpanded]
      rfl

/-- Entries that can be opened and are no projects are passed over. -/
theorem firstProject_of_open {bytes : List UInt8} {before : List Entry}
    (hbefore : ∀ entry ∈ before, entry.isProject = false)
    (hopen : ∀ entry ∈ before, ∃ start, entry.dataStart bytes = .ok start) (entries : List Entry) :
    firstProject bytes (before ++ entries) = firstProject bytes entries := by
  induction before with
  | nil => rfl
  | cons entry before ih =>
    rw [List.forall_mem_cons] at hbefore hopen
    obtain ⟨start, hstart⟩ := hopen.1
    rw [List.cons_append, firstProject, hstart, hbefore.1]
    exact ih hbefore.2 hopen.2

/-- Entries that can be read and are no projects are passed over. -/
theorem firstProject_append {bytes : List UInt8} {before : List Entry}
    (hreadable : ∀ entry ∈ before, ∃ content, entry.HasContent bytes content)
    (hbefore : ∀ entry ∈ before, entry.isProject = false) (entries : List Entry) :
    firstProject bytes (before ++ entries) = firstProject bytes entries := by
  refine firstProject_of_open hbefore (fun entry hentry => ?_) entries
  obtain ⟨content, hcontent⟩ := hreadable entry hentry
  obtain ⟨start, hstart, -⟩ := hcontent.source_eq
  exact ⟨start, hstart⟩

/-- A project with a content is read as that. -/
theorem firstProject_cons {bytes content : List UInt8} {entry : Entry}
    (hproject : entry.isProject = true) (hcontent : entry.HasContent bytes content)
    (after : List Entry) :
    firstProject bytes (entry :: after) = .ok (some { bytes := content }) := by
  obtain ⟨start, hstart, hsource⟩ := hcontent.source_eq
  rw [firstProject, hstart]
  simp only [hproject, if_true, hsource]
  rfl

/-- The project in an archive by its headers. -/
theorem projectSource_eq {bytes : List UInt8} {headers : List Entry}
    (hheaders : headers? bytes = some headers) :
    projectSource bytes = firstProject bytes (lastOfEachName headers) := by
  rw [projectSource, entries?_eq, hheaders]
  rfl

end Carta.Archive
