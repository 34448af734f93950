import Carta.Proofs.ArchivedProjects
import Carta.Proofs.DirectoryChecksums

/-!
# Damage to other entries of an archive

Every entry up to the first project is opened before its name is looked at, and for that it needs its
second header. So an archive in which the signature of such a header is damaged cannot be loaded,
although the header is that of an entry which is only passed over. What else of other entries is
damaged, before or after the project, makes no difference: the rest of their headers, their data,
their checksums.
-/

namespace Carta.Archive

/-! ## The record that counts -/

/-- The record at an offset is the last one in an archive whose headers can be read, and it tells the
place of the directory. -/
structure IsRecord (bytes : List UInt8) (offset : Nat) (place : DirectoryPlace) : Prop where
  mem : offset ∈ occurrences endSignature 0 bytes
  place_eq : directoryPlace? bytes offset = some place
  last : ∀ later ∈ occurrences endSignature 0 bytes, offset < later →
    headersOfRecord? bytes later = none

/-- The occurrences of a signature are in order. -/
theorem pairwise_occurrences (signature : List UInt8) (offset : Nat) (bytes : List UInt8) :
    (occurrences signature offset bytes).Pairwise (· < ·) := by
  induction bytes generalizing offset with
  | nil => exact .nil
  | cons b bytes ih =>
    rw [occurrences]
    split
    · exact .cons (fun place hplace => le_of_mem_occurrences hplace) (ih (offset + 1))
    · exact ih (offset + 1)

/-- The headers of a record are those that are read in the place of its directory. -/
theorem headersOfRecord?_of_place {bytes : List UInt8} {offset : Nat} {place : DirectoryPlace}
    (h : directoryPlace? bytes offset = some place) :
    headersOfRecord? bytes offset =
      (readHeaders? place place.count place.start (bytes.drop place.start)).map (·.map Prod.snd) := by
  rw [headersOfRecord?, h, ← readEntries?_eq]
  rfl

/-- An archive has the headers of the record that counts. -/
theorem headers?_eq_some_iff {bytes : List UInt8} {entries : List Entry} :
    headers? bytes = some entries ↔ ∃ offset place headers, IsRecord bytes offset place ∧
      readHeaders? place place.count place.start (bytes.drop place.start) = some headers ∧
      headers.map Prod.snd = entries := by
  rw [headers?, List.findSome?_eq_some_iff]
  have hordered := pairwise_occurrences endSignature 0 bytes
  constructor
  · rintro ⟨laters, offset, earlier, hsplit, hfound, hnone⟩
    have hrecords := congrArg List.reverse hsplit
    rw [List.reverse_reverse, List.reverse_append, List.reverse_cons, List.append_assoc,
      List.singleton_append] at hrecords
    cases hplace : directoryPlace? bytes offset with
    | none => simp [headersOfRecord?, hplace] at hfound
    | some place =>
      rw [headersOfRecord?_of_place hplace] at hfound
      obtain ⟨headers, hheaders, hentries⟩ := Option.map_eq_some_iff.mp hfound
      refine ⟨offset, place, headers, ⟨by simp [hrecords], hplace, fun later hlater hafter => ?_⟩,
        hheaders, hentries⟩
      rw [hrecords] at hordered hlater
      obtain ⟨-, -, hbefore⟩ := List.pairwise_append.mp hordered
      rcases List.mem_append.mp hlater with hearlier | hlater
      · exact absurd (hbefore later hearlier offset List.mem_cons_self) (Nat.lt_asymm hafter)
      · rcases List.mem_cons.mp hlater with rfl | hlater
        · exact absurd hafter (Nat.lt_irrefl _)
        · exact hnone later (List.mem_reverse.mp hlater)
  · rintro ⟨offset, place, headers, hrecord, hheaders, rfl⟩
    obtain ⟨earlier, laters, hsplit⟩ := List.append_of_mem hrecord.mem
    refine ⟨laters.reverse, offset, earlier.reverse, by simp [hsplit], ?_, fun later hlater => ?_⟩
    · rw [headersOfRecord?_of_place hrecord.place_eq, hheaders, Option.map_some]
    · rw [hsplit, List.pairwise_append] at hordered
      have hlater := List.mem_reverse.mp hlater
      refine hrecord.last later (by simp [hsplit, hlater]) ?_
      exact (List.pairwise_cons.mp hordered.2.1).1 later hlater

/-! ## Entries with other checksums -/

/-- The same entry, but for the checksum, and with that unless it may be another one. -/
structure SameEntry (mayDiffer : Entry → Prop) (entry other : Entry) : Prop where
  eq_withChecksum : other = entry.withChecksum other.checksum
  kept : ¬ mayDiffer entry → other = entry

section SameEntries

variable {mayDiffer : Entry → Prop} {entry other : Entry} {entries others : List Entry}

/-- Entries that are the same but for the checksum have the same name. -/
theorem SameEntry.name_eq (h : SameEntry mayDiffer entry other) : other.name = entry.name := by
  rw [h.eq_withChecksum]
  rfl

/-- Entries that are the same but for the checksum are projects alike. -/
theorem SameEntry.isProject_eq (h : SameEntry mayDiffer entry other) :
    other.isProject = entry.isProject := by
  rw [h.eq_withChecksum]
  rfl

/-- The checksum has nothing to do with where the data are. -/
theorem SameEntry.dataStart_eq (h : SameEntry mayDiffer entry other) (bytes : List UInt8) :
    other.dataStart bytes = entry.dataStart bytes := by
  rw [h.eq_withChecksum]
  rfl

/-- The last headers of each name are the same but for their checksums. -/
theorem forall₂_lastOfEachName (h : List.Forall₂ (SameEntry mayDiffer) entries others) :
    List.Forall₂ (SameEntry mayDiffer) (lastOfEachName entries) (lastOfEachName others) := by
  have hnames : others.map (·.name) = entries.map (·.name) := by
    induction h with
    | nil => rfl
    | cons hsame _ ih => rw [List.map_cons, List.map_cons, hsame.name_eq, ih]
  have hlast (name : String) :
      Option.Rel (SameEntry mayDiffer) (lastNamed? entries name) (lastNamed? others name) := by
    rw [lastNamed?, lastNamed?]
    have hreverse := List.forall₂_reverse_iff.mpr h
    generalize entries.reverse = found, others.reverse = more at hreverse
    induction hreverse with
    | nil => exact .none
    | cons hsame _ ih =>
      rw [List.find?_cons, List.find?_cons, hsame.name_eq]
      split
      next => exact .some hsame
      next => exact ih
  rw [lastOfEachName, lastOfEachName, hnames]
  refine List.rel_filterMap ?_ (List.forall₂_same.mpr fun name _ => Eq.refl name)
  rintro name _ rfl
  exact hlast name

/-- Where no entry is a project, none is with other checksums. -/
theorem not_isProject_of_forall₂ (h : List.Forall₂ (SameEntry mayDiffer) entries others)
    (hentries : ∀ entry ∈ entries, entry.isProject = false) :
    ∀ other ∈ others, other.isProject = false := by
  induction h with
  | nil => exact hentries
  | cons hsame _ ih =>
    rw [List.forall_mem_cons] at hentries ⊢
    exact ⟨hsame.isProject_eq.trans hentries.1, ih hentries.2⟩

end SameEntries

/-! ## Entries that are passed over -/

section Opening

variable {bytes damaged : List UInt8} {entry : Entry}

/-- The second header of an entry is there when the bytes have room for it and its signature. -/
theorem dataStart?_eq_none_iff : entry.dataStart? bytes = none ↔
    bytes.length < entry.offset + 30 ∨ slice bytes entry.offset 4 ≠ localSignature := by
  have hsignature : (slice bytes entry.offset 30).take 4 = slice bytes entry.offset 4 := by
    rw [slice, slice, List.take_take]
    rfl
  have hlength : (slice bytes entry.offset 30).length < 30 ↔ bytes.length < entry.offset + 30 := by
    rw [slice, List.length_take, List.length_drop]
    omega
  simp only [Entry.dataStart?, hsignature, hlength]
  split
  next h => exact iff_of_true rfl h
  next h => exact iff_of_false (Option.some_ne_none _) h

/-- The data of an entry are behind its second header. -/
theorem le_of_dataStart? {start : Nat} (h : entry.dataStart? bytes = some start) :
    entry.offset + 30 ≤ start := by
  rw [Entry.dataStart?] at h
  split at h
  next => cases h
  next =>
    obtain rfl := Option.some.inj h
    omega

/-- Whether an entry can be opened depends on the signature of its second header alone. -/
theorem dataStart_map_of_signature (hlength : damaged.length = bytes.length)
    (hsignature : slice damaged entry.offset 4 = localSignature ↔
      slice bytes entry.offset 4 = localSignature) :
    (entry.dataStart damaged).map (fun _ => ()) = (entry.dataStart bytes).map fun _ => () := by
  have hnone : entry.dataStart? damaged = none ↔ entry.dataStart? bytes = none := by
    rw [dataStart?_eq_none_iff, dataStart?_eq_none_iff, hlength, Ne, hsignature]
  rw [Entry.dataStart, Entry.dataStart]
  cases hbytes : entry.dataStart? bytes with
  | none => rw [hnone.mpr hbytes]
  | some start =>
    cases hdamaged : entry.dataStart? damaged with
    | none => exact absurd (hnone.mp hdamaged) (by simp [hbytes])
    | some start => split_ifs <;> rfl

/-- An entry that can be opened has the signature. -/
theorem signature_of_dataStart {start : Nat} (hopen : entry.dataStart bytes = .ok start) :
    slice bytes entry.offset 4 = localSignature := by
  by_contra hsignature
  rw [Entry.dataStart, dataStart?_eq_none_iff.mpr (.inr hsignature)] at hopen
  split at hopen <;> cases hopen

/-- An entry that could be opened cannot be opened without the signature. -/
theorem dataStart_of_no_signature {start : Nat} (hopen : entry.dataStart bytes = .ok start)
    (hsignature : slice damaged entry.offset 4 ≠ localSignature) :
    entry.dataStart damaged = .error .noLocalHeader := by
  have hplain : ¬ entry.encrypted = true := by
    intro hencrypted
    rw [Entry.dataStart, if_pos hencrypted] at hopen
    cases hopen
  rw [Entry.dataStart, if_neg hplain, dataStart?_eq_none_iff.mpr (.inr hsignature)]

end Opening

section PassedOver

variable {mayDiffer : Entry → Prop} {bytes damaged : List UInt8} {before others : List Entry}
  (hsame : List.Forall₂ (SameEntry mayDiffer) before others)
  (hbefore : ∀ entry ∈ before, entry.isProject = false)

include hsame hbefore

/-- Entries whose second headers keep their signatures are passed over as before. -/
theorem firstProject_of_signatures (hlength : damaged.length = bytes.length)
    (hsignatures : ∀ entry ∈ before, slice damaged entry.offset 4 = localSignature ↔
      slice bytes entry.offset 4 = localSignature) {entries found : List Entry}
    (hrest : firstProject damaged found = firstProject bytes entries) :
    firstProject damaged (others ++ found) = firstProject bytes (before ++ entries) := by
  induction hsame with
  | nil => exact hrest
  | @cons entry other before others hentry _ ih =>
    rw [List.forall_mem_cons] at hbefore hsignatures
    have hopen := dataStart_map_of_signature hlength hsignatures.1
    have hrest := ih hbefore.2 hsignatures.2
    rw [List.cons_append, List.cons_append, firstProject, firstProject, hentry.dataStart_eq,
      hentry.isProject_eq, hbefore.1]
    cases hbytes : entry.dataStart bytes with
    | error fault =>
      rw [hbytes] at hopen
      rw [map_eq_error_iff.mp hopen]
    | ok start =>
      rw [hbytes] at hopen
      obtain ⟨other, hother, -⟩ := map_eq_ok_iff.mp hopen
      rw [hother]
      exact hrest

/-- An entry that is passed over and cannot be opened any more is told. -/
theorem firstProject_of_no_signature (hlength : damaged.length = bytes.length)
    (hopen : ∀ entry ∈ before, ∃ start, entry.dataStart bytes = .ok start)
    (hlost : ∃ entry ∈ before, slice damaged entry.offset 4 ≠ localSignature)
    (found : List Entry) :
    firstProject damaged (others ++ found) = .error .noLocalHeader := by
  induction hsame with
  | nil =>
    obtain ⟨_, hmem, -⟩ := hlost
    exact absurd hmem List.not_mem_nil
  | @cons entry other before others hentry _ ih =>
    rw [List.forall_mem_cons] at hbefore hopen
    obtain ⟨start, hstart⟩ := hopen.1
    rw [List.cons_append, firstProject, hentry.dataStart_eq, hentry.isProject_eq, hbefore.1]
    by_cases hsignature : slice damaged entry.offset 4 = localSignature
    · have hkept := dataStart_map_of_signature hlength
        (iff_of_true hsignature (signature_of_dataStart hstart))
      rw [hstart] at hkept
      obtain ⟨other, hother, -⟩ := map_eq_ok_iff.mp hkept
      obtain ⟨lost, hmem, hnone⟩ := hlost
      rw [hother]
      refine ih hbefore.2 hopen.2 ⟨lost, (List.mem_cons.mp hmem).resolve_left ?_, hnone⟩
      rintro rfl
      exact hnone hsignature
    · rw [dataStart_of_no_signature hstart hsignature]

end PassedOver

/-! ## Damage -/

/-- Bytes that differ from those of an archive before the directory, and in the checksums of headers
in it, but not where the second header, the name and the data of an entry are, and not in its
checksum. -/
structure IsDamage (place : DirectoryPlace) (headers : List (Nat × Entry)) (entry : Entry)
    (bytes damaged : List UInt8) : Prop where
  length_eq : damaged.length = bytes.length
  elsewhere : ∀ position, damaged[position]? ≠ bytes[position]? →
    position < place.start ∨
      ∃ header ∈ headers, header.2 ≠ entry ∧ InChecksum header.1 position
  spared : ∀ start, entry.dataStart? bytes = some start → ∀ position, entry.offset ≤ position →
    position < start + entry.size → damaged[position]? = bytes[position]?

section Damage

variable {place : DirectoryPlace} {headers : List (Nat × Entry)} {entry : Entry}
  {bytes damaged : List UInt8}

/-- The headers of a damaged archive are the same but for checksums. -/
theorem IsDamage.exists_headers (h : IsDamage place headers entry bytes damaged)
    (hheaders : readHeaders? place place.count place.start (bytes.drop place.start) = some headers) :
    ∃ found, readHeaders? place place.count place.start (damaged.drop place.start) = some found ∧
      List.Forall₂ (SameEntry (· ≠ entry)) (headers.map Prod.snd) (found.map Prod.snd) := by
  have hlength : (damaged.drop place.start).length = (bytes.drop place.start).length := by
    rw [List.length_drop, List.length_drop, h.length_eq]
  obtain ⟨found, hfound, hsame⟩ := readHeaders?_of_checksums (· ≠ entry) hlength hheaders
    fun position hne => by
      rw [List.getElem?_drop, List.getElem?_drop] at hne
      exact (h.elsewhere _ hne).resolve_left (by omega)
  refine ⟨found, hfound, ?_⟩
  rw [List.forall₂_map_left_iff, List.forall₂_map_right_iff]
  exact hsame.imp fun _ _ hheader => ⟨hheader.entry_eq, hheader.kept⟩

/-- A project with a content that is not damaged is read as that. -/
theorem IsDamage.hasContent (h : IsDamage place headers entry bytes damaged) {content : List UInt8}
    (hcontent : entry.HasContent bytes content) : entry.HasContent damaged content := by
  obtain ⟨start, hstart, hdata⟩ := hcontent.data
  have hle := le_of_dataStart? hstart
  have hheader : slice damaged entry.offset 30 = slice bytes entry.offset 30 :=
    slice_congr fun position hfrom hbelow => h.spared start hstart position hfrom (by omega)
  have hslice : slice damaged start entry.size = slice bytes start entry.size :=
    slice_congr fun position hfrom hbelow => h.spared start hstart position (by omega) hbelow
  refine ⟨hcontent.open_encrypted, hcontent.open_sealed, ⟨start, ?_, hslice ▸ hdata⟩,
    hcontent.checksum_eq⟩
  rw [← hstart, Entry.dataStart?, Entry.dataStart?, hheader]

/-! ### Where the record is found again -/

/-- A signature occurs where its bytes are. -/
theorem mem_occurrences_iff {signature : List UInt8} (hsignature : signature ≠ [])
    {offset position : Nat} {bytes : List UInt8} :
    position ∈ occurrences signature offset bytes ↔
      ∃ index, position = offset + index ∧ slice bytes index 4 = signature := by
  induction bytes generalizing offset with
  | nil =>
    refine iff_of_false (by simp [occurrences]) ?_
    rintro ⟨index, -, hslice⟩
    exact hsignature (by simpa [slice] using hslice.symm)
  | cons b bytes ih =>
    have hmore : (∃ index, position = offset + index ∧ slice (b :: bytes) index 4 = signature) ↔
        position = offset ∧ (b :: bytes).take 4 = signature ∨
          position ∈ occurrences signature (offset + 1) bytes := by
      rw [ih]
      constructor
      · rintro ⟨index, rfl, hslice⟩
        cases index with
        | zero => exact .inl ⟨rfl, hslice⟩
        | succ index => exact .inr ⟨index, by omega, hslice⟩
      · rintro (⟨rfl, htake⟩ | ⟨index, rfl, hslice⟩)
        · exact ⟨0, rfl, htake⟩
        · exact ⟨index + 1, by omega, hslice⟩
    rw [hmore, occurrences]
    split
    next htake => rw [List.mem_cons, and_iff_left htake]
    next htake => exact (or_iff_right fun hboth => htake hboth.2).symm

/-- A signature occurs first where bytes begin with it. -/
theorem head?_occurrences_iff {signature : List UInt8} (hsignature : signature ≠ [])
    {offset : Nat} {bytes : List UInt8} :
    (occurrences signature offset bytes).head? = some offset ↔ bytes.take 4 = signature := by
  cases bytes with
  | nil => exact iff_of_false (Option.some_ne_none _).symm fun htake => hsignature htake.symm
  | cons b bytes =>
    rw [occurrences]
    split
    next htake => exact iff_of_true rfl htake
    next htake =>
      refine iff_of_false (fun hhead => ?_) htake
      have hle := le_of_mem_occurrences (List.mem_of_mem_head? hhead)
      omega

/-- The bytes of the directory and behind it are not damaged but for checksums. -/
theorem IsDamage.getElem?_eq (h : IsDamage place headers entry bytes damaged)
    (hheaders : readHeaders? place place.count place.start (bytes.drop place.start) = some headers)
    {position : Nat} (hstart : place.start ≤ position)
    (hoff : position < place.start + 16 ∨ ∀ header ∈ headers, header.1 + 20 ≤ position) :
    damaged[position]? = bytes[position]? := by
  by_contra hne
  rcases h.elsewhere position hne with hbefore | ⟨header, hmem, -, hfrom, hbelow⟩
  · omega
  · have hle := le_of_mem_readHeaders? hheaders hmem
    rcases hoff with hfirst | hbehind
    · omega
    · have hfar := hbehind header hmem
      omega

section Plain

variable {offset : Nat} (h : IsDamage place headers entry bytes damaged)
  (hheaders : readHeaders? place place.count place.start (bytes.drop place.start) = some headers)

include h hheaders

/-- Where no offsets are shifted, the first header of the directory is found where it was. -/
theorem IsDamage.shift?_eq {record : EndRecord} (hshift : record.shift? bytes = some 0)
    (hstart : record.directoryOffset = place.start) : record.shift? damaged = some 0 := by
  rw [EndRecord.shift?] at hshift ⊢
  split
  next hempty => rwa [if_pos hempty] at hshift
  next hempty =>
    rw [if_neg hempty] at hshift
    split
    next hle => rwa [if_pos hle] at hshift
    next hle =>
      rw [if_neg hle] at hshift
      dsimp only at hshift ⊢
      rw [head?_occurrences_iff (by decide), slice, List.take_take] at hshift ⊢
      rw [← hshift]
      refine slice_congr fun position hfrom hbelow => ?_
      exact h.getElem?_eq hheaders (by omega) (.inl (by omega))

variable (hbehind : ∀ header ∈ headers, header.1 + 20 ≤ offset) (hstart : place.start ≤ offset)

include hbehind hstart

/-- What is behind the directory is as it was. -/
theorem IsDamage.slice_eq_behind {start size : Nat} (hle : offset ≤ start) :
    slice damaged start size = slice bytes start size :=
  slice_congr fun position hfrom _ => h.getElem?_eq hheaders (by omega) (.inr fun header hmem =>
    Nat.le_trans (hbehind header hmem) (by omega))

/-- A record without a wide one tells the place of the directory as it did. -/
theorem IsDamage.directoryPlace?_eq (hplace : directoryPlace? bytes offset = some place)
    (hplain : ∀ record, EndRecord.read? bytes offset = some record → record.mayBeWide = false)
    (hshift : place.shift = 0) : directoryPlace? damaged offset = some place := by
  have hread : EndRecord.read? damaged offset = EndRecord.read? bytes offset := by
    rw [EndRecord.read?, EndRecord.read?,
      h.slice_eq_behind hheaders hbehind hstart (Nat.le_refl _), h.length_eq]
  rw [directoryPlace?] at hplace ⊢
  rw [hread]
  cases hfound : EndRecord.read? bytes offset with
  | none => simp [hfound] at hplace
  | some record =>
    rw [hfound] at hplace
    have halone := hplain record hfound
    simp only [Option.bind_eq_bind, Option.bind_some, halone, Bool.false_eq_true,
      if_false] at hplace ⊢
    rw [EndRecord.place?] at hplace ⊢
    split at hplace
    next => cases hplace
    next hdisk =>
      obtain ⟨shift, hfoundShift, heq⟩ := Option.map_eq_some_iff.mp hplace
      obtain rfl : shift = 0 := by rw [← hshift, ← heq]
      rw [if_neg hdisk, h.shift?_eq hheaders hfoundShift (by rw [← heq, Nat.add_zero]), ← heq]
      rfl

/-- In an archive that ends with its record and has neither a wide record nor bytes before it, the
directory is found where it was. -/
theorem IsDamage.isRecord (hrecord : IsRecord bytes offset place)
    (hlast : ∀ later ∈ occurrences endSignature 0 bytes, later ≤ offset)
    (hplain : ∀ record, EndRecord.read? bytes offset = some record → record.mayBeWide = false)
    (hshift : place.shift = 0) : IsRecord damaged offset place := by
  have hoccurs (position : Nat) (hposition : offset ≤ position) :
      position ∈ occurrences endSignature 0 damaged ↔
        position ∈ occurrences endSignature 0 bytes := by
    rw [mem_occurrences_iff (by decide), mem_occurrences_iff (by decide)]
    simp only [Nat.zero_add, exists_eq_left', h.slice_eq_behind hheaders hbehind hstart hposition]
  refine ⟨(hoccurs offset (Nat.le_refl _)).mpr hrecord.mem,
    h.directoryPlace?_eq hheaders hbehind hstart hrecord.place_eq hplain hshift,
    fun later hlater hafter => ?_⟩
  have hle := hlast later ((hoccurs later (Nat.le_of_lt hafter)).mp hlater)
  omega

end Plain

/-- Bytes with other ones at some positions. -/
def withChanges (bytes : List UInt8) (changes : List (Nat × UInt8)) : List UInt8 :=
  changes.foldl (fun bytes change => bytes.set change.1 change.2) bytes

/-- Changing bytes does not change how many there are. -/
theorem length_withChanges (bytes : List UInt8) (changes : List (Nat × UInt8)) :
    (withChanges bytes changes).length = bytes.length := by
  induction changes generalizing bytes with
  | nil => rfl
  | cons change changes ih =>
    rw [withChanges, List.foldl_cons]
    exact (ih _).trans List.length_set

/-- A byte that is not changed is the same. -/
theorem getElem?_withChanges {changes : List (Nat × UInt8)} {position : Nat}
    (h : ∀ change ∈ changes, change.1 ≠ position) (bytes : List UInt8) :
    (withChanges bytes changes)[position]? = bytes[position]? := by
  induction changes generalizing bytes with
  | nil => rfl
  | cons change changes ih =>
    rw [List.forall_mem_cons] at h
    rw [withChanges, List.foldl_cons]
    exact (ih h.2 _).trans (List.getElem?_set_ne h.1)

/-- Changes that keep off the directory and the project are damage. -/
theorem isDamage_withChanges {changes : List (Nat × UInt8)}
    (helsewhere : ∀ change ∈ changes, change.1 < place.start ∨
      ∃ header ∈ headers, header.2 ≠ entry ∧ InChecksum header.1 change.1)
    (hspared : ∀ start, entry.dataStart? bytes = some start → ∀ change ∈ changes,
      ¬ (entry.offset ≤ change.1 ∧ change.1 < start + entry.size)) :
    IsDamage place headers entry bytes (withChanges bytes changes) where
  length_eq := length_withChanges bytes changes
  elsewhere position hne := by
    by_contra hoff
    refine hne (getElem?_withChanges (fun change hchange heq => hoff ?_) bytes)
    exact heq ▸ helsewhere change hchange
  spared start hstart position hfrom hbelow := by
    refine getElem?_withChanges (fun change hchange heq => ?_) bytes
    exact hspared start hstart change hchange (by omega)

end Damage

end Carta.Archive

namespace Carta.Storage

open Carta.Archive (DirectoryPlace Entry InChecksum IsDamage IsRecord archiveOf lastOfEachName
  localSignature readHeaders? slice withChanges)
open Carta.Project (Document)

/-- The document of the first project that was found in an archive. -/
def ofFirstProject (path : Path) :
    Except Archive.Fault (Option Xml.Source) → Except Error Document
  | .error fault => .error (.archive fault)
  | .ok none => .error (.noProjectInArchive path.shown)
  | .ok (some source) => Document.ofSource source (some path.shown)

/-- The directory of an archive can be read, and there is a first project among its entries, which has
a content. -/
structure HasProject (bytes : List UInt8) (record : Nat) (place : DirectoryPlace)
    (headers : List (Nat × Entry)) (before : List Entry) (entry : Entry) (after : List Entry)
    (content : List UInt8) : Prop where
  isRecord : IsRecord bytes record place
  headers_eq : readHeaders? place place.count place.start (bytes.drop place.start) = some headers
  entries_eq : lastOfEachName (headers.map Prod.snd) = before ++ entry :: after
  not_isProject : ∀ skipped ∈ before, skipped.isProject = false
  isProject : entry.isProject = true
  hasContent : entry.HasContent bytes content

section Damage

variable {bytes damaged content : List UInt8} {record : Nat} {place : DirectoryPlace}
  {headers : List (Nat × Entry)} {before after : List Entry} {entry : Entry}
  {storage other : Storage} {path : Path}
  (h : HasProject bytes record place headers before entry after content)
  (hopen : storage.open? path = .ok (.file bytes))

include h hopen

/-- An archive is loaded by the first project among its entries. -/
theorem loadArchive_of_hasProject : storage.loadArchive path =
    ofFirstProject path (Archive.firstProject bytes (before ++ entry :: after)) := by
  have hheaders := Archive.headers?_eq_some_iff.mpr
    ⟨record, place, headers, h.isRecord, h.headers_eq, rfl⟩
  rw [loadArchive_eq hheaders hopen, h.entries_eq]
  rcases Archive.firstProject bytes (before ++ entry :: after) with fault | (_ | source) <;> rfl

/-- The project is loaded when all entries before it can be opened. -/
theorem loadArchive_of_open
    (hopened : ∀ skipped ∈ before, ∃ start, skipped.dataStart bytes = .ok start) :
    storage.loadArchive path = Document.ofSource { bytes := content } (some path.shown) := by
  rw [loadArchive_of_hasProject h hopen, Archive.firstProject_of_open h.not_isProject hopened,
    Archive.firstProject_cons h.isProject h.hasContent]
  rfl

variable (hdamage : IsDamage place headers entry bytes damaged)
  (hdamaged : IsRecord damaged record place) (hother : other.open? path = .ok (.file damaged))

omit hopen

include hdamage hdamaged

/-- A damaged archive has the same project, with the same entries before it but for checksums. -/
theorem exists_hasProject_damaged : ∃ headers' before' after',
    HasProject damaged record place headers' before' entry after' content ∧
    List.Forall₂ (Archive.SameEntry (· ≠ entry)) before before' := by
  obtain ⟨found, hfound, hsame⟩ := hdamage.exists_headers h.headers_eq
  have hlast := Archive.forall₂_lastOfEachName hsame
  rw [h.entries_eq] at hlast
  -- The entries of the damaged archive, divided at the project.
  have hskipped := List.forall₂_take before.length hlast
  have hproject := List.forall₂_drop before.length hlast
  rw [List.take_left] at hskipped
  rw [List.drop_left, List.forall₂_cons_left_iff] at hproject
  obtain ⟨kept, others, hkept, -, hdrop⟩ := hproject
  obtain rfl : kept = entry := hkept.kept (not_not.mpr rfl)
  have hsplit := List.take_append_drop before.length (lastOfEachName (found.map Prod.snd))
  rw [hdrop] at hsplit
  exact ⟨found, _, others, ⟨hdamaged, hfound, hsplit.symm,
    Archive.not_isProject_of_forall₂ hskipped h.not_isProject, h.isProject,
    hdamage.hasContent h.hasContent⟩, hskipped⟩

include hopen hother

/-- With the signatures before it as they were, a project is loaded as it was. -/
theorem loadArchive_of_signatures
    (hsignatures : ∀ skipped ∈ before, slice damaged skipped.offset 4 = localSignature ↔
      slice bytes skipped.offset 4 = localSignature) :
    other.loadArchive path = storage.loadArchive path := by
  obtain ⟨headers', before', after', hproject, hsame⟩ :=
    exists_hasProject_damaged h hdamage hdamaged
  rw [loadArchive_of_hasProject hproject hother, loadArchive_of_hasProject h hopen,
    Archive.firstProject_of_signatures hsame h.not_isProject hdamage.length_eq hsignatures]
  rw [Archive.firstProject_cons h.isProject hproject.hasContent,
    Archive.firstProject_cons h.isProject h.hasContent]

omit hopen

/-- When a signature before it is lost, a project that could be loaded cannot be loaded. -/
theorem loadArchive_of_no_signature
    (hopened : ∀ skipped ∈ before, ∃ start, skipped.dataStart bytes = .ok start)
    (hlost : ∃ skipped ∈ before, slice damaged skipped.offset 4 ≠ localSignature) :
    other.loadArchive path = .error (.archive .noLocalHeader) := by
  obtain ⟨headers', before', after', hproject, hsame⟩ :=
    exists_hasProject_damaged h hdamage hdamaged
  rw [loadArchive_of_hasProject hproject hother,
    Archive.firstProject_of_no_signature hsame h.not_isProject hdamage.length_eq hopened hlost]
  rfl

include hopen

/-- **Damage to other entries of an archive makes no difference to the project that is loaded, but for
the signatures of those before it.** An archive has a directory that can be read, and a first project
with a content. Other bytes are put before the directory and in the checksums of it, but not where the
project is, and the directory is found in the same place. When each entry before the project has the
signature of its second header if it had it, loading the archive comes to the same. When all these
entries could be opened, loading it was reading the content of the project; and it fails as soon as
one of them has lost its signature. -/
theorem loadArchive_of_damage :
    ((∀ skipped ∈ before, slice damaged skipped.offset 4 = localSignature ↔
        slice bytes skipped.offset 4 = localSignature) →
      other.loadArchive path = storage.loadArchive path) ∧
    ((∀ skipped ∈ before, ∃ start, skipped.dataStart bytes = .ok start) →
      storage.loadArchive path = Document.ofSource { bytes := content } (some path.shown) ∧
      ((∃ skipped ∈ before, slice damaged skipped.offset 4 ≠ localSignature) →
        other.loadArchive path = .error (.archive .noLocalHeader))) :=
  ⟨loadArchive_of_signatures h hopen hdamage hdamaged hother, fun hopened =>
    ⟨loadArchive_of_open h hopen hopened,
      loadArchive_of_no_signature h hdamage hdamaged hother hopened⟩⟩

end Damage

/-- The bytes of the survey archive. -/
def surveyArchive : List UInt8 := archiveOf (surveyItems "old/survey.qgs")

/-- The entries of the survey archive with the offsets of their headers. -/
def surveyHeaders : List (Nat × Entry) :=
  [(135, notesItem.entry 0), (190, surveyItem.entry 41), (246, (olderItem "old/survey.qgs").entry 87)]

/-- A directory with the survey archive, changed at some positions. -/
def changedStorage (changes : List (Nat × UInt8)) : Storage where
  root := .directory [("survey.qgz", .file (withChanges surveyArchive changes))]

/-- The changed archive is the file under its name. -/
theorem open?_changedStorage (changes : List (Nat × UInt8)) :
    (changedStorage changes).open? ⟨"survey.qgz"⟩ =
      .ok (.file (withChanges surveyArchive changes)) := by
  with_unfolding_all rfl

/-- The record at the end of the archive is the only one. -/
theorem occurrences_surveyArchive :
    Archive.occurrences Archive.endSignature 0 surveyArchive = [306] := by
  decide +kernel

/-- The record of the archive tells where its directory is. -/
theorem isRecord_surveyArchive : IsRecord surveyArchive 306 ⟨0, 135, 3⟩ := by
  refine ⟨by simp [occurrences_surveyArchive], by decide +kernel, fun later hlater hafter => ?_⟩
  rw [occurrences_surveyArchive, List.mem_singleton] at hlater
  omega

/-- The headers in the directory of the archive. -/
theorem readHeaders?_surveyArchive :
    readHeaders? ⟨0, 135, 3⟩ 3 135 (surveyArchive.drop 135) = some surveyHeaders := by
  decide +kernel

/-- The survey archive has an attachment before the project, and an older project behind it. -/
theorem lastOfEachName_surveyHeaders : lastOfEachName (surveyHeaders.map Prod.snd) =
    [notesItem.entry 0] ++ surveyItem.entry 41 :: [(olderItem "old/survey.qgs").entry 87] := by
  decide +kernel

/-- The project in the survey archive is there and whole. -/
theorem hasProject_surveyArchive : HasProject surveyArchive 306 ⟨0, 135, 3⟩ surveyHeaders
    [notesItem.entry 0] (surveyItem.entry 41) [(olderItem "old/survey.qgs").entry 87]
    (Text.Utf8.encode "<a/>") where
  isRecord := isRecord_surveyArchive
  headers_eq := readHeaders?_surveyArchive
  entries_eq := lastOfEachName_surveyHeaders
  not_isProject := by decide +kernel
  isProject := by decide +kernel
  hasContent := (hasContent_surveyItems (by decide +kernel)).1

/-- Damage to the survey archive that keeps off the directory, but for the checksums of attachments,
and off the project. -/
def IsHarm (changes : List (Nat × UInt8)) : Prop :=
  ∀ change ∈ changes, (change.1 < 135 ∨
    ∃ header ∈ surveyHeaders, header.2 ≠ surveyItem.entry 41 ∧ InChecksum header.1 change.1) ∧
    ¬ (41 ≤ change.1 ∧ change.1 < 87)

instance (changes : List (Nat × UInt8)) : Decidable (IsHarm changes) :=
  inferInstanceAs (Decidable (∀ change ∈ changes, _))

section Harm

variable {changes : List (Nat × UInt8)} (h : IsHarm changes)

include h

/-- The harm is damage that keeps off the directory and the project. -/
theorem isDamage_surveyArchive : IsDamage ⟨0, 135, 3⟩ surveyHeaders (surveyItem.entry 41)
    surveyArchive (withChanges surveyArchive changes) := by
  refine Archive.isDamage_withChanges (fun change hchange => (h change hchange).1) ?_
  intro start hstart change hchange hregion
  have hdata : (surveyItem.entry 41).dataStart? surveyArchive = some 81 := by decide +kernel
  obtain rfl := Option.some.inj (hdata.symm.trans hstart)
  exact (h change hchange).2 hregion

/-- The harmed archive is read by the same record. -/
theorem isRecord_withChanges : IsRecord (withChanges surveyArchive changes) 306 ⟨0, 135, 3⟩ := by
  refine (isDamage_surveyArchive h).isRecord readHeaders?_surveyArchive (by decide) (by decide)
    isRecord_surveyArchive (by simp [occurrences_surveyArchive]) (fun record hread => ?_) rfl
  have hplain : (Archive.EndRecord.read? surveyArchive 306).all (!·.mayBeWide) = true := by
    decide +kernel
  rw [hread] at hplain
  simpa using hplain

end Harm

/-- The attachment in the survey archive can be opened. -/
theorem exists_dataStart_surveyArchive : ∀ skipped ∈ [notesItem.entry 0],
    ∃ start, skipped.dataStart surveyArchive = .ok start := by
  rw [List.forall_mem_singleton]
  exact exists_eq_ok_of_isOk (by decide +kernel)

/-- The signature of the attachment is lost. -/
theorem exists_no_signature : ∃ skipped ∈ [notesItem.entry 0],
    slice (withChanges surveyArchive [(0, 0)]) skipped.offset 4 ≠ localSignature := by
  decide +kernel

/-- The survey is loaded with damage to an attachment before it and to an older project behind it. With
damage to the signature before the attachment it is not. -/
theorem loadArchive_changedStorage :
    (changedStorage [(4, 9), (39, 0x78), (87, 0), (151, 1)]).loadArchive ⟨"survey.qgz"⟩ =
      (changedStorage []).loadArchive ⟨"survey.qgz"⟩ ∧
    (changedStorage []).loadArchive ⟨"survey.qgz"⟩ =
      Document.ofSource { bytes := Text.Utf8.encode "<a/>" } (some "survey.qgz") ∧
    (changedStorage [(0, 0)]).loadArchive ⟨"survey.qgz"⟩ = .error (.archive .noLocalHeader) := by
  have hload (changes : List (Nat × UInt8)) (h : IsHarm changes) :=
    loadArchive_of_damage hasProject_surveyArchive (open?_changedStorage [])
      (isDamage_surveyArchive h) (isRecord_withChanges h) (open?_changedStorage changes)
  have hsound := hload [(4, 9), (39, 0x78), (87, 0), (151, 1)] (by decide +kernel)
  have hbroken := hload [(0, 0)] (by decide +kernel)
  exact ⟨hsound.1 (by decide +kernel), (hsound.2 exists_dataStart_surveyArchive).1,
    (hbroken.2 exists_dataStart_surveyArchive).2 exists_no_signature⟩

/-- **Damage to the second header of an attachment hides the project behind it.** A document of one
element is loaded from the survey archive, and no document when the first byte is another one: so it is
not so that damage to other entries makes no difference to what is loaded. -/
theorem damaged_attachment_told :
    (changedStorage []).loadArchive ⟨"survey.qgz"⟩ =
      .ok { root := { name := "a" }, source := some "survey.qgz" } ∧
    (changedStorage [(0, 0)]).loadArchive ⟨"survey.qgz"⟩ = .error (.archive .noLocalHeader) ∧
    ¬ ∀ bytes damaged record place headers before entry after content (storage other : Storage) path,
      HasProject bytes record place headers before entry after content →
      IsDamage place headers entry bytes damaged → IsRecord damaged record place →
      storage.open? path = .ok (.file bytes) → other.open? path = .ok (.file damaged) →
      other.loadArchive path = storage.loadArchive path := by
  have hharm : IsHarm [(0, 0)] := by decide +kernel
  have hsound : (changedStorage []).loadArchive ⟨"survey.qgz"⟩ =
      .ok { root := { name := "a" }, source := some "survey.qgz" } := by
    rw [loadArchive_of_open hasProject_surveyArchive (open?_changedStorage [])
      exists_dataStart_surveyArchive]
    with_unfolding_all rfl
  have hbroken : (changedStorage [(0, 0)]).loadArchive ⟨"survey.qgz"⟩ =
      .error (.archive .noLocalHeader) :=
    loadArchive_of_no_signature hasProject_surveyArchive (isDamage_surveyArchive hharm)
      (isRecord_withChanges hharm) (open?_changedStorage _) exists_dataStart_surveyArchive
      exists_no_signature
  refine ⟨hsound, hbroken, fun hsame => ?_⟩
  have heq := hsame _ _ _ _ _ _ _ _ _ _ _ _ hasProject_surveyArchive (isDamage_surveyArchive hharm)
    (isRecord_withChanges hharm) (open?_changedStorage []) (open?_changedStorage _)
  rw [hsound, hbroken] at heq
  cases heq

end Carta.Storage
