import Carta.Proofs.ArchiveEntries

/-!
# Checksums in the directory of an archive

The checksum in a header of the directory is only passed on. The other bytes of a directory tell the
same of its entries, whatever the checksums in it are.
-/

namespace Carta.Archive

/-! ## Checksums and extra fields -/

/-- An entry with another checksum. -/
def Entry.withChecksum (entry : Entry) (checksum : Nat) : Entry :=
  { entry with checksum }

/-- The same readings but for the checksum of an entry where the bytes end. -/
inductive SameReading (checksum : Nat) {A : Type} (same : A → A → Prop) :
    Except FieldStop A → Except FieldStop A → Prop
  | ended (entry : Entry) : SameReading checksum same
      (.error (.ended entry)) (.error (.ended (entry.withChecksum checksum)))
  | invalid : SameReading checksum same (.error .invalid) (.error .invalid)
  | ok {first second : A} (h : same first second) :
      SameReading checksum same (.ok first) (.ok second)

/-- The same entries but for the checksum, and the same numbers of bytes used. -/
def SameField (checksum : Nat) (first second : Entry × Nat) : Prop :=
  second = (first.1.withChecksum checksum, first.2)

section Fields

variable {checksum : Nat} {A B : Type}

/-- Readings one after the other. -/
theorem SameReading.bind {same : A → A → Prop} {alike : B → B → Prop}
    {first second : Except FieldStop A} {next more : A → Except FieldStop B}
    (h : SameReading checksum same first second)
    (hnext : ∀ a b, same a b → SameReading checksum alike (next a) (more b)) :
    SameReading checksum alike (first >>= next) (second >>= more) := by
  cases h with
  | ended entry => exact .ended entry
  | invalid => exact .invalid
  | ok hsame => exact hnext _ _ hsame

variable (entry : Entry) (bytes : List UInt8) (length : Nat)

/-- Asking for bytes goes the same way whatever the checksum. -/
theorem demand_withChecksum (count : Nat) :
    SameReading checksum Eq (demand entry bytes count)
      (demand (entry.withChecksum checksum) bytes count) := by
  rw [demand, demand]
  split
  next => exact .ended entry
  next => exact .ok rfl

/-- A large value is read in the same way whatever the checksum. -/
theorem largeValue_withChecksum (value used : Nat) :
    SameReading checksum Eq (largeValue entry bytes length value used)
      (largeValue (entry.withChecksum checksum) bytes length value used) := by
  rw [largeValue, largeValue]
  split
  next =>
    refine (demand_withChecksum entry bytes _).bind fun _ _ _ => .ok rfl
  next => exact .ok rfl

/-- The field of large values is read in the same way whatever the checksum. -/
theorem readLargeValues_withChecksum :
    SameReading checksum (SameField checksum) (readLargeValues entry bytes length)
      (readLargeValues (entry.withChecksum checksum) bytes length) := by
  rw [readLargeValues, readLargeValues]
  refine (largeValue_withChecksum entry bytes length _ _).bind ?_
  rintro ⟨contentSize, used⟩ _ rfl
  refine (largeValue_withChecksum { entry with contentSize } bytes length _ _).bind ?_
  rintro ⟨size, used⟩ _ rfl
  refine (largeValue_withChecksum { entry with contentSize, size } bytes length _ _).bind ?_
  rintro ⟨offset, used⟩ _ rfl
  dsimp only
  split
  next => exact .invalid
  next =>
    exact (demand_withChecksum { entry with contentSize, size, offset } bytes length).bind
      fun _ _ _ => .ok rfl

/-- The field of file times is read in the same way whatever the checksum. -/
theorem readFileTimes_withChecksum :
    SameReading checksum (SameField checksum) (readFileTimes entry bytes length)
      (readFileTimes (entry.withChecksum checksum) bytes length) := by
  rw [readFileTimes, readFileTimes]
  dsimp only
  split
  next => exact .invalid
  next =>
    refine (demand_withChecksum entry bytes 6).bind fun _ _ _ => ?_
    split
    next => exact .invalid
    next =>
      refine (demand_withChecksum entry bytes 8).bind fun _ _ _ => ?_
      split
      next => exact .invalid
      next => exact (demand_withChecksum entry bytes 32).bind fun _ _ _ => .ok rfl

/-- The field of a seal is read in the same way whatever the checksum. -/
theorem readSeal_withChecksum :
    SameReading checksum (SameField checksum) (readSeal entry bytes length)
      (readSeal (entry.withChecksum checksum) bytes length) := by
  rw [readSeal, readSeal]
  dsimp only
  split
  next => exact .invalid
  next =>
    refine (demand_withChecksum entry bytes 7).bind fun _ _ _ => ?_
    split
    next => exact .invalid
    next =>
      split
      next => exact .invalid
      next =>
        split
        next => exact .invalid
        next => exact .ok rfl

/-- The field of times is read in the same way whatever the checksum. -/
theorem readTimes_withChecksum :
    SameReading checksum (SameField checksum) (readTimes entry bytes length)
      (readTimes (entry.withChecksum checksum) bytes length) := by
  rw [readTimes, readTimes]
  refine (demand_withChecksum entry bytes 1).bind fun _ _ _ => ?_
  dsimp only
  split
  next => exact .invalid
  next =>
    split
    next => exact .invalid
    next => exact (demand_withChecksum entry bytes _).bind fun _ _ _ => .ok rfl

/-- A field of text is read in the same way whatever the checksum. -/
theorem readText_withChecksum (current : List UInt8) :
    SameReading checksum Eq (readText entry bytes length current)
      (readText (entry.withChecksum checksum) bytes length current) := by
  rw [readText, readText]
  refine (demand_withChecksum entry bytes 5).bind fun _ _ _ => ?_
  dsimp only
  split
  next => exact .invalid
  next =>
    refine (demand_withChecksum entry bytes length).bind fun _ _ _ => ?_
    split
    next => exact .invalid
    next =>
      split
      next => exact .ok rfl
      next => exact .invalid

/-- A field says the same of an entry with another checksum. -/
theorem readField_withChecksum :
    SameReading checksum (SameField checksum) (readField entry bytes)
      (readField (entry.withChecksum checksum) bytes) := by
  rw [readField, readField]
  refine (demand_withChecksum entry bytes 4).bind fun _ _ _ => ?_
  generalize field bytes 0 2 = kind
  unfold readFieldOf
  split
  next => exact readLargeValues_withChecksum entry _ _
  next => exact readFileTimes_withChecksum entry _ _
  next => exact readTimes_withChecksum entry _ _
  next =>
    refine (readText_withChecksum entry _ _ _).bind ?_
    rintro ⟨_, comment⟩ _ rfl
    exact .ok rfl
  next =>
    refine (readText_withChecksum entry _ _ _).bind ?_
    rintro ⟨rawName, name⟩ _ rfl
    exact .ok rfl
  next => exact readSeal_withChecksum entry _ _
  next => exact (demand_withChecksum entry _ _).bind fun _ _ _ => .ok rfl

/-- Extra fields say the same of an entry with another checksum. -/
theorem withFields?_withChecksum (checksum : Nat) :
    (entry.withChecksum checksum).withFields? bytes =
      (entry.withFields? bytes).map (·.withChecksum checksum) := by
  fun_induction Entry.withFields? entry bytes with
  | case1 entry bytes hempty => rw [Entry.withFields?, if_pos hempty, Option.map_some]
  | case2 entry bytes hempty stopped hread =>
    have hsame := @readField_withChecksum checksum entry bytes
    rw [hread] at hsame
    rw [Entry.withFields?, if_neg hempty]
    generalize readField (entry.withChecksum checksum) bytes = reading at hsame
    cases hsame
    rfl
  | case3 entry bytes hempty hread =>
    have hsame := @readField_withChecksum checksum entry bytes
    rw [hread] at hsame
    rw [Entry.withFields?, if_neg hempty]
    generalize readField (entry.withChecksum checksum) bytes = reading at hsame
    cases hsame
    rfl
  | case4 entry bytes hempty next used hread ih =>
    have hsame := @readField_withChecksum checksum entry bytes
    rw [hread] at hsame
    rw [Entry.withFields?, if_neg hempty]
    generalize readField (entry.withChecksum checksum) bytes = reading at hsame
    cases hsame with
    | ok hfield =>
      rw [hfield]
      exact ih

end Fields

/-! ## Checksums in headers -/

/-- Equal bytes make equal slices. -/
theorem slice_congr {bytes others : List UInt8} {start size : Nat}
    (h : ∀ position, start ≤ position → position < start + size →
      bytes[position]? = others[position]?) :
    slice bytes start size = slice others start size := by
  apply List.ext_getElem?
  intro index
  rw [slice, slice, List.getElem?_take, List.getElem?_take, List.getElem?_drop, List.getElem?_drop]
  split
  next hindex => exact h _ (Nat.le_add_right _ _) (Nat.add_lt_add_left hindex _)
  next => rfl

/-- The size of the header that bytes begin with. -/
def headerSize (bytes : List UInt8) : Nat :=
  let header := bytes.take 46
  46 + (field header 28 2 + field header 30 2 + field header 32 2)

/-- What follows the header that bytes begin with: its name, its extra fields and its comment. -/
def headerParts (bytes : List UInt8) : List UInt8 :=
  let header := bytes.take 46
  slice bytes 46 (field header 28 2 + field header 30 2 + field header 32 2)

/-- What a header says of an entry, before its extra fields are read. -/
def statedEntry (bytes : List UInt8) : Entry :=
  let header := bytes.take 46
  let inUtf8 := field header 8 2 / 2048 % 2 = 1
  let rawName := (headerParts bytes).take (field header 28 2)
  { rawName
    name := headerText inUtf8 rawName
    comment := headerText inUtf8 ((headerParts bytes).drop (field header 28 2 + field header 30 2))
    encrypted := field header 8 2 % 2 = 1
    sealed := false
    method := field header 10 2
    checksum := field header 16 4
    size := field header 20 4
    contentSize := field header 24 4
    offset := field header 42 4 }

/-- The extra fields of the header that bytes begin with. -/
def extraFields (bytes : List UInt8) : List UInt8 :=
  slice (headerParts bytes) (field (bytes.take 46) 28 2) (field (bytes.take 46) 30 2)

/-- An entry of a directory at a place, if it can be one. -/
def inPlace? (place : DirectoryPlace) (entry : Entry) : Option Entry :=
  if entry.method = sealedMethod ∧ entry.sealed = false ∨
      place.start ≤ entry.offset + place.shift then none
  else some { entry with offset := entry.offset + place.shift }

section Headers

variable {place : DirectoryPlace} {bytes others : List UInt8}

/-- A header is read by its parts. -/
theorem Entry.read?_eq (place : DirectoryPlace) (bytes : List UInt8) :
    Entry.read? place bytes =
      if headerSize bytes ≤ bytes.length ∧ bytes.take 4 = headerSignature then
        (((statedEntry bytes).withFields? (extraFields bytes)).bind (inPlace? place)).map
          fun entry => (entry, bytes.drop (headerSize bytes))
      else none := by
  have hform : Entry.read? place bytes =
      if (bytes.take 46).length < 46 ∨ (bytes.take 46).take 4 ≠ headerSignature then none
      else if (headerParts bytes).length < headerSize bytes - 46 then none
      else ((statedEntry bytes).withFields? (extraFields bytes)).bind fun entry =>
        if entry.method = sealedMethod ∧ entry.sealed = false then none
        else if place.start ≤ entry.offset + place.shift then none
        else some
          ({ entry with offset := entry.offset + place.shift }, bytes.drop (headerSize bytes)) := by
    rw [headerSize, Nat.add_sub_cancel_left]
    rfl
  have hheader : (bytes.take 46).length = min 46 bytes.length := List.length_take
  have hsignature : (bytes.take 46).take 4 = bytes.take 4 := List.take_take
  have hparts : (headerParts bytes).length = min (headerSize bytes - 46) (bytes.length - 46) := by
    rw [headerParts, slice, List.length_take, List.length_drop, headerSize, Nat.add_sub_cancel_left]
  have hsize : 46 ≤ headerSize bytes := Nat.le_add_right _ _
  rw [hform, hheader, hsignature, hparts]
  by_cases hfits : headerSize bytes ≤ bytes.length ∧ bytes.take 4 = headerSignature
  · have hwhole : ¬ (min 46 bytes.length < 46 ∨ bytes.take 4 ≠ headerSignature) :=
      not_or.mpr ⟨by omega, not_not.mpr hfits.2⟩
    rw [if_pos hfits, if_neg hwhole, if_neg (by omega), Option.map_bind]
    congr 1
    funext entry
    rw [Function.comp_apply, inPlace?]
    by_cases hsealed : entry.method = sealedMethod ∧ entry.sealed = false
    · rw [if_pos hsealed, if_pos (.inl hsealed), Option.map_none]
    · rw [if_neg hsealed]
      by_cases hbefore : place.start ≤ entry.offset + place.shift
      · rw [if_pos hbefore, if_pos (.inr hbefore), Option.map_none]
      · rw [if_neg hbefore, if_neg (not_or.mpr ⟨hsealed, hbefore⟩), Option.map_some]
  · rw [if_neg hfits]
    split
    next => rfl
    next hwhole =>
      obtain ⟨-, hsame⟩ := not_or.mp hwhole
      have hlong : ¬ headerSize bytes ≤ bytes.length := fun hle => hfits ⟨hle, not_not.mp hsame⟩
      rw [if_pos (by omega)]

/-- What is left behind a header begins where its size says. -/
theorem rest_of_read? {entry : Entry} {rest : List UInt8}
    (h : Entry.read? place bytes = some (entry, rest)) :
    rest = bytes.drop (headerSize bytes) ∧ headerSize bytes ≤ bytes.length := by
  rw [Entry.read?_eq] at h
  split at h
  next hfits =>
    obtain ⟨_, -, hpair⟩ := Option.map_eq_some_iff.mp h
    exact ⟨(Prod.mk.inj hpair).2.symm, hfits.1⟩
  next => cases h

/-- Whether an entry can be one at a place does not depend on its checksum. -/
theorem inPlace?_withChecksum (place : DirectoryPlace) (entry : Entry) (checksum : Nat) :
    inPlace? place (entry.withChecksum checksum) =
      (inPlace? place entry).map (·.withChecksum checksum) := by
  by_cases h : entry.method = sealedMethod ∧ entry.sealed = false ∨
      place.start ≤ entry.offset + place.shift
  · rw [inPlace?, inPlace?, if_pos h]
    exact if_pos h
  · rw [inPlace?, inPlace?, if_neg h]
    exact if_neg h

/-- A field of a header is read from its own bytes. -/
theorem field_header_congr {offset size : Nat}
    (h : ∀ position < 46, offset ≤ position → position < offset + size →
      others[position]? = bytes[position]?) :
    field (others.take 46) offset size = field (bytes.take 46) offset size := by
  refine congrArg littleEndian (slice_congr fun position hstart hbelow => ?_)
  rw [List.getElem?_take, List.getElem?_take]
  split
  next hposition => exact h position hposition hstart hbelow
  next => rfl

/-- The same header, but for the checksum, and the same size of all bytes. -/
structure SameButChecksum (bytes others : List UInt8) : Prop where
  length_eq : others.length = bytes.length
  getElem?_eq : ∀ position < headerSize bytes, ¬ (16 ≤ position ∧ position < 20) →
    others[position]? = bytes[position]?

namespace SameButChecksum

variable (h : SameButChecksum bytes others)

include h

/-- All fields but the checksum are the same. -/
theorem field_eq {offset size : Nat} (hoff : offset + size ≤ 16 ∨ 20 ≤ offset) :
    field (others.take 46) offset size = field (bytes.take 46) offset size := by
  have hsize : 46 ≤ headerSize bytes := Nat.le_add_right _ _
  exact field_header_congr fun position hposition hstart hbelow =>
    h.getElem?_eq position (by omega) (by omega)

/-- The sizes of the name, the extra fields and the comment are the same. -/
theorem sizes_eq : field (others.take 46) 28 2 = field (bytes.take 46) 28 2 ∧
    field (others.take 46) 30 2 = field (bytes.take 46) 30 2 ∧
    field (others.take 46) 32 2 = field (bytes.take 46) 32 2 :=
  ⟨h.field_eq (by decide), h.field_eq (by decide), h.field_eq (by decide)⟩

/-- Headers that differ in the checksum only have the same size. -/
theorem headerSize_eq : headerSize others = headerSize bytes := by
  obtain ⟨hname, hextra, hcomment⟩ := h.sizes_eq
  simp only [headerSize, hname, hextra, hcomment]

/-- Headers that differ in the checksum only have the same parts. -/
theorem headerParts_eq : headerParts others = headerParts bytes := by
  obtain ⟨hname, hextra, hcomment⟩ := h.sizes_eq
  simp only [headerParts, hname, hextra, hcomment]
  refine slice_congr fun position hstart hbelow => h.getElem?_eq position ?_ (by omega)
  rw [headerSize]
  omega

/-- Headers that differ in the checksum only state the same entry with another checksum. -/
theorem statedEntry_eq :
    statedEntry others = (statedEntry bytes).withChecksum (field (others.take 46) 16 4) := by
  obtain ⟨hname, hextra, -⟩ := h.sizes_eq
  simp only [statedEntry, Entry.withChecksum, h.headerParts_eq, hname, hextra,
    @field_eq bytes others h 8 2 (by decide), @field_eq bytes others h 10 2 (by decide),
    @field_eq bytes others h 20 4 (by decide), @field_eq bytes others h 24 4 (by decide),
    @field_eq bytes others h 42 4 (by decide)]

/-- A header with another checksum is read as the same entry with that checksum. -/
theorem read?_eq {entry : Entry} {rest : List UInt8}
    (hread : Entry.read? place bytes = some (entry, rest)) :
    Entry.read? place others = some
      (entry.withChecksum (field (others.take 46) 16 4), others.drop (headerSize others)) := by
  obtain ⟨hname, hextra, -⟩ := h.sizes_eq
  have hsize : 46 ≤ headerSize bytes := Nat.le_add_right _ _
  have hfields : extraFields others = extraFields bytes := by
    simp only [extraFields, h.headerParts_eq, hname, hextra]
  have hsignature : slice others 0 4 = slice bytes 0 4 :=
    slice_congr fun position _ hbelow => h.getElem?_eq position (by omega) (by omega)
  rw [slice, slice, List.drop_zero, List.drop_zero] at hsignature
  rw [Entry.read?_eq] at hread ⊢
  rw [h.headerSize_eq, h.length_eq, hsignature, h.statedEntry_eq, hfields, withFields?_withChecksum]
  split at hread
  next hfits =>
    rw [if_pos hfits]
    obtain ⟨placed, hplaced, hpair⟩ := Option.map_eq_some_iff.mp hread
    obtain ⟨rfl, -⟩ := Prod.mk.inj hpair
    obtain ⟨found, hfound, hput⟩ := Option.bind_eq_some_iff.mp hplaced
    rw [hfound, Option.map_some, Option.bind_some, inPlace?_withChecksum, hput, Option.map_some,
      Option.map_some]
  next => cases hread

end SameButChecksum

/-- The checksum of an entry is that in its header. -/
theorem withChecksum_of_read? {entry : Entry} {rest : List UInt8}
    (h : Entry.read? place bytes = some (entry, rest)) :
    entry.withChecksum (field (bytes.take 46) 16 4) = entry := by
  have hsame : SameButChecksum bytes bytes := ⟨rfl, fun _ _ _ => rfl⟩
  exact (Prod.mk.inj (Option.some.inj ((hsame.read?_eq h).symm.trans h))).1

end Headers

/-! ## Checksums in the directory -/

/-- The entries of the first `count` headers of bytes that stand at an offset, each with the offset of
its header. -/
def readHeaders? (place : DirectoryPlace) : Nat → Nat → List UInt8 → Option (List (Nat × Entry))
  | 0, _, _ => some []
  | count + 1, offset, bytes => do
    let (entry, rest) ← Entry.read? place bytes
    let more ← readHeaders? place count (offset + headerSize bytes) rest
    return (offset, entry) :: more

/-- Whether a position is in the checksum of a header at an offset. -/
def InChecksum (offset position : Nat) : Prop :=
  offset + 16 ≤ position ∧ position < offset + 20

instance (offset position : Nat) : Decidable (InChecksum offset position) :=
  inferInstanceAs (Decidable (_ ∧ _))

section Directory

variable {place : DirectoryPlace} {count offset : Nat} {bytes others : List UInt8}
  {headers : List (Nat × Entry)}

/-- Several headers are read when the first one is and those after it are. -/
theorem readHeaders?_succ_eq_some_iff :
    readHeaders? place (count + 1) offset bytes = some headers ↔ ∃ entry more,
      Entry.read? place bytes = some (entry, bytes.drop (headerSize bytes)) ∧
      readHeaders? place count (offset + headerSize bytes) (bytes.drop (headerSize bytes)) =
        some more ∧ headers = (offset, entry) :: more := by
  rw [readHeaders?, Option.bind_eq_bind, Option.bind_eq_some_iff]
  constructor
  · rintro ⟨⟨entry, rest⟩, hread, hmore⟩
    obtain ⟨more, hmore, hheaders⟩ := Option.bind_eq_some_iff.mp hmore
    obtain ⟨rfl, -⟩ := rest_of_read? hread
    exact ⟨entry, more, hread, hmore, (Option.some.inj hheaders).symm⟩
  · rintro ⟨entry, more, hread, hmore, rfl⟩
    exact ⟨(entry, bytes.drop (headerSize bytes)), hread,
      Option.bind_eq_some_iff.mpr ⟨more, hmore, rfl⟩⟩

/-- The entries are those of the headers. -/
theorem readEntries?_eq (place : DirectoryPlace) (count offset : Nat) (bytes : List UInt8) :
    readEntries? place count bytes =
      (readHeaders? place count offset bytes).map (·.map Prod.snd) := by
  induction count generalizing offset bytes with
  | zero => rfl
  | succ count ih =>
    rw [readEntries?, readHeaders?]
    cases Entry.read? place bytes with
    | none => rfl
    | some read =>
      obtain ⟨entry, rest⟩ := read
      simp only [Option.bind_eq_bind, Option.bind_some, ih (offset + headerSize bytes) rest]
      cases readHeaders? place count (offset + headerSize bytes) rest <;> rfl

/-- No header is before the first. -/
theorem le_of_mem_readHeaders? (h : readHeaders? place count offset bytes = some headers)
    {header : Nat × Entry} (hmem : header ∈ headers) : offset ≤ header.1 := by
  induction count generalizing offset bytes headers with
  | zero =>
    obtain rfl := Option.some.inj h
    exact nomatch hmem
  | succ count ih =>
    obtain ⟨entry, more, -, hmore, rfl⟩ := readHeaders?_succ_eq_some_iff.mp h
    rcases List.mem_cons.mp hmem with rfl | hmem
    · exact Nat.le_refl _
    · exact Nat.le_trans (Nat.le_add_right _ _) (ih hmore hmem)

/-- The same header, but for the checksum, and with that unless it may be another one. -/
structure SameHeader (mayDiffer : Entry → Prop) (header other : Nat × Entry) : Prop where
  offset_eq : other.1 = header.1
  entry_eq : other.2 = header.2.withChecksum other.2.checksum
  kept : ¬ mayDiffer header.2 → other.2 = header.2

/-- A header with another checksum, if it may have one, is read as the same but for that. -/
theorem exists_read?_of_checksum {mayDiffer : Entry → Prop} {entry : Entry} {rest : List UInt8}
    (hlength : others.length = bytes.length)
    (hread : Entry.read? place bytes = some (entry, rest))
    (hhere : ∀ position < headerSize bytes, others[position]? ≠ bytes[position]? →
      mayDiffer entry ∧ InChecksum 0 position) (offset : Nat) :
    headerSize others = headerSize bytes ∧ ∃ other,
      Entry.read? place others = some (other, others.drop (headerSize others)) ∧
      SameHeader mayDiffer (offset, entry) (offset, other) := by
  have hsize : 46 ≤ headerSize bytes := Nat.le_add_right _ _
  have hheader : SameButChecksum bytes others := ⟨hlength, fun position hposition hoff =>
    by_contra fun hne => hoff ((hhere position hposition hne).2.imp (by omega) (by omega))⟩
  refine ⟨hheader.headerSize_eq, _, hheader.read?_eq hread, rfl, rfl, fun hkept => ?_⟩
  have hchecksum : field (others.take 46) 16 4 = field (bytes.take 46) 16 4 :=
    field_header_congr fun position hposition _ _ =>
      by_contra fun hne => hkept (hhere position (by omega) hne).1
  rw [hchecksum]
  exact withChecksum_of_read? hread

/-- A directory with other checksums in some headers is read as the same but for these. -/
theorem readHeaders?_of_checksums (mayDiffer : Entry → Prop) (hlength : others.length = bytes.length)
    (h : readHeaders? place count offset bytes = some headers)
    (hsame : ∀ position, others[position]? ≠ bytes[position]? →
      ∃ header ∈ headers, mayDiffer header.2 ∧ InChecksum header.1 (offset + position)) :
    ∃ found, readHeaders? place count offset others = some found ∧
      List.Forall₂ (SameHeader mayDiffer) headers found := by
  induction count generalizing offset bytes others headers with
  | zero =>
    obtain rfl := Option.some.inj h
    exact ⟨[], rfl, .nil⟩
  | succ count ih =>
    obtain ⟨entry, more, hread, hmore, rfl⟩ := readHeaders?_succ_eq_some_iff.mp h
    have hsize : 46 ≤ headerSize bytes := Nat.le_add_right _ _
    -- What differs in the first header is in its checksum, as no other header is before its end.
    have hhere : ∀ position < headerSize bytes, others[position]? ≠ bytes[position]? →
        mayDiffer entry ∧ InChecksum 0 position := by
      intro position hposition hne
      obtain ⟨header, hmem, hdiffer, hstart, hend⟩ := hsame position hne
      rcases List.mem_cons.mp hmem with rfl | hmem
      · exact ⟨hdiffer, by omega, by omega⟩
      · have hle := le_of_mem_readHeaders? hmore hmem
        omega
    obtain ⟨hsizes, other, hread', hheader⟩ := exists_read?_of_checksum hlength hread hhere offset
    have hdrop : (others.drop (headerSize bytes)).length = (bytes.drop (headerSize bytes)).length := by
      rw [List.length_drop, List.length_drop, hlength]
    obtain ⟨found, hfound, hheaders⟩ := ih hdrop hmore fun position hne => by
      rw [List.getElem?_drop, List.getElem?_drop] at hne
      obtain ⟨header, hmem, hdiffer, hstart, hend⟩ := hsame _ hne
      rcases List.mem_cons.mp hmem with rfl | hmem
      · omega
      · exact ⟨header, hmem, hdiffer, by omega, by omega⟩
    rw [← hsizes] at hfound
    exact ⟨_, readHeaders?_succ_eq_some_iff.mpr ⟨other, found, hread', hfound, rfl⟩,
      .cons hheader hheaders⟩

end Directory

end Carta.Archive
