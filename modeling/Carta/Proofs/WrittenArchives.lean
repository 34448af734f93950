import Carta.Proofs.ArchiveEntries
import Carta.Proofs.Encoding
import Mathlib.Algebra.Order.Ring.Int

/-!
# Writing archives

An archive of given items is written in the plainest way: for each item a header, its name and its
data, then a directory of headers, and a record at the end. Nothing is encrypted, no field is large,
there are no extra fields and no comments, and names are in UTF-8.

What is written is read again: the directory has exactly the headers of the items, in their order.
-/

namespace Carta.Archive

open Carta.Text (Utf8.encode)

/-! ## Fields -/

/-- A number in a field of some bytes, the lowest byte first. -/
def fieldBytes : Nat → Nat → List UInt8
  | 0, _ => []
  | size + 1, n => UInt8.ofNat (n % 256) :: fieldBytes size (n / 256)

/-- Fields one after the other, each a size and a number. -/
def fieldsBytes (parts : List (Nat × Nat)) : List UInt8 :=
  parts.flatMap fun (size, n) => fieldBytes size n

/-- A field has as many bytes as its size says. -/
theorem length_fieldBytes (size n : Nat) : (fieldBytes size n).length = size := by
  induction size generalizing n with
  | zero => rfl
  | succ size ih => rw [fieldBytes, List.length_cons, ih]

/-- Fields have as many bytes as their sizes say together. -/
theorem length_fieldsBytes (parts : List (Nat × Nat)) :
    (fieldsBytes parts).length = (parts.map Prod.fst).sum := by
  induction parts with
  | nil => rfl
  | cons part parts ih =>
    rw [fieldsBytes, List.flatMap_cons, List.length_append, length_fieldBytes, List.map_cons,
      List.sum_cons, ← ih, fieldsBytes]

/-- A field has the number that was written, as far as it has room for it. -/
theorem littleEndian_fieldBytes (size n : Nat) :
    littleEndian (fieldBytes size n) = n % 256 ^ size := by
  induction size generalizing n with
  | zero => rw [Nat.pow_zero, Nat.mod_one]; rfl
  | succ size ih =>
    have hlow : (UInt8.ofNat (n % 256)).toNat = n % 256 := by
      rw [UInt8.toNat_ofNat', Nat.mod_mod]
    rw [fieldBytes, littleEndian, ih, hlow, Nat.pow_succ', Nat.mod_mul]

/-- The first field. -/
theorem field_fieldsBytes_here (size n : Nat) (parts : List (Nat × Nat)) :
    field (fieldsBytes ((size, n) :: parts)) 0 size = n % 256 ^ size := by
  rw [field, slice, List.drop_zero, fieldsBytes, List.flatMap_cons,
    List.take_left' (length_fieldBytes size n), littleEndian_fieldBytes]

/-- A field after the first one. -/
theorem field_fieldsBytes_later {size offset : Nat} (h : size ≤ offset) (n count : Nat)
    (parts : List (Nat × Nat)) :
    field (fieldsBytes ((size, n) :: parts)) offset count =
      field (fieldsBytes parts) (offset - size) count := by
  rw [field, slice, fieldsBytes, List.flatMap_cons, List.drop_append, length_fieldBytes,
    List.drop_eq_nil_of_le (by rw [length_fieldBytes]; exact h), List.nil_append]
  rfl

/-! ## The written form -/

/-- What is to be written as an entry: data, and the content that they stand for. -/
structure Item where
  name : String
  method : Nat
  data : List UInt8
  content : List UInt8

namespace Item

variable (item : Item)

/-- The fields that both headers of an item have. -/
def sharedFields : List (Nat × Nat) :=
  [(2, 20), (2, 0x0800), (2, item.method), (4, 0), (4, (Archive.checksum item.content).toNat),
    (4, item.data.length), (4, item.content.length), (2, (Utf8.encode item.name).length), (2, 0)]

/-- The header before the data. -/
def localHeader : List UInt8 :=
  fieldsBytes ((4, 0x04034B50) :: item.sharedFields)

/-- The part of an archive before the directory that is for the item. -/
def written : List UInt8 :=
  item.localHeader ++ (Utf8.encode item.name ++ item.data)

/-- The header in the directory, up to the name. The other header is at an offset. -/
def header (offset : Nat) : List UInt8 :=
  fieldsBytes ((4, 0x02014B50) :: (2, 20) :: (item.sharedFields ++
    [(2, 0), (2, 0), (2, 0), (4, 0), (4, offset)]))

/-- What the directory says of the item. -/
def entry (offset : Nat) : Entry where
  rawName := Utf8.encode item.name
  name := item.name
  comment := ""
  encrypted := false
  sealed := false
  method := item.method
  checksum := (Archive.checksum item.content).toNat
  size := item.data.length
  contentSize := item.content.length
  offset

/-- Whether the fields have room for what they say of the item, and its data are in a way that can be
expanded. -/
def fits : Bool :=
  (Utf8.encode item.name).length < 0x10000 && item.data.length < 0x100000000 &&
    item.content.length < 0x100000000 && (item.method = 0 || item.method = 8)

end Item

/-- The headers of the directory, when the first item is at an offset. -/
def directoryFrom (offset : Nat) : List Item → List UInt8
  | [] => []
  | item :: rest =>
    item.header offset ++ (Utf8.encode item.name ++ directoryFrom (offset + item.written.length) rest)

/-- The entries of items, when the first one is at an offset. -/
def entriesFrom (offset : Nat) : List Item → List Entry
  | [] => []
  | item :: rest => item.entry offset :: entriesFrom (offset + item.written.length) rest

/-- The record at the end of an archive. -/
def endRecord (count offset size : Nat) : List UInt8 :=
  fieldsBytes [(4, 0x06054B50), (2, 0), (2, 0), (2, count), (2, count), (4, size), (4, offset), (2, 0)]

/-- The archive of the items. -/
def archiveOf (items : List Item) : List UInt8 :=
  let files := items.flatMap Item.written
  let directory := directoryFrom 0 items
  files ++ (directory ++ endRecord items.length files.length directory.length)

/-- Whether an archive has room for the items. -/
def canHold (items : List Item) : Bool :=
  items.all Item.fits && items.length < 0xFFFF && (items.flatMap Item.written).length < 0xFFFFFFFF

/-- What an archive can hold can be written item by item. -/
theorem fits_of_canHold {items : List Item} (h : canHold items = true) :
    ∀ item ∈ items, item.fits = true := by
  rw [canHold, Bool.and_eq_true, Bool.and_eq_true, List.all_eq_true] at h
  exact h.1.1

/-- An archive that can hold items has few of them, and they are short together. -/
theorem length_lt_of_canHold {items : List Item} (h : canHold items = true) :
    items.length < 0xFFFF ∧ (items.flatMap Item.written).length < 0xFFFFFFFF := by
  rw [canHold, Bool.and_eq_true, Bool.and_eq_true, decide_eq_true_eq, decide_eq_true_eq] at h
  exact ⟨h.1.2, h.2⟩

/-! ## Reading the directory -/

section Directory

variable {item : Item}

/-- The fixed part of a header has 46 bytes. -/
theorem Item.length_header (item : Item) (offset : Nat) : (item.header offset).length = 46 := by
  rw [header, length_fieldsBytes]
  rfl

/-- The fixed part of a local header has 30 bytes. -/
theorem Item.length_localHeader (item : Item) : item.localHeader.length = 30 := by
  rw [localHeader, length_fieldsBytes]
  rfl

/-- A checksum has 32 bits. -/
theorem checksum_lt (content : List UInt8) : (Archive.checksum content).toNat < 0x100000000 :=
  (Archive.checksum content).toNat_lt

/-- The fields of an item have room for what they say. -/
theorem Item.fits_iff : item.fits = true ↔
    (((Utf8.encode item.name).length < 0x10000 ∧ item.data.length < 0x100000000) ∧
      item.content.length < 0x100000000) ∧ (item.method = 0 ∨ item.method = 8) := by
  simp [fits]

/-- What the fields of a header in the directory say. -/
theorem Item.fields_header (hfits : item.fits = true) {offset : Nat} (hroom : offset < 0x100000000) :
    field (item.header offset) 28 2 = (Utf8.encode item.name).length ∧
    field (item.header offset) 30 2 = 0 ∧ field (item.header offset) 32 2 = 0 ∧
    field (item.header offset) 8 2 = 0x0800 ∧ field (item.header offset) 10 2 = item.method ∧
    field (item.header offset) 16 4 = (Archive.checksum item.content).toNat ∧
    field (item.header offset) 20 4 = item.data.length ∧
    field (item.header offset) 24 4 = item.content.length ∧
    field (item.header offset) 42 4 = offset := by
  obtain ⟨⟨⟨hname, hdata⟩, hcontent⟩, hmethod⟩ := fits_iff.mp hfits
  have hchecksum := checksum_lt item.content
  simp [header, sharedFields, field_fieldsBytes_later, field_fieldsBytes_here]
  omega

/-- A header in the directory is read as what it says of the item. -/
theorem Item.read?_header (hfits : item.fits = true) {place : DirectoryPlace} {offset : Nat}
    (hshift : place.shift = 0) (hbefore : offset < place.start) (hroom : offset < 0x100000000)
    (rest : List UInt8) :
    Entry.read? place (item.header offset ++ (Utf8.encode item.name ++ rest)) =
      some (item.entry offset, rest) := by
  have hlength := item.length_header offset
  have htake : (item.header offset ++ (Utf8.encode item.name ++ rest)).take 46 = item.header offset :=
    List.take_left' hlength
  have hparts : slice (item.header offset ++ (Utf8.encode item.name ++ rest)) 46
      (Utf8.encode item.name).length = Utf8.encode item.name := by
    rw [slice, List.drop_left' hlength, List.take_left' rfl]
  have hrest : (item.header offset ++ (Utf8.encode item.name ++ rest)).drop
      (46 + (Utf8.encode item.name).length) = rest := by
    rw [← List.drop_drop, List.drop_left' hlength, List.drop_left' rfl]
  obtain ⟨hname, hextra, hcomment, hflags, hmethod, hchecksum, hdata, hcontent, hoffset⟩ :=
    fields_header hfits hroom
  have hsignature : (item.header offset).take 4 = headerSignature := rfl
  have hplain : item.method ≠ sealedMethod := by
    rcases (fits_iff.mp hfits).2 with h | h <;> rw [h] <;> decide
  have hfields (entry : Entry) : entry.withFields? [] = some entry := by
    rw [Entry.withFields?]
    rfl
  simp only [Entry.read?, htake, hlength, hsignature, hname, hextra, hcomment, hflags, hmethod,
    hchecksum, hdata, hcontent, hoffset, Nat.add_zero, hparts, hrest, List.take_length]
  have hnothing : slice (Utf8.encode item.name) (Utf8.encode item.name).length 0 = [] := List.take_zero
  have hempty : headerText true [] = "" := rfl
  have hdecoded : headerText true (Utf8.encode item.name) = item.name :=
    Text.Utf8.decodeLenient_encode item.name
  simp [hfields, hplain, hshift, hnothing, hempty, hdecoded, Nat.not_le.mpr hbefore, Item.entry]

/-- An item takes its local header, its name and its data. -/
theorem Item.length_written (item : Item) :
    item.written.length = 30 + (Utf8.encode item.name).length + item.data.length := by
  rw [written, List.length_append, List.length_append, length_localHeader, Nat.add_assoc]

/-- The headers of the directory are read as the entries. -/
theorem readEntries?_directoryFrom {items : List Item} (hfits : ∀ item ∈ items, item.fits = true)
    {place : DirectoryPlace} (hshift : place.shift = 0) (hroom : place.start < 0x100000000)
    {offset : Nat} (hbefore : offset + (items.flatMap Item.written).length ≤ place.start)
    (rest : List UInt8) :
    readEntries? place items.length (directoryFrom offset items ++ rest) =
      some (entriesFrom offset items) := by
  induction items generalizing offset with
  | nil => rfl
  | cons item items ih =>
    rw [List.forall_mem_cons] at hfits
    have hlength := item.length_written
    rw [List.flatMap_cons, List.length_append] at hbefore
    have hitem := Item.read?_header hfits.1 hshift (by omega : offset < place.start) (by omega)
      (directoryFrom (offset + item.written.length) items ++ rest)
    have hitems := ih hfits.2 (by omega : offset + item.written.length +
      (items.flatMap Item.written).length ≤ place.start)
    rw [List.length_cons, readEntries?, directoryFrom, List.append_assoc, List.append_assoc, hitem]
    simp only [Option.bind_eq_bind, Option.bind_some, hitems]
    rfl

end Directory

/-! ## Reading the record at the end -/

/-- The occurrences after bytes are found whatever is before. -/
theorem exists_occurrences_append (signature : List UInt8) (offset : Nat) (before after : List UInt8) :
    ∃ earlier, occurrences signature offset (before ++ after) =
      earlier ++ occurrences signature (offset + before.length) after := by
  induction before generalizing offset with
  | nil => exact ⟨[], rfl⟩
  | cons b before ih =>
    obtain ⟨earlier, hearlier⟩ := ih (offset + 1)
    have hnext : offset + (b :: before).length = offset + 1 + before.length := by
      rw [List.length_cons]
      omega
    rw [List.cons_append, occurrences, hnext]
    split
    · exact ⟨offset :: earlier, by rw [hearlier, List.cons_append]⟩
    · exact ⟨earlier, hearlier⟩

/-- No occurrence is before the bytes. -/
theorem le_of_mem_occurrences {signature bytes : List UInt8} {offset place : Nat}
    (h : place ∈ occurrences signature offset bytes) : offset ≤ place := by
  induction bytes generalizing offset with
  | nil => exact nomatch h
  | cons b bytes ih =>
    rw [occurrences] at h
    split at h
    · rcases List.mem_cons.mp h with rfl | h
      · exact Nat.le_refl _
      · exact Nat.le_of_succ_le (ih h)
    · exact Nat.le_of_succ_le (ih h)

/-- Without room for a record there are no headers. -/
theorem headersOfRecord?_eq_none {bytes : List UInt8} {offset : Nat}
    (h : bytes.length < offset + 22) : headersOfRecord? bytes offset = none := by
  have hshort : (slice bytes offset 22).length < 22 := by
    rw [slice, List.length_take, List.length_drop]
    omega
  have hnone : EndRecord.read? bytes offset = none := by
    rw [EndRecord.read?]
    exact if_pos (.inl hshort)
  rw [headersOfRecord?, directoryPlace?, hnone]
  rfl

/-- The record at the end has 22 bytes. -/
theorem length_endRecord (count offset size : Nat) : (endRecord count offset size).length = 22 := by
  rw [endRecord, length_fieldsBytes]
  rfl

/-- The record at the end is found, and nothing before it in its bytes. -/
theorem exists_occurrences_endRecord (count offset size place : Nat) :
    ∃ later, occurrences endSignature place (endRecord count offset size) = place :: later ∧
      ∀ other ∈ later, place < other := by
  have hsignature : (endRecord count offset size).take 4 = endSignature := rfl
  cases hrecord : endRecord count offset size with
  | nil => exact absurd (hrecord ▸ length_endRecord count offset size) (by decide)
  | cons b rest =>
    rw [hrecord] at hsignature
    rw [occurrences, if_pos hsignature]
    exact ⟨_, rfl, fun _ hother => le_of_mem_occurrences hother⟩

/-- The headers of an archive are those that the record at its end tells of. -/
theorem headers?_append_endRecord {bytes : List UInt8} {count offset size : Nat}
    {headers : List Entry}
    (h : headersOfRecord? (bytes ++ endRecord count offset size) bytes.length = some headers) :
    headers? (bytes ++ endRecord count offset size) = some headers := by
  obtain ⟨earlier, hoccurrences⟩ :=
    exists_occurrences_append endSignature 0 bytes (endRecord count offset size)
  obtain ⟨later, hhere, hlater⟩ := exists_occurrences_endRecord count offset size (0 + bytes.length)
  have hnone : later.reverse.findSome?
      (headersOfRecord? (bytes ++ endRecord count offset size)) = none := by
    refine List.findSome?_eq_none_iff.mpr fun place hplace => headersOfRecord?_eq_none ?_
    have hafter := hlater place (List.mem_reverse.mp hplace)
    rw [List.length_append, length_endRecord]
    omega
  rw [headers?, hoccurrences, hhere, Nat.zero_add, List.reverse_append, List.reverse_cons,
    List.append_assoc, List.findSome?_append, hnone, Option.none_or, List.findSome?_append,
    List.findSome?_singleton, h, Option.some_or]

/-- The record at the end is read as what was written. -/
theorem EndRecord.read?_endRecord {count offset : Nat} (hcount : count < 0x10000)
    (hoffset : offset < 0x100000000) (bytes : List UInt8) (size : Nat) :
    EndRecord.read? (bytes ++ endRecord count offset size) bytes.length = some {
      offset := bytes.length, disk := 0, directoryDisk := 0, count, totalCount := count,
      directoryOffset := offset } := by
  have hslice : slice (bytes ++ endRecord count offset size) bytes.length 22 =
      endRecord count offset size := by
    rw [slice, List.drop_left' rfl, List.take_of_length_le (Nat.le_of_eq (length_endRecord ..))]
  have hfields : field (endRecord count offset size) 20 2 = 0 ∧
      field (endRecord count offset size) 4 2 = 0 ∧ field (endRecord count offset size) 6 2 = 0 ∧
      field (endRecord count offset size) 8 2 = count ∧
      field (endRecord count offset size) 10 2 = count ∧
      field (endRecord count offset size) 16 4 = offset := by
    simp [endRecord, field_fieldsBytes_later, field_fieldsBytes_here]
    omega
  obtain ⟨hcomment, hdisk, hother, hhere, htotal, hdirectory⟩ := hfields
  rw [EndRecord.read?, hslice]
  simp [length_endRecord, hcomment, hdisk, hother, hhere, htotal, hdirectory]

/-- Nothing is before the archive of items. -/
theorem shift?_archiveOf (items : List Item) :
    EndRecord.shift? (archiveOf items) {
      offset := (items.flatMap Item.written).length + (directoryFrom 0 items).length
      disk := 0, directoryDisk := 0, count := items.length, totalCount := items.length
      directoryOffset := (items.flatMap Item.written).length } = some 0 := by
  cases items with
  | nil => rfl
  | cons item items =>
    have hlength : 46 ≤ (directoryFrom 0 (item :: items)).length := by
      rw [directoryFrom, List.length_append, item.length_header]
      omega
    have hbefore : slice (archiveOf (item :: items)) ((item :: items).flatMap Item.written).length
        (directoryFrom 0 (item :: items)).length = directoryFrom 0 (item :: items) := by
      rw [slice, archiveOf, List.drop_left' rfl, List.take_left' rfl]
    have hfirst : (occurrences headerSignature 0 (directoryFrom 0 (item :: items))).head? = some 0 := by
      have hsignature : (directoryFrom 0 (item :: items)).take 4 = headerSignature := rfl
      cases hdirectory : directoryFrom 0 (item :: items) with
      | nil => simp [hdirectory] at hlength
      | cons b rest =>
        rw [hdirectory] at hsignature
        rw [occurrences, if_pos hsignature, List.head?_cons]
    rw [EndRecord.shift?, if_neg (by simp), if_neg (by dsimp only; omega)]
    dsimp only
    rw [Nat.add_sub_cancel_left, hbefore, hfirst]

/-- The directory of the archive of items is found in its place. -/
theorem directoryPlace?_archiveOf {items : List Item} (h : canHold items = true) :
    directoryPlace? (archiveOf items)
        ((items.flatMap Item.written).length + (directoryFrom 0 items).length) =
      some { shift := 0, start := (items.flatMap Item.written).length, count := items.length } := by
  obtain ⟨hcount, hsize⟩ := length_lt_of_canHold h
  have hrecord : EndRecord.read? (archiveOf items)
      ((items.flatMap Item.written).length + (directoryFrom 0 items).length) = some {
        offset := (items.flatMap Item.written).length + (directoryFrom 0 items).length
        disk := 0, directoryDisk := 0, count := items.length, totalCount := items.length
        directoryOffset := (items.flatMap Item.written).length } := by
    have hread := EndRecord.read?_endRecord (by omega : items.length < 0x10000)
      (by omega : (items.flatMap Item.written).length < 0x100000000)
      (items.flatMap Item.written ++ directoryFrom 0 items) (directoryFrom 0 items).length
    rw [List.append_assoc, List.length_append] at hread
    exact hread
  rw [directoryPlace?, hrecord, Option.bind_eq_bind, Option.bind_some, EndRecord.mayBeWide,
    decide_eq_false (Nat.ne_of_lt hcount), decide_eq_false (Nat.ne_of_lt hsize)]
  simp only [Bool.or_false, Bool.false_eq_true, if_false]
  rw [EndRecord.place?, shift?_archiveOf items, if_neg (not_not_intro rfl)]
  rfl

/-- The headers of the archive of items are those of the items. -/
theorem headers?_archiveOf {items : List Item} (h : canHold items = true) :
    headers? (archiveOf items) = some (entriesFrom 0 items) := by
  have hplace := directoryPlace?_archiveOf h
  have hsize := (length_lt_of_canHold h).2
  unfold archiveOf at hplace ⊢
  rw [← List.append_assoc] at hplace ⊢
  refine headers?_append_endRecord ?_
  rw [headersOfRecord?, List.length_append, hplace]
  simp only [Option.bind_eq_bind, Option.bind_some]
  rw [List.append_assoc, List.drop_left' rfl]
  exact readEntries?_directoryFrom (fits_of_canHold h) rfl (by dsimp only; omega) (by dsimp only; omega) _

/-! ## Reading the content -/

/-- Whether the data of an item stand for its content. -/
def Item.isSound (item : Item) : Bool :=
  if item.method = 0 then item.content = item.data
  else (expand item.data).damage = none ∧ item.content = (expand item.data).output.toList

/-- An item is found where it was written, and its data are read as its content. -/
theorem Item.hasContent_entry {item : Item} (hfits : item.fits = true) (hsound : item.isSound = true)
    (before after : List UInt8) :
    (item.entry before.length).HasContent (before ++ (item.written ++ after)) item.content := by
  obtain ⟨⟨⟨hname, hdata⟩, hcontent⟩, hmethod⟩ := fits_iff.mp hfits
  have hheader : slice (before ++ (item.written ++ after)) before.length 30 = item.localHeader := by
    rw [slice, List.drop_left' rfl, written, List.append_assoc,
      List.take_left' item.length_localHeader]
  have hfields : field item.localHeader 26 2 = (Utf8.encode item.name).length ∧
      field item.localHeader 28 2 = 0 := by
    simp [localHeader, sharedFields, field_fieldsBytes_later, field_fieldsBytes_here]
    omega
  have hstart : (item.entry before.length).dataStart? (before ++ (item.written ++ after)) =
      some (before.length + 30 + (Utf8.encode item.name).length) := by
    have hsignature : item.localHeader.take 4 = localSignature := rfl
    rw [Entry.dataStart?, entry, hheader, hfields.1, hfields.2, item.length_localHeader, hsignature]
    rfl
  have hslice : slice (before ++ (item.written ++ after))
      (before.length + 30 + (Utf8.encode item.name).length) item.data.length = item.data := by
    rw [slice, Nat.add_assoc, ← List.drop_drop, List.drop_left' rfl, ← List.drop_drop, written,
      List.append_assoc, List.drop_left' item.length_localHeader, List.append_assoc,
      List.drop_left' rfl, List.take_left' rfl]
  refine ⟨rfl, rfl, ⟨_, hstart, ?_⟩, rfl⟩
  change item.method = 0 ∧ item.content = slice _ _ item.data.length ∨
    item.method = 8 ∧ (expand (slice _ _ item.data.length)).damage = none ∧
      item.content = (expand (slice _ _ item.data.length)).output.toList
  rw [hslice]
  rcases hmethod with hmethod | hmethod
  · exact .inl ⟨hmethod, by simpa [isSound, hmethod] using hsound⟩
  · exact .inr ⟨hmethod, by simpa [isSound, hmethod] using hsound⟩

/-- The entries of items in two parts. -/
theorem entriesFrom_append (offset : Nat) (items others : List Item) :
    entriesFrom offset (items ++ others) =
      entriesFrom offset items ++
        entriesFrom (offset + (items.flatMap Item.written).length) others := by
  induction items generalizing offset with
  | nil => rfl
  | cons item items ih =>
    rw [List.cons_append, entriesFrom, ih, entriesFrom, List.cons_append, List.flatMap_cons,
      List.length_append, Nat.add_assoc]

/-- Every entry is that of an item, at the place after the items before it. -/
theorem exists_of_mem_entriesFrom {items : List Item} {offset : Nat} {entry : Entry}
    (h : entry ∈ entriesFrom offset items) : ∃ before item after, items = before ++ item :: after ∧
      entry = item.entry (offset + (before.flatMap Item.written).length) := by
  induction items generalizing offset with
  | nil => exact nomatch h
  | cons item items ih =>
    rcases List.mem_cons.mp h with rfl | h
    · exact ⟨[], item, items, rfl, rfl⟩
    · obtain ⟨before, other, after, rfl, rfl⟩ := ih h
      refine ⟨item :: before, other, after, rfl, ?_⟩
      rw [List.flatMap_cons, List.length_append, Nat.add_assoc]

/-- The entries have the names of the items. -/
theorem map_name_entriesFrom (offset : Nat) (items : List Item) :
    (entriesFrom offset items).map (·.name) = items.map (·.name) := by
  induction items generalizing offset with
  | nil => rfl
  | cons item items ih => rw [entriesFrom, List.map_cons, ih, List.map_cons]; rfl

/-- All items are found in their archive. -/
theorem hasContent_archiveOf {item : Item} (hfits : item.fits = true)
    (hsound : item.isSound = true) (before after : List Item) :
    (item.entry (before.flatMap Item.written).length).HasContent
      (archiveOf (before ++ item :: after)) item.content := by
  have hcontent := Item.hasContent_entry hfits hsound (before.flatMap Item.written)
    (after.flatMap Item.written ++ (directoryFrom 0 (before ++ item :: after) ++
      endRecord (before ++ item :: after).length
        ((before ++ item :: after).flatMap Item.written).length
        (directoryFrom 0 (before ++ item :: after)).length))
  simpa only [archiveOf, List.flatMap_append, List.flatMap_cons, List.append_assoc] using hcontent

/-- All entries of the archive of items can be read. -/
theorem exists_hasContent_archiveOf {items : List Item} (hfits : ∀ item ∈ items, item.fits = true)
    (hsound : ∀ item ∈ items, item.isSound = true) {entry : Entry} (h : entry ∈ entriesFrom 0 items) :
    ∃ content, entry.HasContent (archiveOf items) content := by
  obtain ⟨before, item, after, rfl, rfl⟩ := exists_of_mem_entriesFrom h
  have hitem : item ∈ before ++ item :: after := by simp
  rw [Nat.zero_add]
  exact ⟨_, hasContent_archiveOf (hfits item hitem) (hsound item hitem) before after⟩

end Carta.Archive
