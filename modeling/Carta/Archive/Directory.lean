import Carta.Archive.EndRecord
import Carta.Archive.ExtraField

/-!
# The directory of an archive

The directory has a header for each entry, with a name, extra fields and a comment, and each of them
points at a second header just before the data of the entry. That one is read only when the entry
is opened. A record at the end of an archive whose directory cannot be read is no record, and an
earlier one is looked for.

Of several entries with one name the last one counts, at the place of the first.
-/

namespace Carta.Archive

/-- The entry whose header the bytes begin with, and the bytes after the header. Its second header
has to be before the directory. -/
def Entry.read? (place : DirectoryPlace) (bytes : List UInt8) : Option (Entry × List UInt8) := do
  let header := bytes.take 46
  if header.length < 46 ∨ header.take 4 ≠ headerSignature then none
  let nameSize := field header 28 2
  let extraSize := field header 30 2
  let commentSize := field header 32 2
  let size := nameSize + extraSize + commentSize
  let parts := slice bytes 46 size
  if parts.length < size then none
  let flags := field header 8 2
  let inUtf8 := flags / 2048 % 2 = 1
  let rawName := parts.take nameSize
  let stated : Entry := {
    rawName
    name := headerText inUtf8 rawName
    comment := headerText inUtf8 (parts.drop (nameSize + extraSize))
    encrypted := flags % 2 = 1
    sealed := false
    method := field header 10 2
    checksum := field header 16 4
    size := field header 20 4
    contentSize := field header 24 4
    offset := field header 42 4 }
  let entry ← stated.withFields? (slice parts nameSize extraSize)
  if entry.method = sealedMethod ∧ entry.sealed = false then none
  if place.start ≤ entry.offset + place.shift then none
  return ({ entry with offset := entry.offset + place.shift }, bytes.drop (46 + size))

/-- The entries of the first `count` headers. -/
def readEntries? (place : DirectoryPlace) : Nat → List UInt8 → Option (List Entry)
  | 0, _ => some []
  | count + 1, bytes => do
    let (entry, rest) ← Entry.read? place bytes
    let more ← readEntries? place count rest
    return entry :: more

/-- The entries with one more, which takes the place of one with the same name. -/
def putEntry (entry : Entry) : List Entry → List Entry
  | [] => [entry]
  | other :: rest =>
    if other.name = entry.name then entry :: rest else other :: putEntry entry rest

/-- The entries of an archive that ends with the record at an offset. -/
def entriesOfRecord? (bytes : List UInt8) (offset : Nat) : Option (List Entry) := do
  let place ← directoryPlace? bytes offset
  let entries ← readEntries? place place.count (bytes.drop place.start)
  return entries.foldl (fun before entry => putEntry entry before) []

/-- The entries of an archive, in order. -/
def entries? (bytes : List UInt8) : Option (List Entry) :=
  (occurrences endSignature 0 bytes).reverse.findSome? (entriesOfRecord? bytes)

end Carta.Archive
