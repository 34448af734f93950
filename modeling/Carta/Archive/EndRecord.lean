import Carta.Archive.Bits

/-!
# The record at the end of an archive

An archive ends with a record that tells where its directory is and how many headers are in it; what
follows the record is passed over. Where a field of the record has its largest value, a wide record
before it may tell the same in larger fields, and a locator between the two tells where that one is.

Bytes before the archive shift all offsets, by as much as the first header of the directory, or the
wide record, is found after its stated place.
-/

namespace Carta.Archive

/-- The beginning of a header in the directory. -/
def headerSignature : List UInt8 := [0x50, 0x4B, 0x01, 0x02]

/-- The beginning of a header before the data of an entry. -/
def localSignature : List UInt8 := [0x50, 0x4B, 0x03, 0x04]

/-- The beginning of the record at the end. -/
def endSignature : List UInt8 := [0x50, 0x4B, 0x05, 0x06]

/-- The beginning of a wide record. -/
def wideSignature : List UInt8 := [0x50, 0x4B, 0x06, 0x06]

/-- The beginning of a locator. -/
def locatorSignature : List UInt8 := [0x50, 0x4B, 0x06, 0x07]

/-- The offsets at which a signature of four bytes occurs, in bytes that stand at an offset. -/
def occurrences (signature : List UInt8) (offset : Nat) : List UInt8 → List Nat
  | [] => []
  | b :: bytes =>
    if (b :: bytes).take 4 = signature then offset :: occurrences signature (offset + 1) bytes
    else occurrences signature (offset + 1) bytes

/-- Where a directory is. -/
structure DirectoryPlace where
  /-- How far all stated offsets are shifted. -/
  shift : Nat
  /-- The offset of the first header, with the shift. -/
  start : Nat
  /-- The number of headers. -/
  count : Nat
  deriving Repr, DecidableEq

/-- The record at the end of an archive. -/
structure EndRecord where
  offset : Nat
  disk : Nat
  directoryDisk : Nat
  count : Nat
  totalCount : Nat
  directoryOffset : Nat
  deriving Repr, DecidableEq

/-- The record at an offset, if it fits in there with its comment. -/
def EndRecord.read? (bytes : List UInt8) (offset : Nat) : Option EndRecord :=
  let record := slice bytes offset 22
  if record.length < 22 ∨ bytes.length < offset + 22 + field record 20 2 then none
  else some {
    offset
    disk := field record 4 2
    directoryDisk := field record 6 2
    count := field record 8 2
    totalCount := field record 10 2
    directoryOffset := field record 16 4 }

/-- How far all offsets are shifted by bytes before the archive. -/
def EndRecord.shift? (bytes : List UInt8) (record : EndRecord) : Option Nat :=
  if record.totalCount = 0 then some (record.offset - record.directoryOffset)
  else if record.offset ≤ record.directoryOffset then none
  else
    let before := slice bytes record.directoryOffset (record.offset - record.directoryOffset)
    (occurrences headerSignature 0 before).head?

/-- The place of the directory by the record alone. The directory has to be where the record is. -/
def EndRecord.place? (bytes : List UInt8) (record : EndRecord) : Option DirectoryPlace :=
  if record.disk ≠ record.directoryDisk then none
  else (record.shift? bytes).map fun shift =>
    { shift, start := record.directoryOffset + shift, count := record.count }

/-- Whether a wide record may tell more than the record does. -/
def EndRecord.mayBeWide (record : EndRecord) : Bool :=
  record.totalCount = 0xFFFF || record.directoryOffset = 0xFFFFFFFF

/-- What tells where a wide record is. -/
structure Locator where
  offset : Nat
  directoryDisk : Nat
  recordOffset : Nat
  diskCount : Nat
  deriving Repr, DecidableEq

/-- The locator just before an offset. -/
def Locator.before? (bytes : List UInt8) (offset : Nat) : Option Locator :=
  if offset < 20 then none
  else
    let locator := slice bytes (offset - 20) 20
    if locator.take 4 ≠ locatorSignature then none
    else some {
      offset := offset - 20
      directoryDisk := field locator 4 4
      recordOffset := field locator 8 8
      diskCount := field locator 16 4 }

/-- A wide record. -/
structure WideRecord where
  offset : Nat
  size : Nat
  madeBy : Nat
  needed : Nat
  disk : Nat
  directoryDisk : Nat
  count : Nat
  totalCount : Nat
  directoryOffset : Nat
  deriving Repr, DecidableEq

/-- The wide record at an offset. -/
def WideRecord.read? (bytes : List UInt8) (offset : Nat) : Option WideRecord :=
  let record := slice bytes offset 56
  if record.length < 56 then none
  else some {
    offset
    size := field record 4 8
    madeBy := field record 12 2
    needed := field record 14 2
    disk := field record 16 4
    directoryDisk := field record 20 4
    count := field record 24 8
    totalCount := field record 32 8
    directoryOffset := field record 48 8 }

/-- Whether a wide record is the one that a locator means: it goes up to the locator, agrees with
it, and leaves room for the headers before itself. -/
def WideRecord.fits (locator : Locator) (record : WideRecord) : Bool :=
  44 ≤ record.size && record.offset + record.size + 12 = locator.offset &&
    record.directoryDisk = locator.directoryDisk &&
    46 * record.totalCount + record.directoryOffset ≤ record.offset

/-- The place of the directory by a wide record that a locator means. -/
def Locator.place? (bytes : List UInt8) (locator : Locator) : Option DirectoryPlace :=
  if locator.offset ≤ locator.recordOffset ∨ 1 < locator.diskCount then none
  else
    let before := slice bytes locator.recordOffset (locator.offset - locator.recordOffset)
    let candidates := occurrences wideSignature locator.recordOffset before
    match candidates.findSome? fun offset =>
        (WideRecord.read? bytes offset).filter (·.fits locator) with
    | none => none
    | some record =>
      if record.totalCount < record.count ∨ record.madeBy < record.needed ∨
          record.disk ≠ record.directoryDisk then none
      else
        let shift := record.offset - locator.recordOffset
        some { shift, start := record.directoryOffset + shift, count := record.totalCount }

/-- The place of the directory that the record at an offset tells. -/
def directoryPlace? (bytes : List UInt8) (offset : Nat) : Option DirectoryPlace := do
  let record ← EndRecord.read? bytes offset
  match if record.mayBeWide then Locator.before? bytes offset else none with
  | some locator => locator.place? bytes
  | none => record.place? bytes

end Carta.Archive
