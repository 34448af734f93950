import Carta.Archive.Bits
import Carta.Archive.Checksum
import Carta.Archive.Entry

/-!
# Extra fields of a header

A header has extra fields after the name. Each of them begins with its kind and its length, of two
bytes each, and some kinds change what the header says of the entry: large sizes and offsets, a name
or a comment in UTF-8, the data of a stronger encryption. Times are only checked, and unknown kinds
are passed over.

A field that is not as its kind demands makes the header unreadable. Where the bytes of the fields
end within one, what was read before counts and the rest is ignored.
-/

namespace Carta.Archive

/-- Why the reading of extra fields stops. -/
inductive FieldStop
  /-- The bytes end; the entry is as far as it was read. -/
  | ended (entry : Entry)
  | invalid

/-- Demands `count` bytes of those from a place on. -/
def demand (entry : Entry) (bytes : List UInt8) (count : Nat) : Except FieldStop Unit :=
  if (bytes.take count).length < count then .error (.ended entry) else .ok ()

/-- The value in the place of one that is told by a field for large sizes. -/
def deferredValue : Nat := 0xFFFFFFFF

/-- A value of eight bytes that follows `used` bytes of a field, and the number of bytes used then.
It is there when the field is long enough for all values or this one was deferred. -/
def largeValue (entry : Entry) (bytes : List UInt8) (length value used : Nat) :
    Except FieldStop (Nat × Nat) :=
  if 24 ≤ length ∨ value = deferredValue then do
    demand entry bytes (used + 8)
    return (field bytes used 8, used + 8)
  else .ok (value, used)

/-- Reads large sizes and a large offset. -/
def readLargeValues (entry : Entry) (bytes : List UInt8) (length : Nat) :
    Except FieldStop (Entry × Nat) := do
  let (contentSize, used) ← largeValue entry bytes length entry.contentSize 0
  let entry := { entry with contentSize }
  let (size, used) ← largeValue entry bytes length entry.size used
  let entry := { entry with size }
  let (offset, used) ← largeValue entry bytes length entry.offset used
  let entry := { entry with offset }
  if length < used then throw .invalid
  demand entry bytes length
  return (entry, length)

/-- Reads file times: four bytes in reserve, an attribute with its number and size, and three times
of eight bytes. -/
def readFileTimes (entry : Entry) (bytes : List UInt8) (length : Nat) :
    Except FieldStop (Entry × Nat) := do
  if length ≠ 32 then throw .invalid
  demand entry bytes 6
  if field bytes 4 2 ≠ 1 then throw .invalid
  demand entry bytes 8
  if field bytes 6 2 ≠ 24 then throw .invalid
  demand entry bytes 32
  return (entry, 32)

/-- Reads the data of a stronger encryption: its version, its vendor, its strength and the method of
what is encrypted. -/
def readSeal (entry : Entry) (bytes : List UInt8) (length : Nat) :
    Except FieldStop (Entry × Nat) := do
  if length ≠ 7 then throw .invalid
  demand entry bytes 7
  if field bytes 2 2 ≠ 0x4541 then throw .invalid
  if field bytes 0 2 = 0 ∨ 2 < field bytes 0 2 then throw .invalid
  if field bytes 4 1 = 0 ∨ 3 < field bytes 4 1 then throw .invalid
  return ({ entry with sealed := true, method := field bytes 5 2 }, 7)

/-- Reads up to three times of four bytes, after a byte that tells which of them the entry has. The
length tells either all of these or the first time alone. -/
def readTimes (entry : Entry) (bytes : List UInt8) (length : Nat) :
    Except FieldStop (Entry × Nat) := do
  demand entry bytes 1
  let flags := field bytes 0 1
  if 8 ≤ flags then throw .invalid
  let first := flags % 2
  let others := flags / 2 % 2 + flags / 4
  if length ≠ 5 ∧ length ≠ 1 + 4 * (first + others) then throw .invalid
  let used := if length = 5 then 5 else 1 + 4 * (first + others)
  demand entry bytes used
  return (entry, used)

/-- Reads a text in UTF-8 for one in the header, with a checksum of the latter. -/
def readText (entry : Entry) (bytes : List UInt8) (length : Nat) (current : List UInt8) :
    Except FieldStop (List UInt8 × String) := do
  demand entry bytes 5
  if length < 5 then throw .invalid
  demand entry bytes length
  if (checksum current).toNat ≠ field bytes 1 4 then throw .invalid
  let content := slice bytes 5 (length - 5)
  match Text.Utf8.decode content with
  | .ok text => return (content, text)
  | .error _ => throw .invalid

/-- Reads a field of a kind and a length from the bytes after these two: the entry then, and the
number of bytes used. -/
def readFieldOf (kind : Nat) (entry : Entry) (bytes : List UInt8) (length : Nat) :
    Except FieldStop (Entry × Nat) :=
  match kind with
  | 0x0001 => readLargeValues entry bytes length
  | 0x000A => readFileTimes entry bytes length
  | 0x5455 => readTimes entry bytes length
  | 0x6375 => do
    let (_, comment) ← readText entry bytes length (Text.Utf8.encode entry.comment)
    return ({ entry with comment }, length)
  | 0x7075 => do
    let (rawName, name) ← readText entry bytes length entry.rawName
    return ({ entry with rawName, name }, length)
  | 0x9901 => readSeal entry bytes length
  | _ => do
    demand entry bytes length
    return (entry, length)

/-- Reads the next field: the entry then, and the number of bytes used after the kind and the
length. -/
def readField (entry : Entry) (bytes : List UInt8) : Except FieldStop (Entry × Nat) := do
  demand entry bytes 4
  readFieldOf (field bytes 0 2) entry (bytes.drop 4) (field bytes 2 2)

/-- The entry with what extra fields say, if they can be read. -/
def Entry.withFields? (entry : Entry) (bytes : List UInt8) : Option Entry :=
  if bytes.isEmpty then some entry
  else
    match readField entry bytes with
    | .error (.ended entry) => some entry
    | .error .invalid => none
    | .ok (entry, used) => entry.withFields? (bytes.drop (4 + used))
termination_by bytes.length
decreasing_by
  cases bytes with
  | nil => simp_all
  | cons b bytes =>
    simp only [List.length_drop, List.length_cons]
    omega

end Carta.Archive
