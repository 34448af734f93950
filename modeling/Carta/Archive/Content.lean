import Carta.Archive.Checksum
import Carta.Archive.Directory
import Carta.Archive.Inflate
import Carta.Archive.Fault
import Carta.Text.Blank
import Carta.Xml.Markup

/-!
# Reading an entry of an archive

The data of an entry are its bytes as they are, or compressed. Damage shows only where the reading
comes to it. A checksum that does not fit is noticed at the end, and so are compressed data that end
too early. Compressed data arrive in blocks and are expanded in steps, each of which goes on to the
end of a block, or of the window that repetitions reach back in; where data are corrupt, all of the
step that comes to the damage is lost.
-/

namespace Carta.Archive

/-- The size of the blocks in which data arrive, and in which content is asked for. -/
def blockSize : Nat := 8192

/-- The size of the windows in which compressed data are expanded. No repetition reaches further
back. -/
def windowSize : Nat := 32768

/-- What reading the given content, with a stated checksum, comes to. -/
def checkedSource (stated : Nat) (content : List UInt8) : Xml.Source where
  bytes := content
  failure := if (checksum content).toNat = stated then none else some "Invalid checksum"

/-- The number of bytes that compressed data yield before damage, which shows when `produced` bytes
are there and `left` bits are not yet read. The last step begins with what the blocks before the one
with the damage yield, or with the last window before the damage; but a window that ends when less
than a block is asked for begins no step. -/
def yieldBeforeDamage (data : List UInt8) (produced left : Nat) : Nat :=
  let blocks := (8 * data.length - left - 1) / (8 * blockSize)
  let ready := (expand (data.take (blocks * blockSize))).output.size
  let window := (produced - 1) / windowSize * windowSize
  if window < ready + blockSize then ready else window

/-- What reading compressed data with a stated checksum comes to. -/
def expandedSource (stated : Nat) (data : List UInt8) : Xml.Source :=
  let expansion := expand data
  match expansion.damage with
  | none => checkedSource stated expansion.output.toList
  | some .truncated => {
      bytes := expansion.output.toList
      failure := some "incomplete deflate stream" }
  | some (.corrupt left) => {
      bytes := expansion.output.toList.take
        (yieldBeforeDamage data expansion.output.size left)
      failure := some "corrupt deflate stream" }

/-- The ways in which data are compressed: not at all, in the usual way, and in ways that are known
only by their numbers. -/
def knownMethods : List Nat := [0, 8, 9, 12, 14, 93, 95]

/-- Where the data of an entry begin whose second header is at its offset. -/
def Entry.dataStart? (bytes : List UInt8) (entry : Entry) : Option Nat :=
  let header := slice bytes entry.offset 30
  if header.length < 30 ∨ header.take 4 ≠ localSignature then none
  else some (entry.offset + 30 + field header 26 2 + field header 28 2)

/-- Opens an entry: where its data begin. -/
def Entry.dataStart (bytes : List UInt8) (entry : Entry) : Except Fault Nat :=
  if entry.encrypted then .error .encrypted
  else
    match entry.dataStart? bytes with
    | none => .error .noLocalHeader
    | some start =>
      if entry.method ∉ knownMethods then .error .unknownMethod
      else if entry.sealed then .error .encrypted
      else .ok start

/-- What reading an entry comes to whose data begin at an offset. Only projects that are stored or
deflated are read. Entries compressed in one of the other known ways can be opened, and so passed
over, but what their data expand to is not modelled: a project among them is told as one whose way
of compression is unknown, where a library with decoders for these ways reads it. -/
def Entry.source (bytes : List UInt8) (entry : Entry) (start : Nat) : Except Fault Xml.Source :=
  let data := slice bytes start entry.size
  match entry.method with
  | 0 => .ok (checkedSource entry.checksum data)
  | 8 => .ok (expandedSource entry.checksum data)
  | _ => .error .unknownMethod

/-- Whether an entry holds a project. -/
def Entry.isProject (entry : Entry) : Bool :=
  !entry.isDirectory && ".qgs".toList.isSuffixOf (Text.lowerAscii entry.name).toList

/-- What reading the first project among entries comes to, if there is one. All entries up to it
have to be such that they can be opened. -/
def firstProject (bytes : List UInt8) : List Entry → Except Fault (Option Xml.Source)
  | [] => .ok none
  | entry :: rest =>
    match entry.dataStart bytes with
    | .error fault => .error fault
    | .ok start =>
      if entry.isProject then (entry.source bytes start).map some else firstProject bytes rest

/-- What reading the project in an archive comes to, if there is one. -/
def projectSource (bytes : List UInt8) : Except Fault (Option Xml.Source) :=
  match entries? bytes with
  | none => .error .noDirectory
  | some entries => firstProject bytes entries

end Carta.Archive
