import Carta.Archive.CodePage
import Carta.Text.Utf8

/-!
# Entries of an archive

What the directory of an archive says of an entry. Names and comments are in UTF-8 when the header
says so, and otherwise in code page 437.
-/

namespace Carta.Archive

/-- An entry of an archive. -/
structure Entry where
  /-- The bytes that spell the name. -/
  rawName : List UInt8
  name : String
  comment : String
  encrypted : Bool
  /-- Whether a field for a stronger encryption was read. -/
  sealed : Bool
  method : Nat
  checksum : Nat
  /-- The size of the data in the archive. -/
  size : Nat
  /-- The size of the content that the data stand for. -/
  contentSize : Nat
  /-- Where the header before the data is. -/
  offset : Nat
  deriving Repr, DecidableEq

/-- The method of data that are encrypted in the stronger way. -/
def sealedMethod : Nat := 99

/-- The text that bytes spell. -/
def headerText (inUtf8 : Bool) (bytes : List UInt8) : String :=
  if inUtf8 then Text.Utf8.decodeLenient bytes else textInCodePage bytes

/-- Whether an entry is a directory. -/
def Entry.isDirectory (entry : Entry) : Bool :=
  match entry.name.toList.getLast? with
  | some c => c = '/' || c = '\\'
  | none => false

end Carta.Archive
