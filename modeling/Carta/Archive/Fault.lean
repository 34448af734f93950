/-!
# Faults of an archive

Why an archive cannot be opened, or one of its entries cannot be. Damage inside the data of an entry
is none of these: it shows only while the data are read.
-/

namespace Carta.Archive

/-- Why an archive or an entry of it cannot be opened. -/
inductive Fault
  | noDirectory
  | encrypted
  | noLocalHeader
  | unknownMethod
  | unreadable (reason : String)
  deriving Repr, DecidableEq

/-- The wording of a fault. -/
def Fault.message : Fault → String
  | .noDirectory => "invalid Zip archive: Could not find EOCD"
  | .encrypted => "unsupported Zip archive: Password required to decrypt file"
  | .noLocalHeader => "invalid Zip archive: Invalid local file header"
  | .unknownMethod => "unsupported Zip archive: Compression method not supported"
  | .unreadable reason => reason

end Carta.Archive
