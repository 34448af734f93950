import Carta.Path

/-!
# Faults of storage

An operation on files and directories fails for one of these reasons, each with the wording that
the operating system has for it. Where the file is one that nobody has named, the fault is told with
its path.
-/

namespace Carta.Storage

/-- Why an operation on files and directories fails. -/
inductive Fault
  | notFound
  | alreadyExists
  | notADirectory
  | isADirectory
  | resourceBusy
  | storageFull
  | writeZero
  | invalidName
  | nameTooLong
  /-- A fault that is told with the path of the file that it is about. -/
  | ofFile (path : Path) (fault : Fault)
  deriving Repr, DecidableEq

/-- The wording of a fault. -/
def Fault.message : Fault → String
  | .notFound => "No such file or directory (os error 2)"
  | .alreadyExists => "File exists (os error 17)"
  | .notADirectory => "Not a directory (os error 20)"
  | .isADirectory => "Is a directory (os error 21)"
  | .resourceBusy => "Device or resource busy (os error 16)"
  | .storageFull => "No space left on device (os error 28)"
  | .writeZero => "failed to write whole buffer"
  | .invalidName => "file name contained an unexpected NUL byte"
  | .nameTooLong => "File name too long (os error 36)"
  | .ofFile path fault => fault.message ++ " at path " ++ Text.quoted path.text

end Carta.Storage
