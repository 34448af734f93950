import Carta.Archive.Fault
import Carta.Storage.Fault
import Carta.Xml.Error

/-!
# Errors of a conversion

A conversion stops at its first error. Errors about a field of the project carry the layer they
were found in, once it is known: the innermost place that knows the layer sets it, and it is kept
from then on.
-/

namespace Carta

/-- Why a project cannot be loaded, or cannot be made into a mapfile. -/
inductive Error
  | missingField (field : String) (layer : Option String)
  | invalidValue (field value : String) (layer : Option String)
  | xml (error : Xml.Error)
  | noProjectInArchive (path : String)
  | storage (fault : Storage.Fault)
  | archive (fault : Archive.Fault)
  deriving Repr, DecidableEq

namespace Error

/-- The error that a required field is absent. -/
def missing (field : String) : Error :=
  .missingField field none

/-- The error that a field cannot have its value. -/
def invalid (field value : String) : Error :=
  .invalidValue field value none

/-- The error with the layer it was found in, unless it has one. -/
def inLayer (name : String) : Error → Error
  | .missingField field none => .missingField field (some name)
  | .invalidValue field value none => .invalidValue field value (some name)
  | error => error

/-- How a message tells the layer. -/
def layerSuffix : Option String → String
  | some name => s!" in layer '{name}'"
  | none => ""

/-- The wording of an error. -/
def message : Error → String
  | .missingField field layer => s!"missing required field `{field}`" ++ layerSuffix layer
  | .invalidValue field value layer =>
    s!"invalid value `{value}` for field `{field}`" ++ layerSuffix layer
  | .xml error => error.message
  | .noProjectInArchive path => s!"no .qgs project found in archive {path}"
  | .storage fault => "I/O error: " ++ fault.message
  | .archive fault => "zip error: " ++ fault.message

/-- The wordings of an error's causes, the nearest first. -/
def causes : Error → List String
  | .xml error => error.causes
  | .storage fault => [fault.message]
  | .archive fault => [fault.message]
  | _ => []

end Error

/-- The value of a required field. -/
def require {A : Type} (field : String) : Option A → Except Error A
  | some value => .ok value
  | none => .error (.missing field)

/-- The result of an action on a layer, its error carrying the layer's name. -/
def inLayer {A : Type} (name : String) (result : Except Error A) : Except Error A :=
  result.mapError (.inLayer name)

end Carta
