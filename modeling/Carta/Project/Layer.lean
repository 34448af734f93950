import Carta.Project.Connection
import Carta.Project.Renderer

/-!
# Layers

A layer of a project is a vector layer with one kind of geometry, or a raster. Everything that is
required of it is read here, except what its styles need, which depends on how they are used. The
first fault is reported, with the name of the layer, or with its number when it has no name.
-/

namespace Carta.Project

open Carta.Xml (Element)

/-- The kinds of geometry of a vector layer. -/
inductive Geometry
  | point
  | line
  | polygon
  deriving Repr, DecidableEq

namespace Geometry

/-- The geometry that a text names, whatever its case and the blanks around it. -/
def ofText? (s : String) : Option Geometry :=
  match Text.lowerAscii (Text.trim s) with
  | "point" => some .point
  | "line" => some .line
  | "polygon" => some .polygon
  | _ => none

/-- The word for a geometry in a mapfile. -/
def keyword : Geometry → String
  | .point => "POINT"
  | .line => "LINE"
  | .polygon => "POLYGON"

/-- Points and lines are drawn with a size, polygons are not. -/
def hasSize : Geometry → Bool
  | .point => true
  | .line => true
  | .polygon => false

end Geometry

/-- What a layer consists of. -/
inductive LayerKind
  | vector (geometry : Geometry)
  | raster
  deriving Repr, DecidableEq

/-- The geometry of a vector layer. -/
def LayerKind.geometry? : LayerKind → Option Geometry
  | .vector geometry => some geometry
  | .raster => none

/-- The program that provides the data of a layer. -/
inductive Provider
  | absent
  | postgres
  | wms
  | other (name : String)
  deriving Repr, DecidableEq

/-- The provider with a name. -/
def Provider.ofName? : Option String → Provider
  | none => .absent
  | some "postgres" => .postgres
  | some "wms" => .wms
  | some name => .other name

/-- The scales between which a layer is shown. -/
structure ScaleRange where
  min : Option String
  max : Option String
  deriving Repr, DecidableEq

/-- The scale range of a layer element, which only the flag `1` puts in force. Empty bounds are
none. -/
def ScaleRange.ofLayer? (layer : Element) : Option ScaleRange :=
  let bound (name : String) := (layer.attribute? name).filter (!·.isEmpty)
  if layer.attribute? "scaleBasedVisibilityFlag" = some "1" then
    some { min := bound "minScale", max := bound "maxScale" }
  else none

/-- How features are labelled. -/
structure Labelling where
  field : String
  /-- Whether the layer's flag asks for labels. -/
  enabled : Bool
  angle : Option String
  buffer : Option String
  deriving Repr, DecidableEq

/-- The labelling of a layer element, if it names a field. -/
def Labelling.ofLayer? (layer : Element) : Option Labelling := do
  let attributes ← layer.find? "labelattributes"
  let label ← attributes.find? "label"
  let field := Text.trim (← label.attribute? "field")
  let value (name : String) := (attributes.find? name).bind (·.attribute? "value")
  if field.isEmpty then none
  else some {
    field
    enabled := (layer.child? "label").bind Element.content? = some "1"
    angle := value "angle"
    buffer := value "buffersize" }

/-- A layer of a project. -/
structure Layer where
  name : String
  kind : LayerKind
  dataSource : String
  provider : Provider
  connection : Connection
  proj4 : String
  transparency : UInt8
  scaleRange : Option ScaleRange
  labelling : Option Labelling
  renderer : Renderer
  deriving Repr, DecidableEq

namespace Layer

/-- The kind of a layer element. -/
def kindOf (element : Element) : Except Error LayerKind :=
  match element.attribute? "type" with
  | some "vector" => do
    let geometry ← require "maplayer@geometry" (element.attribute? "geometry")
    match Geometry.ofText? geometry with
    | some geometry => .ok (.vector geometry)
    | none => .error (.invalid "maplayer@geometry" geometry)
  | some "raster" => .ok .raster
  | some other => .error (.invalid "maplayer@type" other)
  | none => .error (.missing "maplayer@type")

/-- The connection of a layer element. Only rasters are reached by WMS. -/
def connectionOf (element : Element) (kind : LayerKind) (provider : Provider)
    (dataSource : String) : Except Error Connection :=
  match provider, kind with
  | .postgres, _ => .ok (.postgis (Postgis.ofDataSource dataSource))
  | .wms, .raster => (Wms.ofLayer element dataSource).map .wms
  | _, _ => .ok (.data dataSource)

/-- The transparency of a layer element, a number of one byte. -/
def transparencyOf (element : Element) : Except Error UInt8 := do
  let text ← require "transparencyLevelInt" (element.findContent? "transparencyLevelInt")
  match Text.byte? text with
  | some byte => .ok byte
  | none => .error (.invalid "transparencyLevelInt" text)

/-- The layer of its element, once its name is known. -/
def ofNamedElement (element : Element) (name : String) : Except Error Layer := do
  let kind ← kindOf element
  let dataSource ← require "datasource" (element.findContent? "datasource")
  let provider := Provider.ofName? (element.findContent? "provider")
  let connection ← connectionOf element kind provider dataSource
  let proj4 ← require "proj4" (element.findContent? "proj4")
  let transparency ← transparencyOf element
  let renderer ← Renderer.ofLayer element
  return {
    name, kind, dataSource, provider, connection, proj4, transparency, renderer
    scaleRange := ScaleRange.ofLayer? element
    labelling := Labelling.ofLayer? element }

/-- The layer of its element, which has an index among the layers. -/
def ofElement (element : Element) (index : Nat) : Except Error Layer := do
  let name ← inLayer ("#" ++ toString (index + 1))
    (require "layername" (element.findContent? "layername"))
  inLayer name (ofNamedElement element name)

/-- The geometry of a vector layer. -/
def geometry? (layer : Layer) : Option Geometry :=
  layer.kind.geometry?

/-- The transparency in percent, to the nearest whole number. -/
def transparencyPercent (layer : Layer) : Nat :=
  (200 * layer.transparency.toNat + 255) / 510

end Layer

end Carta.Project
