import Carta.Error
import Carta.Text.Blank
import Carta.Xml.Element

/-!
# Connections

How the map server reaches the data of a layer: a PostGIS table described by the words of the data
source, a remote WMS described by the raster properties of the layer, or the data source as it is.

A data source of PostGIS is a sequence of words. A word that begins with an opening parenthesis
names the geometry column; any other word sets a parameter when it has an equals sign, and the last
word for a parameter counts.
-/

namespace Carta.Project

open Carta.Xml (Element)

/-- The parameters of a PostGIS connection. -/
structure Postgis where
  host : String := "localhost"
  dbname : String := "gisdata"
  user : String := ""
  password : String := ""
  port : Option String := none
  table : String := ""
  geometryColumn : String := "the_geom"
  deriving Repr, DecidableEq

/-- The characters without the single quotes around them, when there is one at either end. -/
def unquoteChars : List Char → List Char
  | [] => []
  | c :: cs =>
    if c.toNat = 39 ∧ cs.getLast?.map Char.toNat = some 39 then cs.dropLast else c :: cs

/-- The text without the single quotes around it. -/
def unquote (s : String) : String :=
  String.ofList (unquoteChars s.toList)

/-- The parts of a word before and after its first equals sign. -/
def splitAtEquals? : List Char → Option (List Char × List Char)
  | [] => none
  | c :: cs =>
    if c = '=' then some ([], cs)
    else (splitAtEquals? cs).map fun (key, value) => (c :: key, value)

/-- What a word of a data source says. -/
inductive SourceWord
  | geometryColumn (name : String)
  | parameter (key value : String)
  | other
  deriving Repr, DecidableEq

/-- The reading of a word of a data source. -/
def SourceWord.read (word : String) : SourceWord :=
  match word.toList with
  | '(' :: column =>
    .geometryColumn (String.ofList (if column.getLast? = some ')' then column.dropLast else column))
  | cs =>
    match splitAtEquals? cs with
    | none => .other
    | some (key, value) => .parameter (String.ofList key) (unquote (String.ofList value))

namespace Postgis

/-- The parameters with what one word says. -/
def put (postgis : Postgis) : SourceWord → Postgis
  | .geometryColumn name => { postgis with geometryColumn := name }
  | .parameter key value =>
    match key with
    | "host" => { postgis with host := value }
    | "dbname" => { postgis with dbname := value }
    | "user" => { postgis with user := value }
    | "password" => { postgis with password := value }
    | "port" => { postgis with port := some value }
    | "table" => { postgis with table := value }
    | _ => postgis
  | .other => postgis

/-- The parameters in a data source. -/
def ofDataSource (dataSource : String) : Postgis :=
  ((Text.words dataSource).map SourceWord.read).foldl put {}

/-- The parameters as the map server takes them. -/
def connectionText (postgis : Postgis) : String :=
  "host=" ++ postgis.host ++ " dbname=" ++ postgis.dbname ++ " password=" ++ postgis.password ++
    " user=" ++ postgis.user ++
    match postgis.port with
    | some port => " port=" ++ port
    | none => ""

/-- The selection of the geometry column from the table. -/
def dataStatement (postgis : Postgis) : String :=
  postgis.geometryColumn ++ " FROM " ++ postgis.table

end Postgis

/-- A layer of a remote WMS. -/
structure WmsSublayer where
  name : String
  style : Option String
  deriving Repr, DecidableEq

/-- A remote WMS. -/
structure Wms where
  url : String
  sublayers : List WmsSublayer
  format : String
  epsg : String
  deriving Repr, DecidableEq

/-- The remote layer of its element. It has to have a name. -/
def WmsSublayer.ofElement (element : Element) : Except Error WmsSublayer := do
  let name ← require "wmsSublayer/name" (element.findContent? "name")
  return { name, style := element.findContent? "style" }

namespace Wms

/-- The EPSG code of the coordinate system that a layer's data are in. -/
def sourceEpsg? (layer : Element) : Option String := do
  let transform ← layer.find? "coordinatetransform"
  let source ← transform.find? "sourcesrs"
  let system ← source.find? "spatialrefsys"
  system.findContent? "epsg"

/-- The remote WMS of a layer element, at an address. -/
def ofLayer (layer : Element) (url : String) : Except Error Wms := do
  let properties ← require "rasterproperties" (layer.find? "rasterproperties")
  let sublayers ← (properties.findAll "wmsSublayer").mapM WmsSublayer.ofElement
  let format ← require "wmsFormat" (properties.findContent? "wmsFormat")
  let epsg ← require "sourcesrs/spatialrefsys/epsg" (sourceEpsg? layer)
  return { url, sublayers, format, epsg }

/-- The names of the remote layers, separated by commas. -/
def names (wms : Wms) : String :=
  ",".intercalate (wms.sublayers.map (·.name))

/-- The styles of the remote layers at the places of their names, empty where there is none. -/
def styles (wms : Wms) : String :=
  ",".intercalate (wms.sublayers.map (·.style.getD ""))

end Wms

/-- How the map server reaches the data of a layer. -/
inductive Connection
  | postgis (postgis : Postgis)
  | wms (wms : Wms)
  | data (dataSource : String)
  deriving Repr, DecidableEq

end Carta.Project
