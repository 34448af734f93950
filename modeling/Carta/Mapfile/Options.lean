import Carta.Error
import Carta.Text.Blank

/-!
# Options of a mapfile

What a mapfile says about the map as a whole and no project contains: its name, its size, its units,
the image type, and how the web interface is set up. Every option has a default.
-/

namespace Carta.Mapfile

/-- The units of a map. -/
inductive Units
  | degrees
  | feet
  | inches
  | kilometers
  | meters
  | miles
  | nauticalMiles
  | pixels
  deriving Repr, DecidableEq

namespace Units

/-- All units, in the order in which they are listed. -/
def all : List Units :=
  [.degrees, .feet, .inches, .kilometers, .meters, .miles, .nauticalMiles, .pixels]

/-- The word for the units in a mapfile. -/
def keyword : Units → String
  | .degrees => "dd"
  | .feet => "feet"
  | .inches => "inches"
  | .kilometers => "kilometers"
  | .meters => "meters"
  | .miles => "miles"
  | .nauticalMiles => "nauticalmiles"
  | .pixels => "pixels"

/-- The units that a text names, whatever its case and the blanks around it. -/
def ofText (s : String) : Except Error Units :=
  match all.find? (·.keyword = Text.lowerAscii (Text.trim s)) with
  | some units => .ok units
  | none => .error (.invalid "units" s)

end Units

/-- Settings of a map that its project does not contain. -/
structure Options where
  mapName : String := "QGIS-MAP"
  units : Units := .meters
  imageType : String := "png"
  width : Nat := 600
  height : Nat := 600
  minScale : Option String := none
  maxScale : Option String := none
  template : Option String := none
  header : Option String := none
  footer : Option String := none
  imagePath : String := "/tmp/"
  imageUrl : String := "/tmp/"
  wmsOnlineResource : String := "http://my.host.com/cgi-bin/mapserv?map=wms.map&"
  wmsSrs : String := "EPSG:4326"
  /-- Whether the output format of the image type is described too. -/
  outputFormatBlock : Bool := false
  deriving Repr, DecidableEq

end Carta.Mapfile
