import Carta.Mapfile.Options
import Carta.Mapfile.Projection
import Carta.Project.Document
import Carta.Text.LetterCase

/-!
# Sections of the map

The parts of a mapfile outside its layers and symbols. They depend on the options, on where the
project comes from, on its bounds and on its destination coordinate system, and on nothing else.
-/

namespace Carta.Mapfile

open Carta.Project (Bounds)

/-- The comments that a mapfile begins with. -/
def headerComments (source : Option String) : List Entry :=
  [.comment (match source with
      | some source => "Map file created from QGIS project file " ++ source
      | none => "Map file created from a QGIS project"),
    .comment "Edit this file to customize for your map interface"]

/-- Name, size, units and bounds of the map. -/
def mapEntries (options : Options) (bounds : Bounds) : List Entry :=
  [.quotedSetting "NAME" options.mapName,
    .comment "Map image size",
    .directive [.bare "SIZE", .bare (toString options.width), .bare (toString options.height)],
    .setting "UNITS" options.units.keyword,
    .blank,
    .directive [.bare "EXTENT",
      .bare bounds.xmin, .bare bounds.ymin, .bare bounds.xmax, .bare bounds.ymax]]

/-- The description of the output format, if it is asked for. -/
def outputFormatEntries (options : Options) : List Entry :=
  let lower := Text.toLowercase options.imageType
  if options.outputFormatBlock then
    [.block "OUTPUTFORMAT"
      [.setting "NAME" options.imageType,
        .quotedSetting "DRIVER" ("GD/" ++ Text.toUppercase options.imageType),
        .quotedSetting "MIMETYPE" ("image/" ++ lower),
        .setting "IMAGEMODE" "PC256",
        .quotedSetting "EXTENSION" lower]]
  else []

/-- The look of the image. -/
def imageEntries (options : Options) : List Entry :=
  [.comment "Background color for the map canvas -- change as desired",
    .setting "IMAGECOLOR" "192 192 192",
    .setting "IMAGEQUALITY" "95",
    .setting "IMAGETYPE" options.imageType] ++
    outputFormatEntries options

/-- The legend, which is always the same. -/
def legendEntries : List Entry :=
  [.comment "Legend",
    .block "LEGEND"
      [.setting "IMAGECOLOR" "255 255 255",
        .setting "STATUS" "ON",
        .setting "KEYSIZE" "18 12",
        .block "LABEL"
          [.setting "TYPE" "BITMAP", .setting "SIZE" "MEDIUM", .setting "COLOR" "0 0 89"]],
    .blank]

/-- A value that is absent when it is empty. -/
def nonEmpty (value : Option String) : Option String :=
  value.filter (!·.isEmpty)

/-- The settings of the WMS that the map is served by. -/
def serverEntries (options : Options) : List Entry :=
  let row (key value : String) : Entry := .directive [.column 21 key, .quoted value]
  [.comment "WMS server settings",
    .block "METADATA"
      [row "wms_title" options.mapName,
        row "wms_onlineresource" options.wmsOnlineResource,
        row "wms_srs" options.wmsSrs],
    .blank]

/-- The web interface. -/
def webEntries (options : Options) : List Entry :=
  [.comment "Web interface definition. Only the template parameter",
    .comment "is required to display a map. See MapServer documentation",
    .block "WEB"
      ([.comment "Set IMAGEPATH to the path where MapServer should",
        .comment "write its output.",
        .quotedSetting "IMAGEPATH" options.imagePath,
        .blank,
        .comment "Set IMAGEURL to the url that points to IMAGEPATH",
        .comment "as defined in your web server configuration",
        .quotedSetting "IMAGEURL" options.imageUrl,
        .blank] ++
        serverEntries options ++
        [.comment "Scale range at which web interface will operate"] ++
        Entry.optional (.setting "MINSCALE") (nonEmpty options.minScale) ++
        Entry.optional (.setting "MAXSCALE") (nonEmpty options.maxScale) ++
        [.comment "Template and header/footer settings",
          .comment
            "Only the template parameter is required to display a map. See MapServer documentation"] ++
        Entry.optional (.quotedSetting "TEMPLATE") (nonEmpty options.template) ++
        Entry.optional (.quotedSetting "HEADER") (nonEmpty options.header) ++
        Entry.optional (.quotedSetting "FOOTER") (nonEmpty options.footer)),
    .blank]

/-- All entries of the map before its layers. -/
def sectionEntries (options : Options) (bounds : Bounds) (destination : String) : List Entry :=
  mapEntries options bounds ++ [Projection.block destination] ++ imageEntries options ++
    legendEntries ++ webEntries options

/-- The definitions of symbols, each followed by an empty line. -/
def symbolEntries (definitions : List (List Entry)) : List Entry :=
  definitions.flatMap (· ++ [.blank])

end Carta.Mapfile
