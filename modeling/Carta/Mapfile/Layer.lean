import Carta.Mapfile.Class
import Carta.Mapfile.Projection

/-!
# Layer blocks

Each layer of a project becomes one block, followed by an empty line. Its entries stand in a fixed
order; those for what a layer does not have are left out.
-/

namespace Carta.Mapfile

open Carta.Project (Connection Layer LayerKind ScaleRange)

/-- The type of a layer. -/
def layerType : LayerKind → String
  | .vector geometry => geometry.keyword
  | .raster => "RASTER"

/-- The directives of a scale range. -/
def scaleEntries : Option ScaleRange → List Entry
  | none => []
  | some range =>
    Entry.optional (.setting "MINSCALE") range.min ++ Entry.optional (.setting "MAXSCALE") range.max

/-- The entries of a connection. -/
def connectionEntries : Connection → List Entry
  | .postgis postgis =>
    [.setting "CONNECTIONTYPE" "postgis",
      .quotedSetting "CONNECTION" postgis.connectionText,
      .quotedSetting "DATA" postgis.dataStatement]
  | .wms wms =>
    [.setting "CONNECTIONTYPE" "WMS",
      .quotedSetting "CONNECTION" wms.url,
      .block "METADATA"
        [.pair "wms_name" wms.names,
          .pair "wms_server_version" "1.1.1",
          .pair "wms_srs" ("EPSG:4326 EPSG:" ++ wms.epsg),
          .pair "wms_format" wms.format,
          .pair "wms_style" wms.styles]]
  | .data dataSource => [.quotedSetting "DATA" dataSource]

/-- The directive with the field that labels are taken from, if labels are asked for. -/
def labelItemEntries (layer : Layer) : List Entry :=
  match layer.labelling with
  | some labelling => if labelling.enabled then [.quotedSetting "LABELITEM" labelling.field] else []
  | none => []

/-- The entries of a layer before those of its renderer. -/
def layerOpening (layer : Layer) : List Entry :=
  [.quotedSetting "NAME" layer.name, .setting "TYPE" (layerType layer.kind)] ++
    scaleEntries layer.scaleRange ++
    connectionEntries layer.connection ++
    [.block "METADATA" [.pair "wms_title" layer.name],
      .setting "STATUS" "DEFAULT",
      .setting "TRANSPARENCY" (toString layer.transparencyPercent),
      Projection.block layer.proj4] ++
    labelItemEntries layer

/-- The block of a layer, and the symbols in use with its symbols. -/
def layerEntries (layer : Layer) (symbols : SymbolSet) : Except Error (List Entry × SymbolSet) := do
  let (entries, symbols) ←
    rendererEntries layer.name layer.geometry? layer.labelling layer.renderer symbols
  return ([.block "LAYER" (layerOpening layer ++ entries), .blank], symbols)

/-- The blocks of layers in order, and the symbols in use with all of theirs. -/
def layersEntries : List Layer → SymbolSet → Except Error (List Entry × SymbolSet)
  | [], symbols => .ok ([], symbols)
  | layer :: rest, symbols => do
    let (entries, symbols) ← inLayer layer.name (layerEntries layer symbols)
    let (more, symbols) ← layersEntries rest symbols
    return (entries ++ more, symbols)

end Carta.Mapfile
