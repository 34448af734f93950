import Carta.Proofs.AlikeEntries
import Carta.Proofs.SymbolUse

/-!
# Where the values of a layer stand

The words of a mapfile that are not fixed come from the project or from the options. Those of a layer
are listed here in the order in which they are written, between quotes or outside. What else there is
to a layer is its shape: which parts it has, and how many. Layers of one shape become entries that are
alike, so the values of a layer decide what stands in the places of values, and nothing else.
-/

namespace Carta.Mapfile

open Carta.Project (Connection Geometry Labelling Layer LayerKind Renderer ScaleRange Style
  StyledClass)

/-- What there is to a labelling besides its values. -/
structure LabellingShape where
  enabled : Bool
  angle : Bool
  buffer : Bool
  deriving Repr, DecidableEq

/-- The shape of a labelling. -/
def labellingShape (labelling : Labelling) : LabellingShape where
  enabled := labelling.enabled
  angle := labelling.angle.isSome
  buffer := labelling.buffer.isSome

/-- What there is to a renderer besides its values. -/
inductive RendererShape
  | single
  | graduated (classes : Nat)
  | continuous
  | unique (classes : Nat)
  | absent
  deriving Repr, DecidableEq

/-- The shape of a renderer. -/
def rendererShape : Renderer → RendererShape
  | .single _ => .single
  | .graduated _ classes => .graduated classes.length
  | .continuous _ _ _ => .continuous
  | .unique _ classes => .unique classes.length
  | .absent => .absent

/-- What there is to a connection besides its values. -/
inductive ConnectionShape
  | postgis
  | wms
  | data
  deriving Repr, DecidableEq

/-- The shape of a connection. -/
def connectionShape : Connection → ConnectionShape
  | .postgis _ => .postgis
  | .wms _ => .wms
  | .data _ => .data

/-- What there is to a layer besides its values. -/
structure LayerShape where
  kind : LayerKind
  minScale : Bool
  maxScale : Bool
  connection : ConnectionShape
  /-- The number of parameters of the coordinate system. -/
  parameters : Nat
  labelling : Option LabellingShape
  renderer : RendererShape
  symbols : List PointSymbol
  deriving Repr, DecidableEq

/-- The shape of a layer. -/
def layerShape (layer : Layer) : LayerShape where
  kind := layer.kind
  minScale := (layer.scaleRange.bind (·.min)).isSome
  maxScale := (layer.scaleRange.bind (·.max)).isSome
  connection := connectionShape layer.connection
  parameters := (Projection.parameters layer.proj4).length
  labelling := layer.labelling.map labellingShape
  renderer := rendererShape layer.renderer
  symbols := layerSymbols layer

/-- The words of the label block of a class. -/
def labelWords : Option Labelling → List Word
  | none => []
  | some labelling => labelling.angle.toList.map .bare ++ labelling.buffer.toList.map .bare

/-- The words of a style: its size, where the geometry has one. -/
def styleWords (geometry : Option Geometry) (style : Style) : List Word :=
  if geometry.any Geometry.hasSize then style.size.toList.map .bare else []

/-- The words that begin a class of a graduation: its name and the parts of its condition. -/
def rangeWords (field : String) (styledClass : StyledClass) : List Word :=
  let lower := styledClass.lower.getD ""
  let upper := styledClass.upper.getD ""
  [.quoted (styledClass.label.getD (lower ++ " < " ++ field ++ " < " ++ upper)),
    .bare ("([" ++ field ++ "]"), .bare (lower ++ ")"),
    .bare ("([" ++ field ++ "]"), .bare (upper ++ ")")]

/-- The words that begin a class of unique values: its name and its value. -/
def uniqueWords (field : String) (styledClass : StyledClass) : List Word :=
  let value := styledClass.lower.getD ""
  [.quoted (styledClass.label.getD (field ++ " = " ++ value)), .quoted value]

/-- The words of classes, each of which begins with words of its own. -/
def classesWords (geometry : Option Geometry) (labelling : Option Labelling)
    (opening : StyledClass → List Word) (classes : List StyledClass) : List Word :=
  classes.flatMap fun styledClass =>
    opening styledClass ++ styleWords geometry styledClass.style ++ labelWords labelling

/-- The words of a renderer in a layer with a name. -/
def rendererWords (name : String) (geometry : Option Geometry) (labelling : Option Labelling) :
    Renderer → List Word
  | .single style => .quoted name :: (styleWords geometry style ++ labelWords labelling)
  | .graduated field classes =>
    .quoted field :: classesWords geometry labelling (rangeWords field) classes
  | .continuous field lowest highest =>
    [.bare (lowest.lower.getD ""), .bare (highest.lower.getD ""), .quoted field] ++
      labelWords labelling
  | .unique field classes =>
    .quoted field :: classesWords geometry labelling (uniqueWords field) classes
  | .absent => []

/-- The words of a connection. -/
def connectionWords : Connection → List Word
  | .postgis postgis => [.quoted postgis.connectionText, .quoted postgis.dataStatement]
  | .wms wms =>
    [.quoted wms.url, .quoted wms.names, .quoted ("EPSG:4326 EPSG:" ++ wms.epsg), .quoted wms.format,
      .quoted wms.styles]
  | .data dataSource => [.quoted dataSource]

/-- The field that labels are taken from, if labels are asked for. -/
def labelItem? (labelling : Option Labelling) : Option String :=
  (labelling.filter (·.enabled)).map (·.field)

/-- The words of a scale range. -/
def scaleWords (range : Option ScaleRange) : List Word :=
  (range.bind (·.min)).toList.map .bare ++ (range.bind (·.max)).toList.map .bare

/-- The words of a layer before those of its renderer. -/
def openingWords (layer : Layer) : List Word :=
  [.quoted layer.name] ++ scaleWords layer.scaleRange ++ connectionWords layer.connection ++
    (.quoted layer.name :: (Projection.parameters layer.proj4).map .quoted) ++
    (labelItem? layer.labelling).toList.map .quoted

/-- The words of a layer. -/
def layerWords (layer : Layer) : List Word :=
  openingWords layer ++
    rendererWords layer.name layer.geometry? layer.labelling layer.renderer

/-- Styles of one geometry refer to their symbols in the same way. -/
theorem fit_reference (geometry : Option Geometry) (style other : Style)
    (set otherSet : SymbolSet) :
    Fit [] [] [(set.refer geometry style).1] [(otherSet.refer geometry other).1] := by
  have hname (symbol : PointSymbol) : AllLegible [.quoted symbol.name] := by
    cases symbol <;> decide
  rcases geometry with _ | (_ | _ | _)
  case some.point => exact ⟨List.nil_subset _, fun _ => hname _, fun _ _ => rfl⟩
  all_goals exact .same rfl

/-- Style blocks are alike. -/
theorem alike_of_styleBlock {geometry : Option Geometry} {style other : Style}
    {set otherSet : SymbolSet} {written otherWritten : Entry × SymbolSet}
    (h : styleBlock geometry style set = .ok written)
    (hother : styleBlock geometry other otherSet = .ok otherWritten) :
    Alike (styleWords geometry style) (styleWords geometry other) [written.1] [otherWritten.1] := by
  unfold styleBlock at h hother
  obtain ⟨size, hsize, h⟩ := bind_eq_ok_iff.mp h
  obtain ⟨outline, -, h⟩ := bind_eq_ok_iff.mp h
  obtain ⟨fill, -, h⟩ := bind_eq_ok_iff.mp h
  obtain ⟨otherSize, hotherSize, hother⟩ := bind_eq_ok_iff.mp hother
  obtain ⟨otherOutline, -, hother⟩ := bind_eq_ok_iff.mp hother
  obtain ⟨otherFill, -, hother⟩ := bind_eq_ok_iff.mp hother
  obtain rfl := Except.ok.inj h
  obtain rfl := Except.ok.inj hother
  have hsizes : Alike (styleWords geometry style) (styleWords geometry other) size otherSize := by
    unfold sizeEntries at hsize hotherSize
    unfold styleWords
    split at hsize
    next hgeometry =>
      rw [if_pos hgeometry] at hotherSize
      obtain ⟨value, hvalue, hsize⟩ := bind_eq_ok_iff.mp hsize
      obtain ⟨otherValue, hotherValue, hotherSize⟩ := bind_eq_ok_iff.mp hotherSize
      obtain rfl := Except.ok.inj hsize
      obtain rfl := Except.ok.inj hotherSize
      rw [if_pos hgeometry, if_pos hgeometry, require_eq_ok_iff.mp hvalue,
        require_eq_ok_iff.mp hotherValue]
      exact .setting rfl
    next hgeometry =>
      rw [if_neg hgeometry] at hotherSize
      obtain rfl := Except.ok.inj hsize
      obtain rfl := Except.ok.inj hotherSize
      rw [if_neg hgeometry, if_neg hgeometry]
      exact .nil
  refine .block rfl (.append_fixed (.fixed_append ?_ hsizes) ?_)
  · exact .directive rfl (fit_reference geometry style other set otherSet)
  · exact .cons (.directive rfl (.colour outline otherOutline))
      (.directive rfl (.colour fill otherFill))

/-- What begins a class of a graduation is alike. -/
theorem alike_of_rangeOpening {field otherField : String} {styledClass other : StyledClass}
    {entries others : List Entry} (h : rangeOpening field styledClass = .ok entries)
    (hother : rangeOpening otherField other = .ok others) :
    Alike (rangeWords field styledClass) (rangeWords otherField other) entries others := by
  obtain ⟨lower, hlower, h⟩ := bind_eq_ok_iff.mp h
  obtain ⟨upper, hupper, h⟩ := bind_eq_ok_iff.mp h
  obtain ⟨otherLower, hotherLower, hother⟩ := bind_eq_ok_iff.mp hother
  obtain ⟨otherUpper, hotherUpper, hother⟩ := bind_eq_ok_iff.mp hother
  obtain rfl := Except.ok.inj h
  obtain rfl := Except.ok.inj hother
  simp only [rangeWords, require_eq_ok_iff.mp hlower, require_eq_ok_iff.mp hupper,
    require_eq_ok_iff.mp hotherLower, require_eq_ok_iff.mp hotherUpper, Option.getD_some]
  exact .cons (.quotedSetting rfl) (.directive rfl
    (.cons (.same rfl) (.cons .bare (.cons (.same rfl) (.cons .bare (.cons (.same rfl)
      (.cons .bare (.cons (.same rfl) (.cons .bare (.cons (.same rfl) .nil))))))))))

/-- What begins a class of unique values is alike. -/
theorem alike_of_valueOpening {field otherField : String} {styledClass other : StyledClass}
    {entries others : List Entry} (h : valueOpening field styledClass = .ok entries)
    (hother : valueOpening otherField other = .ok others) :
    Alike (uniqueWords field styledClass) (uniqueWords otherField other) entries others := by
  obtain ⟨value, hvalue, h⟩ := bind_eq_ok_iff.mp h
  obtain ⟨otherValue, hotherValue, hother⟩ := bind_eq_ok_iff.mp hother
  obtain rfl := Except.ok.inj h
  obtain rfl := Except.ok.inj hother
  simp only [uniqueWords, require_eq_ok_iff.mp hvalue, require_eq_ok_iff.mp hotherValue,
    Option.getD_some]
  exact .cons (.quotedSetting rfl) (.quotedSetting rfl)

section Classes

variable {geometry : Option Geometry} {labelling otherLabelling : Option Labelling}
  (hlabelling : labelling.map labellingShape = otherLabelling.map labellingShape)
include hlabelling

/-- Label blocks are alike. -/
theorem alike_labelEntries :
    Alike (labelWords labelling) (labelWords otherLabelling) (labelEntries labelling)
      (labelEntries otherLabelling) := by
  cases labelling with
  | none =>
    cases otherLabelling with
    | none => exact .nil
    | some => cases hlabelling
  | some labelling =>
    cases otherLabelling with
    | none => cases hlabelling
    | some other =>
      obtain ⟨-, hangle, hbuffer⟩ := LabellingShape.mk.inj (Option.some.inj hlabelling)
      refine .block rfl (.append (.fixed_append (.fixed rfl rfl) ?_) ?_)
      · exact .optional hangle fun _ _ => .setting rfl
      · exact .optional hbuffer fun _ _ => .setting rfl

/-- Class blocks are alike when what they begin with is. -/
theorem alike_of_classBlock {words otherWords : List Word} {opening otherOpening : List Entry}
    {style other : Style} {set otherSet : SymbolSet} {written otherWritten : Entry × SymbolSet}
    (hopening : Alike words otherWords opening otherOpening)
    (h : classBlock geometry labelling opening style set = .ok written)
    (hother : classBlock geometry otherLabelling otherOpening other otherSet = .ok otherWritten) :
    Alike (words ++ styleWords geometry style ++ labelWords labelling)
      (otherWords ++ styleWords geometry other ++ labelWords otherLabelling) [written.1]
      [otherWritten.1] := by
  unfold classBlock at h hother
  obtain ⟨⟨block, after⟩, hblock, h⟩ := bind_eq_ok_iff.mp h
  obtain ⟨⟨otherBlock, otherAfter⟩, hotherBlock, hother⟩ := bind_eq_ok_iff.mp hother
  obtain rfl := Except.ok.inj h
  obtain rfl := Except.ok.inj hother
  have hstyle := alike_of_styleBlock hblock hotherBlock
  exact .block rfl ((hopening.append hstyle).append (alike_labelEntries hlabelling))

/-- As many class blocks are alike when what each of them begins with is. -/
theorem alike_of_classBlocks {opening otherOpening : StyledClass → Except Error (List Entry)}
    {words otherWords : StyledClass → List Word}
    (hopening : ∀ {styledClass other entries others}, opening styledClass = .ok entries →
      otherOpening other = .ok others →
      Alike (words styledClass) (otherWords other) entries others)
    {classes others : List StyledClass} (hlength : classes.length = others.length)
    {set otherSet : SymbolSet} {written otherWritten : List Entry × SymbolSet}
    (h : classBlocks geometry labelling opening classes set = .ok written)
    (hother : classBlocks geometry otherLabelling otherOpening others otherSet = .ok otherWritten) :
    Alike (classesWords geometry labelling words classes)
      (classesWords geometry otherLabelling otherWords others) written.1 otherWritten.1 := by
  induction classes generalizing others set otherSet written otherWritten with
  | nil =>
    obtain rfl := List.eq_nil_of_length_eq_zero hlength.symm
    obtain rfl := Except.ok.inj h
    obtain rfl := Except.ok.inj hother
    exact .nil
  | cons styledClass rest ih =>
    obtain ⟨other, others, rfl⟩ := List.exists_cons_of_length_eq_add_one hlength.symm
    obtain ⟨entries, hentries, h⟩ := bind_eq_ok_iff.mp h
    obtain ⟨⟨block, after⟩, hblock, h⟩ := bind_eq_ok_iff.mp h
    obtain ⟨⟨blocks, last⟩, hblocks, h⟩ := bind_eq_ok_iff.mp h
    obtain ⟨otherEntries, hotherEntries, hother⟩ := bind_eq_ok_iff.mp hother
    obtain ⟨⟨otherBlock, otherAfter⟩, hotherBlock, hother⟩ := bind_eq_ok_iff.mp hother
    obtain ⟨⟨otherBlocks, otherLast⟩, hotherBlocks, hother⟩ := bind_eq_ok_iff.mp hother
    obtain rfl := Except.ok.inj h
    obtain rfl := Except.ok.inj hother
    have hbegin := hopening hentries hotherEntries
    have hfirst := alike_of_classBlock hlabelling hbegin hblock hotherBlock
    exact hfirst.cons (ih (Nat.succ.inj hlength) hblocks hotherBlocks)

/-- Blocks of continuous ramps are alike. -/
theorem alike_of_rampBlock {name otherName field otherField : String}
    {lowest highest otherLowest otherHighest : StyledClass} {block otherBlock : Entry}
    (h : rampBlock field lowest highest labelling = .ok block)
    (hother : rampBlock otherField otherLowest otherHighest otherLabelling = .ok otherBlock) :
    Alike (rendererWords name geometry labelling (.continuous field lowest highest))
      (rendererWords otherName geometry otherLabelling
        (.continuous otherField otherLowest otherHighest)) [block] [otherBlock] := by
  unfold rampBlock at h hother
  obtain ⟨lowestFill, -, h⟩ := bind_eq_ok_iff.mp h
  obtain ⟨highestFill, -, h⟩ := bind_eq_ok_iff.mp h
  obtain ⟨lower, hlower, h⟩ := bind_eq_ok_iff.mp h
  obtain ⟨upper, hupper, h⟩ := bind_eq_ok_iff.mp h
  obtain ⟨outline, -, h⟩ := bind_eq_ok_iff.mp h
  obtain ⟨otherLowestFill, -, hother⟩ := bind_eq_ok_iff.mp hother
  obtain ⟨otherHighestFill, -, hother⟩ := bind_eq_ok_iff.mp hother
  obtain ⟨otherLower, hotherLower, hother⟩ := bind_eq_ok_iff.mp hother
  obtain ⟨otherUpper, hotherUpper, hother⟩ := bind_eq_ok_iff.mp hother
  obtain ⟨otherOutline, -, hother⟩ := bind_eq_ok_iff.mp hother
  obtain rfl := Except.ok.inj h
  obtain rfl := Except.ok.inj hother
  simp only [rendererWords, require_eq_ok_iff.mp hlower, require_eq_ok_iff.mp hupper,
    require_eq_ok_iff.mp hotherLower, require_eq_ok_iff.mp hotherUpper, Option.getD_some]
  have hcolours : Alike [] []
      [.directive [.bare "COLORRANGE", .bare lowestFill.text, .bare highestFill.text]]
      [.directive [.bare "COLORRANGE", .bare otherLowestFill.text, .bare otherHighestFill.text]] :=
    .directive rfl (.cons (.colour _ _) (.colour _ _))
  have hrange : Alike [.bare lower, .bare upper] [.bare otherLower, .bare otherUpper]
      [.directive [.bare "DATARANGE", .bare lower, .bare upper]]
      [.directive [.bare "DATARANGE", .bare otherLower, .bare otherUpper]] :=
    .directive rfl (.cons .bare .bare)
  have houtline : Alike [] [] [.setting "OUTLINECOLOR" outline.text]
      [.setting "OUTLINECOLOR" otherOutline.text] :=
    .directive rfl (.colour _ _)
  exact .block rfl ((Alike.cons (.block rfl (hcolours.cons (hrange.cons (.quotedSetting rfl))))
    (.block rfl houtline)).append (alike_labelEntries hlabelling))

/-- The entries of renderers of one shape are alike. -/
theorem alike_of_rendererEntries {name otherName : String} {renderer other : Renderer}
    {set otherSet : SymbolSet} {written otherWritten : List Entry × SymbolSet}
    (hshape : rendererShape renderer = rendererShape other)
    (h : rendererEntries name geometry labelling renderer set = .ok written)
    (hother : rendererEntries otherName geometry otherLabelling other otherSet =
      .ok otherWritten) :
    Alike (rendererWords name geometry labelling renderer)
      (rendererWords otherName geometry otherLabelling other) written.1 otherWritten.1 := by
  cases renderer with
  | single style =>
    cases other with
    | single other =>
      obtain ⟨⟨block, after⟩, hblock, h⟩ := bind_eq_ok_iff.mp h
      obtain ⟨⟨otherBlock, otherAfter⟩, hotherBlock, hother⟩ := bind_eq_ok_iff.mp hother
      obtain rfl := Except.ok.inj h
      obtain rfl := Except.ok.inj hother
      exact alike_of_classBlock hlabelling (.quotedSetting rfl) hblock hotherBlock
    | _ => cases hshape
  | graduated field classes =>
    cases other with
    | graduated otherField others =>
      obtain ⟨⟨blocks, after⟩, hblocks, h⟩ := bind_eq_ok_iff.mp h
      obtain ⟨⟨otherBlocks, otherAfter⟩, hotherBlocks, hother⟩ := bind_eq_ok_iff.mp hother
      obtain rfl := Except.ok.inj h
      obtain rfl := Except.ok.inj hother
      exact .cons (.quotedSetting rfl) (alike_of_classBlocks hlabelling alike_of_rangeOpening
        (RendererShape.graduated.inj hshape) hblocks hotherBlocks)
    | _ => cases hshape
  | continuous field lowest highest =>
    cases other with
    | continuous otherField otherLowest otherHighest =>
      obtain ⟨block, hblock, h⟩ := bind_eq_ok_iff.mp h
      obtain ⟨otherBlock, hotherBlock, hother⟩ := bind_eq_ok_iff.mp hother
      obtain rfl := Except.ok.inj h
      obtain rfl := Except.ok.inj hother
      exact alike_of_rampBlock hlabelling hblock hotherBlock
    | _ => cases hshape
  | unique field classes =>
    cases other with
    | unique otherField others =>
      obtain ⟨⟨blocks, after⟩, hblocks, h⟩ := bind_eq_ok_iff.mp h
      obtain ⟨⟨otherBlocks, otherAfter⟩, hotherBlocks, hother⟩ := bind_eq_ok_iff.mp hother
      obtain rfl := Except.ok.inj h
      obtain rfl := Except.ok.inj hother
      exact .cons (.quotedSetting rfl) (alike_of_classBlocks hlabelling alike_of_valueOpening
        (RendererShape.unique.inj hshape) hblocks hotherBlocks)
    | _ => cases hshape
  | absent =>
    cases other with
    | absent =>
      obtain rfl := Except.ok.inj h
      obtain rfl := Except.ok.inj hother
      exact .nil
    | _ => cases hshape

end Classes

/-- The entries of connections of one shape are alike. -/
theorem alike_connectionEntries {connection other : Connection}
    (hshape : connectionShape connection = connectionShape other) :
    Alike (connectionWords connection) (connectionWords other) (connectionEntries connection)
      (connectionEntries other) := by
  cases connection with
  | postgis postgis =>
    cases other with
    | postgis other =>
      exact .cons (.fixed rfl rfl) (.cons (.quotedSetting rfl) (.quotedSetting rfl))
    | _ => cases hshape
  | wms wms =>
    cases other with
    | wms other =>
      exact .cons (.fixed rfl rfl) (.cons (.quotedSetting rfl) (.block rfl
        (.cons (.pair rfl) (.cons (.fixed rfl rfl) (.cons (.pair rfl) (.cons (.pair rfl)
          (.pair rfl)))))))
    | _ => cases hshape
  | data dataSource =>
    cases other with
    | data other => exact .quotedSetting rfl
    | _ => cases hshape

/-- Projection blocks of as many parameters are alike. -/
theorem alike_projection {proj4 other : String}
    (hlength : (Projection.parameters proj4).length = (Projection.parameters other).length) :
    Alike ((Projection.parameters proj4).map .quoted) ((Projection.parameters other).map .quoted)
      [Projection.block proj4] [Projection.block other] :=
  .block rfl (.quotedLines hlength)

/-- The directives of scale ranges are alike. -/
theorem alike_scaleEntries {range other : Option ScaleRange}
    (hmin : (range.bind (·.min)).isSome = (other.bind (·.min)).isSome)
    (hmax : (range.bind (·.max)).isSome = (other.bind (·.max)).isSome) :
    Alike (scaleWords range) (scaleWords other) (scaleEntries range) (scaleEntries other) := by
  have hentries (range : Option ScaleRange) : scaleEntries range =
      Entry.optional (.setting "MINSCALE") (range.bind (·.min)) ++
        Entry.optional (.setting "MAXSCALE") (range.bind (·.max)) := by
    cases range <;> rfl
  rw [hentries, hentries]
  exact .append (.optional hmin fun _ _ => .setting rfl) (.optional hmax fun _ _ => .setting rfl)

/-- Labels are asked for in both or in neither of two labellings of one shape. -/
theorem isSome_labelItem? {labelling other : Option Labelling}
    (h : labelling.map labellingShape = other.map labellingShape) :
    (labelItem? labelling).isSome = (labelItem? other).isSome := by
  have hsome (labelling : Option Labelling) : (labelItem? labelling).isSome =
      (labelling.map labellingShape).any (·.enabled) := by
    rcases labelling with _ | ⟨field, _ | _, angle, buffer⟩ <;> rfl
  rw [hsome, hsome, h]

/-- The entry for the field that labels are taken from. -/
theorem labelItemEntries_eq (layer : Layer) : labelItemEntries layer =
    Entry.optional (.quotedSetting "LABELITEM") (labelItem? layer.labelling) := by
  unfold labelItemEntries
  rcases layer.labelling with _ | ⟨field, _ | _, angle, buffer⟩ <;> rfl

/-- What stands in a layer before its renderer is alike in layers of one shape. -/
theorem alike_layerOpening {layer other : Layer} (hshape : layerShape layer = layerShape other) :
    Alike (openingWords layer) (openingWords other) (layerOpening layer) (layerOpening other) := by
  obtain ⟨-, hmin, hmax, hconnection, hparameters, hlabelling, -, -⟩ := LayerShape.mk.inj hshape
  have htype (kind : LayerKind) : isToken (layerType kind).toList = true := by
    rcases kind with (_ | _ | _) | _ <;> rfl
  have htitle : Alike [.quoted layer.name] [.quoted other.name]
      [.block "METADATA" [.pair "wms_title" layer.name]]
      [.block "METADATA" [.pair "wms_title" other.name]] :=
    .block rfl (.pair rfl)
  rw [layerOpening, layerOpening, labelItemEntries_eq, labelItemEntries_eq]
  -- the parts one by one, the last one first
  refine .append ?_ (.optional (isSome_labelItem? hlabelling) fun _ _ => .quotedSetting rfl)
  refine .append ?_ (htitle.cons (.cons (.fixed rfl rfl)
    (.cons (.directive rfl (.fixed (isToken_toString _) (isToken_toString _)))
      (alike_projection hparameters))))
  refine .append ?_ (alike_connectionEntries hconnection)
  refine .append ?_ (alike_scaleEntries hmin hmax)
  exact .cons (.quotedSetting rfl) (.directive rfl (.fixed (htype _) (htype _)))

/-- Layers of one shape become entries that are alike. -/
theorem alike_of_layerAlone {layer other : Layer} {entries others : List Entry}
    (hshape : layerShape layer = layerShape other) (h : layerAlone layer = .ok entries)
    (hother : layerAlone other = .ok others) :
    Alike (layerWords layer) (layerWords other) entries others := by
  obtain ⟨hkind, -, -, -, -, hlabelling, hrenderer, -⟩ := LayerShape.mk.inj hshape
  obtain ⟨⟨opened, set⟩, hlayer, rfl⟩ := map_eq_ok_iff.mp h
  obtain ⟨⟨otherOpened, otherSet⟩, hotherLayer, rfl⟩ := map_eq_ok_iff.mp hother
  obtain ⟨written, hwritten, hlayer⟩ := bind_eq_ok_iff.mp hlayer
  obtain ⟨otherWritten, hotherWritten, hotherLayer⟩ := bind_eq_ok_iff.mp hotherLayer
  obtain ⟨rfl, -⟩ := Prod.mk.inj (Except.ok.inj hlayer)
  obtain ⟨rfl, -⟩ := Prod.mk.inj (Except.ok.inj hotherLayer)
  have hgeometry : layer.geometry? = other.geometry? := congrArg LayerKind.geometry? hkind
  rw [hgeometry] at hwritten
  rw [layerWords, layerWords, hgeometry]
  exact .cons_fixed (.block rfl ((alike_layerOpening hshape).append
    (alike_of_rendererEntries hlabelling hrenderer hwritten hotherWritten))) (.fixed rfl rfl)

end Carta.Mapfile
