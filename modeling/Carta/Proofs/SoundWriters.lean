import Carta.Proofs.ConfinedText
import Carta.Proofs.SoundEntries
import Carta.Proofs.SymbolUse
import Mathlib.Data.List.ReduceOption

/-!
# Every writer writes sound entries

What is written is sound as long as no value that is put into it holds a line feed. The values are
those of the options, of the bounds and of each layer; coordinate systems and PostGIS parameters are
not among them, for they are divided at their blanks before.
-/

namespace Carta

open Carta.Text (SingleLine)

/-- What holds of the values that are there holds of each value that is there. -/
theorem forall_mem_reduceOption {A : Type} {P : A → Prop} {values : List (Option A)} :
    (∀ a ∈ values.reduceOption, P a) ↔ ∀ value ∈ values, ∀ a ∈ value, P a := by
  simp only [List.reduceOption_mem_iff, Option.mem_def]
  exact ⟨fun h value hvalue a ha => h a (ha ▸ hvalue), fun h a ha => h _ ha a rfl⟩

namespace Project

/-- The texts of bounds. -/
def Bounds.values (bounds : Bounds) : List String :=
  [bounds.xmin, bounds.ymin, bounds.xmax, bounds.ymax]

/-- The texts of a class. -/
def StyledClass.values (styledClass : StyledClass) : List String :=
  [styledClass.lower, styledClass.upper, styledClass.label, styledClass.style.size].reduceOption

/-- The texts of a class are on one line when each one that it has is. -/
theorem StyledClass.forall_mem_values {styledClass : StyledClass} {P : String → Prop} :
    (∀ value ∈ styledClass.values, P value) ↔ (∀ lower ∈ styledClass.lower, P lower) ∧
      (∀ upper ∈ styledClass.upper, P upper) ∧ (∀ label ∈ styledClass.label, P label) ∧
      ∀ size ∈ styledClass.style.size, P size := by
  rw [StyledClass.values, forall_mem_reduceOption, List.forall_mem_cons, List.forall_mem_cons,
    List.forall_mem_cons, List.forall_mem_singleton]

/-- The texts of a renderer. -/
def Renderer.values : Renderer → List String
  | .single style => style.size.toList
  | .graduated field classes => field :: classes.flatMap StyledClass.values
  | .continuous field lowest highest => field :: (lowest.values ++ highest.values)
  | .unique field classes => field :: classes.flatMap StyledClass.values
  | .absent => []

/-- The texts of a connection. The parameters of PostGIS are words and not among them. -/
def Connection.values : Connection → List String
  | .postgis _ => []
  | .wms remote =>
    [remote.url, remote.format, remote.epsg] ++
      remote.sublayers.flatMap fun sublayer => sublayer.name :: sublayer.style.toList
  | .data dataSource => [dataSource]

/-- The texts of a labelling. -/
def Labelling.values (labelling : Labelling) : List String :=
  labelling.field :: [labelling.angle, labelling.buffer].reduceOption

/-- The texts of a scale range. -/
def ScaleRange.values (range : ScaleRange) : List String :=
  [range.min, range.max].reduceOption

/-- The texts of a layer. -/
def Layer.values (layer : Layer) : List String :=
  layer.name :: (layer.scaleRange.toList.flatMap ScaleRange.values ++ layer.connection.values ++
    layer.labelling.toList.flatMap Labelling.values ++ layer.renderer.values)

end Project

namespace Mapfile

open Carta.Project (Bounds Connection Geometry Labelling Layer LayerKind Renderer ScaleRange Style
  StyledClass)

/-- The texts of options. -/
def Options.values (options : Options) : List String :=
  [options.mapName, options.imageType, options.imagePath, options.imageUrl,
      options.wmsOnlineResource, options.wmsSrs] ++
    [options.minScale, options.maxScale, options.template, options.header,
      options.footer].reduceOption

/-- The comments before the map are sound. -/
theorem allSound_headerComments {source : Option String} (h : ∀ name ∈ source, SingleLine name) :
    AllSound (headerComments source) := by
  cases source with
  | none =>
    simp only [headerComments, allSound_cons, allSound_nil, and_true]
    exact ⟨.fixedComment rfl, .fixedComment rfl⟩
  | some name =>
    simp only [headerComments, allSound_cons, allSound_nil, and_true]
    have hsource : SingleLine ("Map file created from QGIS project file " ++ name) :=
      Text.singleLine_append.mpr ⟨Text.singleLine_ofList rfl, h name rfl⟩
    exact ⟨.comment hsource, .fixedComment rfl⟩

/-- The block of a coordinate system is sound whatever its definition. -/
theorem sound_projection (proj4 : String) : (Projection.block proj4).Sound := by
  apply Entry.Sound.ofBody rfl
  rw [AllSound, List.forall_mem_map]
  intro parameter hparameter
  exact .quoted (by simp) (by simpa using Projection.singleLine_of_mem_parameters hparameter)

section Sections

variable {options : Options} (hoptions : ∀ value ∈ options.values, SingleLine value)
include hoptions

/-- Name, size, units and bounds of the map are sound. -/
theorem allSound_mapEntries {bounds : Bounds} (hbounds : ∀ value ∈ bounds.values, SingleLine value) :
    AllSound (mapEntries options bounds) := by
  have hname : SingleLine options.mapName := hoptions _ (by simp [Options.values])
  have hunits : SingleLine options.units.keyword := by
    cases options.units <;> exact Text.singleLine_ofList rfl
  have hsize : ∀ word ∈ [Word.bare (toString options.width), .bare (toString options.height)],
      SingleLine word.written := by
    rw [List.forall_mem_cons, List.forall_mem_singleton]
    exact ⟨Text.singleLine_toString _, Text.singleLine_toString _⟩
  have hextent : ∀ word ∈ [Word.bare bounds.xmin, .bare bounds.ymin, .bare bounds.xmax,
      .bare bounds.ymax], SingleLine word.written := by
    simpa [Bounds.values] using hbounds
  simp only [mapEntries, allSound_cons, allSound_nil, and_true]
  exact ⟨.quotedSetting rfl hname, .fixedComment rfl, .led rfl hsize,
    .setting rfl hunits, .blank, .led rfl hextent⟩

/-- The description of the output format is sound. -/
theorem allSound_outputFormatEntries : AllSound (outputFormatEntries options) := by
  have htype : SingleLine options.imageType := hoptions _ (by simp [Options.values])
  have hdriver : SingleLine ("GD/" ++ Text.toUppercase options.imageType) :=
    Text.singleLine_append.mpr ⟨Text.singleLine_ofList rfl, htype.toUppercase⟩
  have hmimeType : SingleLine ("image/" ++ Text.toLowercase options.imageType) :=
    Text.singleLine_append.mpr ⟨Text.singleLine_ofList rfl, htype.toLowercase⟩
  unfold outputFormatEntries
  split
  next =>
    rw [allSound_cons]
    refine ⟨.ofBody rfl ?_, allSound_nil⟩
    simp only [allSound_cons, allSound_nil, and_true]
    exact ⟨.setting rfl htype, .quotedSetting rfl hdriver,
      .quotedSetting rfl hmimeType, .fixedSetting rfl rfl,
      .quotedSetting rfl htype.toLowercase⟩
  next => exact allSound_nil

/-- The look of the image is sound. -/
theorem allSound_imageEntries : AllSound (imageEntries options) := by
  have htype : SingleLine options.imageType := hoptions _ (by simp [Options.values])
  simp only [imageEntries, allSound_append, allSound_cons, allSound_nil, and_true]
  exact ⟨⟨.fixedComment rfl, .fixedSetting rfl rfl, .fixedSetting rfl rfl,
    .setting rfl htype⟩, allSound_outputFormatEntries hoptions⟩

/-- The settings of the WMS are sound. -/
theorem allSound_serverEntries : AllSound (serverEntries options) := by
  have hrow {key value : String} (hkey : SingleLine key) (hvalue : SingleLine value) :
      (Entry.directive [.column 21 key, .quoted value]).Sound :=
    .quoted (by simp) (by simpa using ⟨hkey, hvalue⟩)
  have hname : SingleLine options.mapName := hoptions _ (by simp [Options.values])
  have hresource : SingleLine options.wmsOnlineResource := hoptions _ (by simp [Options.values])
  have hsrs : SingleLine options.wmsSrs := hoptions _ (by simp [Options.values])
  simp only [serverEntries, allSound_cons, allSound_nil, and_true]
  refine ⟨.fixedComment rfl, .ofBody rfl ?_, .blank⟩
  simp only [allSound_cons, allSound_nil, and_true]
  exact ⟨hrow (Text.singleLine_ofList rfl) hname, hrow (Text.singleLine_ofList rfl) hresource,
    hrow (Text.singleLine_ofList rfl) hsrs⟩

/-- The web interface is sound. -/
theorem allSound_webEntries : AllSound (webEntries options) := by
  have hpath : SingleLine options.imagePath := hoptions _ (by simp [Options.values])
  have hurl : SingleLine options.imageUrl := hoptions _ (by simp [Options.values])
  have hpresent {value : Option String} (h : value ∈ [options.minScale, options.maxScale,
      options.template, options.header, options.footer]) :
      ∀ text ∈ nonEmpty value, SingleLine text := by
    rw [Options.values, List.forall_mem_append, forall_mem_reduceOption] at hoptions
    exact fun text htext => hoptions.2 value h text (Option.mem_filter_iff.mp htext).1
  simp only [webEntries, allSound_cons, allSound_nil, and_true]
  refine ⟨.fixedComment rfl, .fixedComment rfl, .ofBody rfl ?_, .blank⟩
  have hplaces : AllSound
      [.comment "Set IMAGEPATH to the path where MapServer should", .comment "write its output.",
        .quotedSetting "IMAGEPATH" options.imagePath, .blank,
        .comment "Set IMAGEURL to the url that points to IMAGEPATH",
        .comment "as defined in your web server configuration",
        .quotedSetting "IMAGEURL" options.imageUrl, .blank] := by
    simp only [allSound_cons, allSound_nil, and_true]
    exact ⟨.fixedComment rfl, .fixedComment rfl, .quotedSetting rfl hpath, .blank,
      .fixedComment rfl, .fixedComment rfl, .quotedSetting rfl hurl, .blank⟩
  have htemplate : AllSound [.comment "Template and header/footer settings", .comment
      "Only the template parameter is required to display a map. See MapServer documentation"] := by
    simp only [allSound_cons, allSound_nil, and_true]
    exact ⟨.fixedComment rfl, .fixedComment rfl⟩
  have hscale : AllSound [.comment "Scale range at which web interface will operate"] := by
    rw [allSound_cons]
    exact ⟨.fixedComment rfl, allSound_nil⟩
  simp only [allSound_append]
  exact ⟨⟨⟨⟨⟨⟨⟨⟨hplaces, allSound_serverEntries hoptions⟩, hscale⟩,
    allSound_optionalSetting rfl (hpresent (by simp))⟩,
    allSound_optionalSetting rfl (hpresent (by simp))⟩, htemplate⟩,
    allSound_optionalQuotedSetting rfl (hpresent (by simp))⟩,
    allSound_optionalQuotedSetting rfl (hpresent (by simp))⟩,
    allSound_optionalQuotedSetting rfl (hpresent (by simp))⟩

/-- All entries of the map before its layers are sound. -/
theorem allSound_sectionEntries {bounds : Bounds}
    (hbounds : ∀ value ∈ bounds.values, SingleLine value) (destination : String) :
    AllSound (sectionEntries options bounds destination) := by
  have hlegend : AllSound legendEntries := by
    simp only [legendEntries, allSound_cons, allSound_nil, and_true]
    refine ⟨.fixedComment rfl, .ofBody rfl ?_, .blank⟩
    simp only [allSound_cons, allSound_nil, and_true]
    refine ⟨.fixedSetting rfl rfl, .fixedSetting rfl rfl,
      .fixedSetting rfl rfl, .ofBody rfl ?_⟩
    simp only [allSound_cons, allSound_nil, and_true]
    exact ⟨.fixedSetting rfl rfl, .fixedSetting rfl rfl,
      .fixedSetting rfl rfl⟩
  simp only [sectionEntries, allSound_append, allSound_cons, allSound_nil, and_true]
  exact ⟨⟨⟨⟨allSound_mapEntries hoptions hbounds, sound_projection destination⟩,
    allSound_imageEntries hoptions⟩, hlegend⟩, allSound_webEntries hoptions⟩

end Sections

/-- The block that defines a symbol is sound when its type and its points are plain words. -/
theorem allSound_definitionBlock {symbol : PointSymbol} {title type : String}
    {points : List (String × String)} (htitle : SingleLine title) (htype : SingleLine type)
    (hpoints : ∀ point ∈ points, (Entry.setting point.1 point.2).Sound) :
    AllSound (symbol.definitionBlock title type points) := by
  have hname : SingleLine symbol.name := by
    cases symbol <;> exact Text.singleLine_ofList rfl
  have hpointEntries : AllSound (points.map fun point => Entry.setting point.1 point.2) := by
    rw [AllSound, List.forall_mem_map]
    exact hpoints
  simp only [PointSymbol.definitionBlock, allSound_cons, allSound_nil, and_true]
  refine ⟨.comment htitle, .ofBody rfl ?_⟩
  simp only [allSound_cons, allSound_nil, and_true]
  exact ⟨.quotedSetting rfl hname, .setting rfl htype,
    .fixedSetting rfl rfl, .ofBody rfl hpointEntries⟩

/-- The definitions of symbols are sound. -/
theorem allSound_symbolEntries (set : SymbolSet) : AllSound (symbolEntries set.definitions) := by
  have hdefinition (symbol : PointSymbol) : AllSound symbol.definition := by
    cases symbol with
    | circle =>
      have hpoints : ∀ point ∈ [("1", "1")], (Entry.setting point.1 point.2).Sound := by
        rw [List.forall_mem_singleton]
        exact .fixedSetting rfl rfl
      exact allSound_definitionBlock (Text.singleLine_ofList rfl) (Text.singleLine_ofList rfl) hpoints
    | triangle =>
      have hpoints : ∀ point ∈ [("0", "1"), (".5", "0"), ("1", "1"), ("0", "1")],
          (Entry.setting point.1 point.2).Sound := by
        rw [List.forall_mem_cons, List.forall_mem_cons, List.forall_mem_cons,
          List.forall_mem_singleton]
        exact ⟨.fixedSetting rfl rfl, .fixedSetting rfl rfl, .fixedSetting rfl rfl,
          .fixedSetting rfl rfl⟩
      exact allSound_definitionBlock (Text.singleLine_ofList rfl) (Text.singleLine_ofList rfl) hpoints
  unfold symbolEntries SymbolSet.definitions
  induction set.symbols with
  | nil => exact allSound_nil
  | cons symbol rest ih =>
    rw [List.map_cons, List.flatMap_cons, allSound_append, allSound_append, allSound_cons]
    exact ⟨⟨hdefinition symbol, .blank, allSound_nil⟩, ih⟩

/-- The block of the labels of a class is sound. -/
theorem allSound_labelEntries {labelling : Option Labelling}
    (hlabelling : ∀ value ∈ labelling.toList.flatMap Labelling.values, SingleLine value) :
    AllSound (labelEntries labelling) := by
  cases labelling with
  | none => exact allSound_nil
  | some labelling =>
    rw [Option.toList_some, List.flatMap_singleton, Labelling.values, List.forall_mem_cons,
      forall_mem_reduceOption, List.forall_mem_cons, List.forall_mem_singleton] at hlabelling
    obtain ⟨_, hangle, hbuffer⟩ := hlabelling
    rw [labelEntries, allSound_cons]
    refine ⟨.ofBody rfl ?_, allSound_nil⟩
    simp only [allSound_append, allSound_cons, allSound_nil, and_true]
    exact ⟨⟨⟨.fixedSetting rfl rfl, .fixedSetting rfl rfl,
      .fixedSetting rfl rfl⟩, allSound_optionalSetting rfl hangle⟩,
      allSound_optionalSetting rfl hbuffer⟩

/-- The reference to a symbol is sound: it begins as the block of a symbol does, but goes on. -/
theorem sound_reference (set : SymbolSet) (geometry : Option Geometry) (style : Style) :
    (Entry.directive [.bare "SYMBOL", (set.refer geometry style).1]).Sound := by
  have hword : SingleLine (set.refer geometry style).1.written ∧
      (set.refer geometry style).1.written.toList.any (!Text.isBlank ·) = true := by
    have hzero : SingleLine (Word.bare "0").written ∧
        (Word.bare "0").written.toList.any (!Text.isBlank ·) = true := by decide
    have hsymbol (symbol : PointSymbol) : SingleLine (Word.quoted symbol.name).written ∧
        (Word.quoted symbol.name).written.toList.any (!Text.isBlank ·) = true := by
      cases symbol <;> decide
    rcases geometry with _ | (_ | _ | _)
    case some.point => exact hsymbol (PointSymbol.ofStyle style)
    all_goals exact hzero
  have hvisible : ∃ c ∈ (set.refer geometry style).1.written.toList, Text.isBlank c = false := by
    simpa using hword.2
  refine .ofWord rfl (Or.inr ?_) (List.forall_mem_singleton.mpr hword.1)
  rwa [directiveText, List.map_singleton, String.intercalate_singleton]

/-- The block of a style is sound. -/
theorem sound_of_styleBlock {geometry : Option Geometry} {style : Style} {set : SymbolSet}
    {written : Entry × SymbolSet} (hsize : ∀ size ∈ style.size, SingleLine size)
    (h : styleBlock geometry style set = .ok written) : written.1.Sound := by
  unfold styleBlock at h
  obtain ⟨size, hwritten, h⟩ := bind_eq_ok_iff.mp h
  obtain ⟨outline, _, h⟩ := bind_eq_ok_iff.mp h
  obtain ⟨fill, _, h⟩ := bind_eq_ok_iff.mp h
  obtain rfl := Except.ok.inj h
  have hsizeEntries : AllSound size := by
    unfold sizeEntries at hwritten
    split at hwritten
    next =>
      obtain ⟨value, hvalue, hwritten⟩ := bind_eq_ok_iff.mp hwritten
      obtain rfl := Except.ok.inj hwritten
      rw [allSound_cons]
      exact ⟨.setting rfl (hsize value (require_eq_ok_iff.mp hvalue)), allSound_nil⟩
    next =>
      obtain rfl := Except.ok.inj hwritten
      exact allSound_nil
  refine .ofBody rfl ?_
  simp only [allSound_append, allSound_cons, allSound_nil, and_true]
  exact ⟨⟨sound_reference set geometry style, hsizeEntries⟩,
    .setting rfl outline.singleLine_text, .setting rfl fill.singleLine_text⟩

/-- What begins a class of a graduation is sound. -/
theorem allSound_of_rangeOpening {field : String} {styledClass : StyledClass} {entries : List Entry}
    (hfield : SingleLine field) (hvalues : ∀ value ∈ styledClass.values, SingleLine value)
    (h : rangeOpening field styledClass = .ok entries) : AllSound entries := by
  obtain ⟨lower, hlower, h⟩ := bind_eq_ok_iff.mp h
  obtain ⟨upper, hupper, h⟩ := bind_eq_ok_iff.mp h
  obtain rfl := Except.ok.inj h
  obtain ⟨hlowers, huppers, hlabels, _⟩ := StyledClass.forall_mem_values.mp hvalues
  have hlowerLine := hlowers lower (require_eq_ok_iff.mp hlower)
  have hupperLine := huppers upper (require_eq_ok_iff.mp hupper)
  have hless : SingleLine " < " := Text.singleLine_ofList rfl
  have hopen : SingleLine "([" := Text.singleLine_ofList rfl
  have hclose : SingleLine "]" := Text.singleLine_ofList rfl
  have hend : SingleLine ")" := Text.singleLine_ofList rfl
  have hlabel : SingleLine (styledClass.label.getD (lower ++ " < " ++ field ++ " < " ++ upper)) := by
    cases hvalue : styledClass.label with
    | none => simp [hlowerLine, hupperLine, hfield, hless]
    | some label => exact hlabels label hvalue
  simp only [allSound_cons, allSound_nil, and_true]
  refine ⟨.quotedSetting rfl hlabel, .led rfl ?_⟩
  have hfixed : SingleLine "(" ∧ SingleLine ">=" ∧ SingleLine "AND" ∧ SingleLine "<=" :=
    ⟨Text.singleLine_ofList rfl, Text.singleLine_ofList rfl, Text.singleLine_ofList rfl,
      Text.singleLine_ofList rfl⟩
  simp [hfixed, hlowerLine, hupperLine, hfield, hopen, hclose, hend]

/-- What begins a class of unique values is sound. -/
theorem allSound_of_valueOpening {field : String} {styledClass : StyledClass} {entries : List Entry}
    (hfield : SingleLine field) (hvalues : ∀ value ∈ styledClass.values, SingleLine value)
    (h : valueOpening field styledClass = .ok entries) : AllSound entries := by
  obtain ⟨value, hvalue, h⟩ := bind_eq_ok_iff.mp h
  obtain rfl := Except.ok.inj h
  obtain ⟨hlowers, _, hlabels, _⟩ := StyledClass.forall_mem_values.mp hvalues
  have hvalueLine := hlowers value (require_eq_ok_iff.mp hvalue)
  have hequals : SingleLine " = " := Text.singleLine_ofList rfl
  have hlabel : SingleLine (styledClass.label.getD (field ++ " = " ++ value)) := by
    cases hlabel : styledClass.label with
    | none => simp [hvalueLine, hfield, hequals]
    | some label => exact hlabels label hlabel
  simp only [allSound_cons, allSound_nil, and_true]
  exact ⟨.quotedSetting rfl hlabel, .quotedSetting rfl hvalueLine⟩

section Classes

variable {geometry : Option Geometry} {labelling : Option Labelling}
  (hlabelling : ∀ value ∈ labelling.toList.flatMap Labelling.values, SingleLine value)
include hlabelling

/-- The block of a class is sound when what it begins with is. -/
theorem sound_of_classBlock {opening : List Entry} {style : Style} {set : SymbolSet}
    {written : Entry × SymbolSet} (hopening : AllSound opening)
    (hsize : ∀ size ∈ style.size, SingleLine size)
    (h : classBlock geometry labelling opening style set = .ok written) : written.1.Sound := by
  unfold classBlock at h
  obtain ⟨⟨block, after⟩, hblock, h⟩ := bind_eq_ok_iff.mp h
  obtain rfl := Except.ok.inj h
  refine .ofBody rfl ?_
  simp only [allSound_append, allSound_cons, allSound_nil, and_true]
  exact ⟨⟨hopening, sound_of_styleBlock hsize hblock⟩, allSound_labelEntries hlabelling⟩

/-- The blocks of classes are sound when what each of them begins with is. -/
theorem allSound_of_classBlocks {opening : StyledClass → Except Error (List Entry)}
    {classes : List StyledClass} {set : SymbolSet} {written : List Entry × SymbolSet}
    (hopening : ∀ styledClass entries, (∀ value ∈ styledClass.values, SingleLine value) →
      opening styledClass = .ok entries → AllSound entries)
    (hvalues : ∀ value ∈ classes.flatMap StyledClass.values, SingleLine value)
    (h : classBlocks geometry labelling opening classes set = .ok written) :
    AllSound written.1 := by
  induction classes generalizing set written with
  | nil =>
    obtain rfl := Except.ok.inj h
    exact allSound_nil
  | cons styledClass rest ih =>
    rw [List.flatMap_cons, List.forall_mem_append] at hvalues
    obtain ⟨entries, hentries, h⟩ := bind_eq_ok_iff.mp h
    obtain ⟨⟨block, after⟩, hblock, h⟩ := bind_eq_ok_iff.mp h
    obtain ⟨⟨blocks, last⟩, hblocks, h⟩ := bind_eq_ok_iff.mp h
    obtain rfl := Except.ok.inj h
    have hsize := (StyledClass.forall_mem_values.mp hvalues.1).2.2.2
    rw [allSound_cons]
    have hbegin := hopening styledClass entries hvalues.1 hentries
    exact ⟨sound_of_classBlock hlabelling hbegin hsize hblock, ih hvalues.2 hblocks⟩

/-- The block of a continuous ramp is sound. -/
theorem sound_of_rampBlock {field : String} {lowest highest : StyledClass} {block : Entry}
    (hfield : SingleLine field)
    (hvalues : ∀ value ∈ lowest.values ++ highest.values, SingleLine value)
    (h : rampBlock field lowest highest labelling = .ok block) : block.Sound := by
  unfold rampBlock at h
  obtain ⟨lowestFill, _, h⟩ := bind_eq_ok_iff.mp h
  obtain ⟨highestFill, _, h⟩ := bind_eq_ok_iff.mp h
  obtain ⟨lower, hlower, h⟩ := bind_eq_ok_iff.mp h
  obtain ⟨upper, hupper, h⟩ := bind_eq_ok_iff.mp h
  obtain ⟨outline, _, h⟩ := bind_eq_ok_iff.mp h
  obtain rfl := Except.ok.inj h
  rw [List.forall_mem_append, StyledClass.forall_mem_values, StyledClass.forall_mem_values] at hvalues
  have hlowerLine := hvalues.1.1 lower (require_eq_ok_iff.mp hlower)
  have hupperLine := hvalues.2.1 upper (require_eq_ok_iff.mp hupper)
  have hcolours : ∀ word ∈ [Word.bare lowestFill.text, .bare highestFill.text],
      SingleLine word.written := by
    rw [List.forall_mem_cons, List.forall_mem_singleton]
    exact ⟨lowestFill.singleLine_text, highestFill.singleLine_text⟩
  have hbounds : ∀ word ∈ [Word.bare lower, .bare upper], SingleLine word.written := by
    rw [List.forall_mem_cons, List.forall_mem_singleton]
    exact ⟨hlowerLine, hupperLine⟩
  refine .ofBody rfl ?_
  simp only [allSound_append, allSound_cons, allSound_nil, and_true]
  refine ⟨⟨.ofBody rfl ?_, .ofBody rfl ?_⟩, allSound_labelEntries hlabelling⟩
  · simp only [allSound_cons, allSound_nil, and_true]
    exact ⟨.led rfl hcolours, .led rfl hbounds, .quotedSetting rfl hfield⟩
  · rw [allSound_cons]
    exact ⟨.setting rfl outline.singleLine_text, allSound_nil⟩

/-- The entries of a renderer are sound. -/
theorem allSound_of_rendererEntries {name : String} {renderer : Renderer} {set : SymbolSet}
    {written : List Entry × SymbolSet} (hname : SingleLine name)
    (hvalues : ∀ value ∈ renderer.values, SingleLine value)
    (h : rendererEntries name geometry labelling renderer set = .ok written) :
    AllSound written.1 := by
  cases renderer with
  | single style =>
    obtain ⟨⟨block, after⟩, hblock, h⟩ := bind_eq_ok_iff.mp h
    obtain rfl := Except.ok.inj h
    have hopening : AllSound [.quotedSetting "NAME" name] := by
      rw [allSound_cons]
      exact ⟨.quotedSetting rfl hname, allSound_nil⟩
    rw [allSound_cons]
    exact ⟨sound_of_classBlock hlabelling hopening
      (fun size hsize => hvalues size (Option.mem_toList.mpr hsize)) hblock, allSound_nil⟩
  | graduated field classes =>
    obtain ⟨⟨blocks, after⟩, hblocks, h⟩ := bind_eq_ok_iff.mp h
    obtain rfl := Except.ok.inj h
    rw [Renderer.values, List.forall_mem_cons] at hvalues
    rw [allSound_cons]
    exact ⟨.quotedSetting rfl hvalues.1,
      allSound_of_classBlocks hlabelling (fun _ _ => allSound_of_rangeOpening hvalues.1) hvalues.2
        hblocks⟩
  | continuous field lowest highest =>
    obtain ⟨block, hblock, h⟩ := bind_eq_ok_iff.mp h
    obtain rfl := Except.ok.inj h
    rw [Renderer.values, List.forall_mem_cons] at hvalues
    rw [allSound_cons]
    exact ⟨sound_of_rampBlock hlabelling hvalues.1 hvalues.2 hblock, allSound_nil⟩
  | unique field classes =>
    obtain ⟨⟨blocks, after⟩, hblocks, h⟩ := bind_eq_ok_iff.mp h
    obtain rfl := Except.ok.inj h
    rw [Renderer.values, List.forall_mem_cons] at hvalues
    rw [allSound_cons]
    exact ⟨.quotedSetting rfl hvalues.1,
      allSound_of_classBlocks hlabelling (fun _ _ => allSound_of_valueOpening hvalues.1) hvalues.2
        hblocks⟩
  | absent =>
    obtain rfl := Except.ok.inj h
    exact allSound_nil

end Classes

/-- The entries of a connection are sound. -/
theorem allSound_connectionEntries {connection : Connection}
    (hvalues : ∀ value ∈ connection.values, SingleLine value)
    (hpostgis : ∀ postgis, connection = .postgis postgis → postgis.Confined) :
    AllSound (connectionEntries connection) := by
  cases connection with
  | postgis postgis =>
    have hconfined := hpostgis postgis rfl
    simp only [connectionEntries, allSound_cons, allSound_nil, and_true]
    exact ⟨.fixedSetting rfl rfl, .quotedSetting rfl hconfined.connectionText,
      .quotedSetting rfl hconfined.dataStatement⟩
  | wms remote =>
    rw [Connection.values, List.forall_mem_append, List.forall_mem_cons, List.forall_mem_cons,
      List.forall_mem_singleton, List.forall_mem_flatMap] at hvalues
    obtain ⟨⟨hurl, hformat, hepsg⟩, hsublayers⟩ := hvalues
    have hnames : SingleLine remote.names := by
      apply Text.singleLine_intercalate (Text.singleLine_ofList rfl)
      rw [List.forall_mem_map]
      exact fun sublayer hsublayer => hsublayers sublayer hsublayer _ List.mem_cons_self
    have hstyles : SingleLine remote.styles := by
      apply Text.singleLine_intercalate (Text.singleLine_ofList rfl)
      rw [List.forall_mem_map]
      intro sublayer hsublayer
      cases hstyle : sublayer.style with
      | none => exact Text.singleLine_ofList rfl
      | some style =>
        exact hsublayers sublayer hsublayer style (List.mem_cons_of_mem _ (by simp [hstyle]))
    have hsrs : SingleLine ("EPSG:4326 EPSG:" ++ remote.epsg) :=
      Text.singleLine_append.mpr ⟨Text.singleLine_ofList rfl, hepsg⟩
    simp only [connectionEntries, allSound_cons, allSound_nil, and_true]
    refine ⟨.fixedSetting rfl rfl, .quotedSetting rfl hurl, .ofBody rfl ?_⟩
    simp only [allSound_cons, allSound_nil, and_true]
    exact ⟨.pair rfl hnames, .pair rfl (Text.singleLine_ofList rfl), .pair rfl hsrs,
      .pair rfl hformat, .pair rfl hstyles⟩
  | data dataSource =>
    rw [connectionEntries, allSound_cons]
    exact ⟨.quotedSetting rfl (hvalues dataSource List.mem_cons_self), allSound_nil⟩

/-- The directives of a scale range are sound. -/
theorem allSound_scaleEntries {range : Option ScaleRange}
    (hvalues : ∀ value ∈ range.toList.flatMap ScaleRange.values, SingleLine value) :
    AllSound (scaleEntries range) := by
  cases range with
  | none => exact allSound_nil
  | some range =>
    rw [Option.toList_some, List.flatMap_singleton, ScaleRange.values, forall_mem_reduceOption,
      List.forall_mem_cons, List.forall_mem_singleton] at hvalues
    rw [scaleEntries, allSound_append]
    exact ⟨allSound_optionalSetting rfl hvalues.1,
      allSound_optionalSetting rfl hvalues.2⟩

/-- What a layer says before its classes is sound. -/
theorem allSound_layerOpening {layer : Layer} (hvalues : ∀ value ∈ layer.values, SingleLine value)
    (hpostgis : ∀ postgis, layer.connection = .postgis postgis → postgis.Confined) :
    AllSound (layerOpening layer) := by
  have htype : SingleLine (layerType layer.kind) := by
    cases layer.kind with
    | vector geometry => cases geometry <;> exact Text.singleLine_ofList rfl
    | raster => exact Text.singleLine_ofList rfl
  rw [Layer.values, List.forall_mem_cons, List.forall_mem_append, List.forall_mem_append,
    List.forall_mem_append] at hvalues
  obtain ⟨hname, ⟨⟨hscale, hconnection⟩, hlabelling⟩, _⟩ := hvalues
  have hlabelItem : AllSound (labelItemEntries layer) := by
    unfold labelItemEntries
    split
    next labelling hsome =>
      rw [hsome, Option.toList_some, List.flatMap_singleton, Labelling.values,
        List.forall_mem_cons] at hlabelling
      split
      · rw [allSound_cons]
        exact ⟨.quotedSetting rfl hlabelling.1, allSound_nil⟩
      · exact allSound_nil
    next => exact allSound_nil
  have hmetadata : AllSound [.pair "wms_title" layer.name] := by
    rw [allSound_cons]
    exact ⟨.pair rfl hname, allSound_nil⟩
  simp only [layerOpening, allSound_append, allSound_cons, allSound_nil, and_true]
  exact ⟨⟨⟨⟨⟨.quotedSetting rfl hname, .setting rfl htype⟩,
    allSound_scaleEntries hscale⟩, allSound_connectionEntries hconnection hpostgis⟩,
    .ofBody rfl hmetadata, .fixedSetting rfl rfl,
    .setting rfl (Text.singleLine_toString _), sound_projection layer.proj4⟩, hlabelItem⟩

/-- The block of a layer and the empty line after it are sound. -/
theorem allSound_of_layerAlone {layer : Layer} {block : List Entry}
    (hvalues : ∀ value ∈ layer.values, SingleLine value)
    (hpostgis : ∀ postgis, layer.connection = .postgis postgis → postgis.Confined)
    (h : layerAlone layer = .ok block) : AllSound block := by
  obtain ⟨written, hwritten, rfl⟩ := map_eq_ok_iff.mp h
  obtain ⟨⟨entries, after⟩, hentries, hwritten⟩ := bind_eq_ok_iff.mp hwritten
  obtain rfl := Except.ok.inj hwritten
  have hopening := allSound_layerOpening hvalues hpostgis
  rw [Layer.values, List.forall_mem_cons, List.forall_mem_append, List.forall_mem_append] at hvalues
  obtain ⟨hname, ⟨_, hlabelling⟩, hrenderer⟩ := hvalues
  have hclasses := allSound_of_rendererEntries hlabelling hname hrenderer hentries
  simp only [allSound_cons, allSound_nil, and_true]
  exact ⟨.ofBody rfl (allSound_append.mpr ⟨hopening, hclasses⟩), .blank⟩

end Mapfile

end Carta
