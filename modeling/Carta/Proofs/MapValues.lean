import Carta.Proofs.ConfinedText
import Carta.Proofs.ValueWords

/-!
# Where the values of the whole map stand

What a mapfile says outside its layers comes from the options, from the bounds and from the
destination coordinate system. These too are values in the places that a shape leaves for them: the
sections of two maps are alike when their options have one shape and their projections have as many
parameters.
-/

namespace Carta.Mapfile

open Carta.Project (Bounds)
open Carta.Text (SingleLine)

/-- What there is to options besides their values. -/
structure OptionsShape where
  outputFormatBlock : Bool
  minScale : Bool
  maxScale : Bool
  template : Bool
  header : Bool
  footer : Bool
  deriving Repr, DecidableEq

/-- The shape of options. -/
def optionsShape (options : Options) : OptionsShape where
  outputFormatBlock := options.outputFormatBlock
  minScale := (nonEmpty options.minScale).isSome
  maxScale := (nonEmpty options.maxScale).isSome
  template := (nonEmpty options.template).isSome
  header := (nonEmpty options.header).isSome
  footer := (nonEmpty options.footer).isSome

/-- The words of the output format, if it is described. -/
def formatWords (options : Options) : List Word :=
  let lower := Text.toLowercase options.imageType
  if options.outputFormatBlock then
    [.bare options.imageType, .quoted ("GD/" ++ Text.toUppercase options.imageType),
      .quoted ("image/" ++ lower), .quoted lower]
  else []

/-- The words of the settings of the WMS. -/
def serverWords (options : Options) : List Word :=
  [.quoted options.mapName, .quoted options.wmsOnlineResource, .quoted options.wmsSrs]

/-- The words of the web interface. -/
def webWords (options : Options) : List Word :=
  [.quoted options.imagePath, .quoted options.imageUrl] ++ serverWords options ++
    (nonEmpty options.minScale).toList.map .bare ++ (nonEmpty options.maxScale).toList.map .bare ++
    (nonEmpty options.template).toList.map .quoted ++ (nonEmpty options.header).toList.map .quoted ++
    (nonEmpty options.footer).toList.map .quoted

/-- The words of the name and the bounds of the map. -/
def mapWords (options : Options) (bounds : Bounds) : List Word :=
  [.quoted options.mapName, .bare bounds.xmin, .bare bounds.ymin, .bare bounds.xmax,
    .bare bounds.ymax]

/-- The words of the sections of the map. -/
def sectionWords (options : Options) (bounds : Bounds) (destination : String) : List Word :=
  mapWords options bounds ++ (Projection.parameters destination).map .quoted ++
    (.bare options.imageType :: formatWords options) ++ webWords options

/-- No word stands in the comments before a map, so they are legible. -/
theorem allLegible_headerComments (source : Option String) :
    Entry.allLegible (headerComments source) = true := rfl

/-- The comments before a map end with their lines when the place that the project comes from is on
one line. -/
theorem allEndComments_headerComments {source : Option String}
    (h : ∀ path ∈ source, SingleLine path) :
    Entry.allEndComments (headerComments source) = true := by
  cases source with
  | none => rfl
  | some path =>
    have hline : SingleLine ("Map file created from QGIS project file " ++ path) :=
      Text.singleLine_append.mpr ⟨Text.singleLine_ofList rfl, h path rfl⟩
    have hends : (Entry.comment ("Map file created from QGIS project file " ++ path)).endsComments =
        true := by
      rw [SingleLine] at hline
      simpa only [Entry.endsComments, List.contains_eq_mem, Bool.not_eq_true', decide_eq_false_iff_not]
        using hline
    rw [headerComments, Entry.allEndComments, hends]
    rfl

/-- Names, sizes, units and bounds are alike. -/
theorem alike_mapEntries (options other : Options) (bounds otherBounds : Bounds) :
    Alike (mapWords options bounds) (mapWords other otherBounds) (mapEntries options bounds)
      (mapEntries other otherBounds) := by
  have hunits (units : Units) : isToken units.keyword.toList = true := by
    cases units <;> rfl
  have hsize : Fit [] [] [.bare (toString options.width), .bare (toString options.height)]
      [.bare (toString other.width), .bare (toString other.height)] :=
    .cons (.fixed (isToken_toString _) (isToken_toString _))
      (.fixed (isToken_toString _) (isToken_toString _))
  exact .cons (.quotedSetting rfl) (.cons (.fixed rfl rfl) (.cons (.directive rfl hsize)
    (.cons (.directive rfl (.fixed (hunits _) (hunits _))) (.cons (.fixed rfl rfl)
      (.directive rfl (.cons .bare (.cons .bare (.cons .bare .bare))))))))

section Sections

variable {options other : Options} (hshape : optionsShape options = optionsShape other)
include hshape

/-- The descriptions of the output formats are alike. -/
theorem alike_outputFormatEntries :
    Alike (formatWords options) (formatWords other) (outputFormatEntries options)
      (outputFormatEntries other) := by
  have hblock : options.outputFormatBlock = other.outputFormatBlock :=
    congrArg OptionsShape.outputFormatBlock hshape
  unfold formatWords outputFormatEntries
  rw [hblock]
  by_cases hasked : other.outputFormatBlock = true
  · simp only [if_pos hasked]
    exact .block rfl (.cons (.setting rfl) (.cons (.quotedSetting rfl) (.cons (.quotedSetting rfl)
      (.cons (.fixed rfl rfl) (.quotedSetting rfl)))))
  · simp only [if_neg hasked]
    exact .nil

/-- The looks of the image are alike. -/
theorem alike_imageEntries :
    Alike (.bare options.imageType :: formatWords options) (.bare other.imageType :: formatWords other)
      (imageEntries options) (imageEntries other) := by
  have hlook : Alike [.bare options.imageType] [.bare other.imageType]
      [.comment "Background color for the map canvas -- change as desired",
        .setting "IMAGECOLOR" "192 192 192", .setting "IMAGEQUALITY" "95",
        .setting "IMAGETYPE" options.imageType]
      [.comment "Background color for the map canvas -- change as desired",
        .setting "IMAGECOLOR" "192 192 192", .setting "IMAGEQUALITY" "95",
        .setting "IMAGETYPE" other.imageType] :=
    .cons (.fixed rfl rfl) (.cons (.fixed rfl rfl) (.cons (.fixed rfl rfl) (.setting rfl)))
  exact hlook.append (alike_outputFormatEntries hshape)

/-- The web interfaces are alike. -/
theorem alike_webEntries :
    Alike (webWords options) (webWords other) (webEntries options) (webEntries other) := by
  obtain ⟨-, hmin, hmax, htemplate, hheader, hfooter⟩ := OptionsShape.mk.inj hshape
  have hserver : Alike (serverWords options) (serverWords other) (serverEntries options)
      (serverEntries other) :=
    .cons (.fixed rfl rfl) (.cons (.block rfl (.cons (.directive rfl .quoted)
      (.cons (.directive rfl .quoted) (.directive rfl .quoted)))) (.fixed rfl rfl))
  refine .fixed_cons (.fixed rfl rfl) (.fixed_cons (.fixed rfl rfl)
    (.cons_fixed (.block rfl ?_) (.fixed rfl rfl)))
  -- the parts of the block one by one, the last one first
  refine .append ?_ (.optional hfooter fun _ _ => .quotedSetting rfl)
  refine .append ?_ (.optional hheader fun _ _ => .quotedSetting rfl)
  refine .append ?_ (.optional htemplate fun _ _ => .quotedSetting rfl)
  refine .append_fixed ?_ (.fixed rfl rfl)
  refine .append ?_ (.optional hmax fun _ _ => .setting rfl)
  refine .append ?_ (.optional hmin fun _ _ => .setting rfl)
  refine .append_fixed ?_ (.fixed rfl rfl)
  refine .append ?_ hserver
  exact .cons (.fixed rfl rfl) (.cons (.fixed rfl rfl) (.cons (.quotedSetting rfl)
    (.cons (.fixed rfl rfl) (.cons (.fixed rfl rfl) (.cons (.fixed rfl rfl)
      (.cons (.quotedSetting rfl) (.fixed rfl rfl)))))))

/-- The sections of maps are alike. -/
theorem alike_sectionEntries {bounds otherBounds : Bounds} {destination otherDestination : String}
    (hlength : (Projection.parameters destination).length =
      (Projection.parameters otherDestination).length) :
    Alike (sectionWords options bounds destination)
      (sectionWords other otherBounds otherDestination) (sectionEntries options bounds destination)
      (sectionEntries other otherBounds otherDestination) := by
  refine .append (.append_fixed (.append ?_ ?_) (.fixed rfl rfl)) ?_
  · exact (alike_mapEntries options other bounds otherBounds).append (alike_projection hlength)
  · exact alike_imageEntries hshape
  · exact alike_webEntries hshape

end Sections

/-- No word stands in the definitions of symbols, and so they are alike to themselves. -/
theorem alike_symbolEntries (set : SymbolSet) :
    Alike [] [] (symbolEntries set.definitions) (symbolEntries set.definitions) := by
  unfold symbolEntries SymbolSet.definitions
  induction set.symbols with
  | nil => exact .nil
  | cons symbol rest ih =>
    have hdefinition : Alike [] [] (symbol.definition ++ [.blank]) (symbol.definition ++ [.blank]) := by
      cases symbol <;> exact .fixed rfl rfl
    exact hdefinition.append ih

end Carta.Mapfile
