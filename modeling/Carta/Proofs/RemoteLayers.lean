import Carta.Proofs.Requirements

/-!
# The layers of a remote WMS

The names of the remote layers and their styles are written as two texts, each joined by commas. A
style that is absent leaves its place empty, so the two texts have as many parts, and the parts at the
same place belong together. Nothing else is needed to read the remote layers back, as long as no name
and no style has a comma in it.
-/

namespace Carta.Project

open Carta.Xml (Element)

/-- The parts of a text between its commas. -/
def commaParts (s : String) : List String :=
  (Text.splitWhere (· = ',') s.toList).map String.ofList

/-- The remote layer that a name and a style at the same place say, an empty style being none. -/
def WmsSublayer.ofParts (name style : String) : WmsSublayer where
  name
  style := if style = "" then none else some style

/-- A remote layer has the name and the style of its element. -/
structure WmsSublayer.IsOf (element : Element) (sublayer : WmsSublayer) : Prop where
  name : element.findContent? "name" = some sublayer.name
  style : element.findContent? "style" = sublayer.style

/-- The first coordinate system that a layer's data are in has an EPSG code. -/
def HasSourceEpsg (layer : Element) : Prop :=
  ∃ transform source system, layer.find? "coordinatetransform" = some transform ∧
    transform.find? "sourcesrs" = some source ∧ source.find? "spatialrefsys" = some system ∧
    system.HasContent "epsg"

/-- Why a layer has no remote WMS: the first of what it needs that is not there. -/
inductive LacksWms (layer : Element) : Error → Prop
  | properties (h : layer.find? "rasterproperties" = none) :
    LacksWms layer (.missingField "rasterproperties" none)
  | name {properties sublayer : Element} (hproperties : layer.find? "rasterproperties" = some properties)
      (hsublayer : sublayer ∈ properties.findAll "wmsSublayer") (h : ¬sublayer.HasContent "name") :
    LacksWms layer (.missingField "wmsSublayer/name" none)
  | format {properties : Element} (hproperties : layer.find? "rasterproperties" = some properties)
      (hnames : ∀ sublayer ∈ properties.findAll "wmsSublayer", sublayer.HasContent "name")
      (h : ¬properties.HasContent "wmsFormat") : LacksWms layer (.missingField "wmsFormat" none)
  | epsg {properties : Element} (hproperties : layer.find? "rasterproperties" = some properties)
      (hnames : ∀ sublayer ∈ properties.findAll "wmsSublayer", sublayer.HasContent "name")
      (hformat : properties.HasContent "wmsFormat") (h : ¬HasSourceEpsg layer) :
    LacksWms layer (.missingField "sourcesrs/spatialrefsys/epsg" none)

namespace WmsSublayer

variable {element : Element} {elements : List Element}

/-- A remote layer is read of an element that has a name. -/
theorem ofElement_eq_ok_iff {sublayer : WmsSublayer} :
    ofElement element = .ok sublayer ↔ IsOf element sublayer := by
  rw [ofElement, bind_eq_ok_iff]
  constructor
  · rintro ⟨name, hname, h⟩
    obtain rfl := Except.ok.inj h
    exact ⟨require_eq_ok_iff.mp hname, rfl⟩
  · rintro ⟨hname, hstyle⟩
    exact ⟨sublayer.name, require_eq_ok_iff.mpr hname, by rw [hstyle]; rfl⟩

/-- A sub-layer can be read when it has a name. -/
theorem exists_ofElement_eq_ok_iff :
    (∃ sublayer, ofElement element = .ok sublayer) ↔ element.HasContent "name" := by
  simp only [ofElement_eq_ok_iff, ← Element.isSome_findContent?_iff, Option.isSome_iff_exists]
  constructor
  · rintro ⟨sublayer, hname, -⟩
    exact ⟨sublayer.name, hname⟩
  · rintro ⟨name, hname⟩
    exact ⟨⟨name, element.findContent? "style"⟩, hname, rfl⟩

/-- An element without a name is no remote layer. -/
theorem ofElement_eq_error_iff {e : Error} : ofElement element = .error e ↔
    ¬element.HasContent "name" ∧ e = .missingField "wmsSublayer/name" none := by
  have hneeds : Needs (ofElement element)
      [("wmsSublayer/name", (element.findContent? "name").isSome)] :=
    (Needs.ofRequire "wmsSublayer/name" _).thenOk _
  rw [hneeds.eq_error_iff, ← Element.isSome_findContent?_iff]
  simp [firstLacking?, Error.missing]

/-- Elements are not read as remote layers when one of them has no name, whichever it is. -/
theorem mapM_ofElement_eq_error_iff {e : Error} : elements.mapM ofElement = .error e ↔
    (∃ element ∈ elements, ¬element.HasContent "name") ∧
      e = .missingField "wmsSublayer/name" none := by
  have hfirst {e : Error} (h : elements.mapM ofElement = .error e) :
      (∃ element ∈ elements, ¬element.HasContent "name") ∧
        e = .missingField "wmsSublayer/name" none := by
    obtain ⟨before, element, after, rfl, -, hfails⟩ := mapM_eq_error_iff.mp h
    obtain ⟨hname, he⟩ := ofElement_eq_error_iff.mp hfails
    exact ⟨⟨element, by simp, hname⟩, he⟩
  refine ⟨hfirst, fun ⟨⟨element, helement, hname⟩, he⟩ => ?_⟩
  cases hread : elements.mapM ofElement with
  | ok sublayers =>
    have hall := exists_mapM_eq_ok_iff.mp ⟨sublayers, hread⟩ element helement
    exact absurd (exists_ofElement_eq_ok_iff.mp hall) hname
  | error other => rw [he, (hfirst hread).2]

/-- Elements are read as remote layers when each of them has a name. -/
theorem exists_mapM_ofElement_eq_ok_iff : (∃ sublayers, elements.mapM ofElement = .ok sublayers) ↔
    ∀ element ∈ elements, element.HasContent "name" := by
  simp only [exists_mapM_eq_ok_iff, exists_ofElement_eq_ok_iff]

/-- No style of a remote layer is empty. -/
theorem IsOf.style_ne_empty {sublayer : WmsSublayer} (h : IsOf element sublayer) :
    sublayer.style ≠ some "" := by
  rw [← h.style]
  intro hempty
  obtain ⟨found, -, hcontent⟩ := Option.bind_eq_some_iff.mp hempty
  obtain ⟨htext, c, hc, hnot⟩ := Element.content?_eq_some_iff.mp hcontent
  rw [Text.trim_eq_empty_iff.mp htext.symm c hc] at hnot
  cases hnot

/-- A remote layer is told by its name and by its style, or an empty text where it has none. -/
theorem IsOf.ofParts_eq {sublayer : WmsSublayer} (h : IsOf element sublayer) :
    ofParts sublayer.name (sublayer.style.getD "") = sublayer := by
  obtain ⟨name, style⟩ := sublayer
  cases style with
  | none => rfl
  | some style =>
    have hne : style ≠ "" := fun hempty => h.style_ne_empty (congrArg some hempty)
    simp [ofParts, hne]

/-- Remote layers are told by the texts of their names and of their styles, place by place. -/
theorem zipWith_ofParts {sublayers : List WmsSublayer} (h : List.Forall₂ IsOf elements sublayers) :
    List.zipWith ofParts (sublayers.map (·.name)) (sublayers.map (·.style.getD "")) = sublayers := by
  induction h with
  | nil => rfl
  | cons hfirst _ ih => rw [List.map_cons, List.map_cons, List.zipWith_cons_cons, hfirst.ofParts_eq, ih]

end WmsSublayer

namespace Wms

variable {layer : Element} {url : String} {wms : Wms}

/-- The EPSG code is found where there is one. -/
theorem isSome_sourceEpsg?_iff : (sourceEpsg? layer).isSome = true ↔ HasSourceEpsg layer := by
  simp only [sourceEpsg?, Option.isSome_iff_exists, Option.bind_eq_bind, Option.bind_eq_some_iff,
    HasSourceEpsg, ← Element.isSome_findContent?_iff]
  constructor
  · rintro ⟨epsg, transform, htransform, source, hsource, system, hsystem, hepsg⟩
    exact ⟨transform, source, system, htransform, hsource, hsystem, epsg, hepsg⟩
  · rintro ⟨transform, source, system, htransform, hsource, hsystem, epsg, hepsg⟩
    exact ⟨epsg, transform, htransform, source, hsource, system, hsystem, hepsg⟩

/-- A remote WMS has the remote layers that its properties list, in their order. -/
theorem sublayers_of_ofLayer (h : ofLayer layer url = .ok wms) :
    ∃ properties, layer.find? "rasterproperties" = some properties ∧
      List.Forall₂ WmsSublayer.IsOf (properties.findAll "wmsSublayer") wms.sublayers := by
  obtain ⟨properties, hproperties, h⟩ := bind_eq_ok_iff.mp h
  obtain ⟨sublayers, hsublayers, h⟩ := bind_eq_ok_iff.mp h
  obtain ⟨format, -, h⟩ := bind_eq_ok_iff.mp h
  obtain ⟨epsg, -, h⟩ := bind_eq_ok_iff.mp h
  obtain rfl := Except.ok.inj h
  exact ⟨properties, require_eq_ok_iff.mp hproperties,
    (mapM_eq_ok_iff.mp hsublayers).imp fun _ _ => WmsSublayer.ofElement_eq_ok_iff.mp⟩

/-- A remote WMS fails to be read where the first of its steps does. -/
theorem ofLayer_eq_error_iff_steps {e : Error} : ofLayer layer url = .error e ↔
    require "rasterproperties" (layer.find? "rasterproperties") = .error e ∨
      ∃ properties, layer.find? "rasterproperties" = some properties ∧
        ((properties.findAll "wmsSublayer").mapM WmsSublayer.ofElement = .error e ∨
          (∃ sublayers, (properties.findAll "wmsSublayer").mapM WmsSublayer.ofElement = .ok sublayers) ∧
            (require "wmsFormat" (properties.findContent? "wmsFormat") = .error e ∨
              (∃ format, require "wmsFormat" (properties.findContent? "wmsFormat") = .ok format) ∧
                require "sourcesrs/spatialrefsys/epsg" (sourceEpsg? layer) = .error e)) := by
  rw [ofLayer, bind_eq_error_iff]
  refine or_congr_right (exists_congr fun properties => and_congr require_eq_ok_iff ?_)
  refine bind_eq_error_iff_of fun sublayers => bind_eq_error_iff_of fun format => ?_
  cases require "sourcesrs/spatialrefsys/epsg" (sourceEpsg? layer) <;>
    simp [bind, Except.bind, pure, Except.pure]

/-- A layer has no remote WMS by the first thing that it lacks. -/
theorem ofLayer_eq_error_iff {e : Error} : ofLayer layer url = .error e ↔ LacksWms layer e := by
  have hformat (properties : Element) :
      (∃ format, properties.findContent? "wmsFormat" = some format) ↔
        properties.HasContent "wmsFormat" := by
    rw [← Element.isSome_findContent?_iff, Option.isSome_iff_exists]
  simp only [ofLayer_eq_error_iff_steps, WmsSublayer.mapM_ofElement_eq_error_iff,
    WmsSublayer.exists_mapM_ofElement_eq_ok_iff, require_eq_error_iff, require_eq_ok_iff, hformat,
    ← Option.not_isSome_iff_eq_none, Element.isSome_findContent?_iff, isSome_sourceEpsg?_iff]
  constructor
  · rintro (⟨hproperties, rfl⟩ | ⟨properties, hproperties, h⟩)
    · exact .properties (by simpa using hproperties)
    rcases h with ⟨⟨sublayer, hsublayer, hname⟩, rfl⟩ | ⟨hnames, h⟩
    · exact .name hproperties hsublayer hname
    rcases h with ⟨hlacking, rfl⟩ | ⟨hformat, hlacking, rfl⟩
    · exact .format hproperties hnames hlacking
    · exact .epsg hproperties hnames hformat hlacking
  · intro h
    cases h with
    | properties h => exact .inl ⟨by simp [h], rfl⟩
    | name hproperties hsublayer hname =>
      exact .inr ⟨_, hproperties, .inl ⟨⟨_, hsublayer, hname⟩, rfl⟩⟩
    | format hproperties hnames hlacking =>
      exact .inr ⟨_, hproperties, .inr ⟨hnames, .inl ⟨hlacking, rfl⟩⟩⟩
    | epsg hproperties hnames hformat hlacking =>
      exact .inr ⟨_, hproperties, .inr ⟨hnames, .inr ⟨hformat, hlacking, rfl⟩⟩⟩

section Parts

variable (hne : wms.sublayers ≠ [])
include hne

/-- The names are divided again at their commas. -/
theorem commaParts_names (h : ∀ sublayer ∈ wms.sublayers, ',' ∉ sublayer.name.toList) :
    commaParts wms.names = wms.sublayers.map (·.name) :=
  Text.map_splitWhere_intercalate (by simp) (by simpa using hne) (by simpa using h)

/-- The styles are divided again at their commas, with an empty text for each that is absent. -/
theorem commaParts_styles
    (h : ∀ sublayer ∈ wms.sublayers, ∀ style ∈ sublayer.style, ',' ∉ style.toList) :
    commaParts wms.styles = wms.sublayers.map (·.style.getD "") := by
  refine Text.map_splitWhere_intercalate (by simp) (by simpa using hne) ?_
  rw [List.forall_mem_map]
  intro sublayer hsublayer
  cases hstyle : sublayer.style with
  | none => simp
  | some style => exact h sublayer hsublayer style hstyle

end Parts

/-- The names and styles of a remote WMS have a part for each remote layer when no comma is in them,
and the parts at the same place are the name and the style of the element at that place. A layer has
no remote WMS exactly when something is lacking, and the error tells what is lacking first. -/
theorem ofLayer_aligned (layer : Element) (url : String) :
    (∀ wms, ofLayer layer url = .ok wms → ∃ properties,
      layer.find? "rasterproperties" = some properties ∧
      List.Forall₂ WmsSublayer.IsOf (properties.findAll "wmsSublayer") wms.sublayers ∧
      (wms.sublayers ≠ [] → (∀ sublayer ∈ wms.sublayers, ',' ∉ sublayer.name.toList ∧
          ∀ style ∈ sublayer.style, ',' ∉ style.toList) →
        (commaParts wms.names).length = wms.sublayers.length ∧
        (commaParts wms.styles).length = wms.sublayers.length ∧
        List.zipWith WmsSublayer.ofParts (commaParts wms.names) (commaParts wms.styles) =
          wms.sublayers)) ∧
    ((∃ e, ofLayer layer url = .error e) ↔ ∃ e, LacksWms layer e) ∧
    ∀ e, ofLayer layer url = .error e ↔ LacksWms layer e := by
  refine ⟨fun wms h => ?_, exists_congr fun _ => ofLayer_eq_error_iff, fun _ => ofLayer_eq_error_iff⟩
  obtain ⟨properties, hproperties, hsublayers⟩ := sublayers_of_ofLayer h
  refine ⟨properties, hproperties, hsublayers, fun hne hcommas => ?_⟩
  have hnames := commaParts_names hne fun sublayer hsublayer => (hcommas sublayer hsublayer).1
  have hstyles := commaParts_styles hne fun sublayer hsublayer => (hcommas sublayer hsublayer).2
  refine ⟨by rw [hnames, List.length_map], by rw [hstyles, List.length_map], ?_⟩
  rw [hnames, hstyles, WmsSublayer.zipWith_ofParts hsublayers]

/-- A layer of a remote WMS with raster properties. -/
def remoteLayer (properties : List Element) : Element where
  name := "maplayer"
  children :=
    [{ name := "rasterproperties", children := properties },
      { name := "coordinatetransform"
        children := [{
          name := "sourcesrs"
          children := [{ name := "spatialrefsys", children := [Mapfile.textElement "epsg" "3857"] }] }] }]

/-- The properties of three remote layers, the second of which stands inside of the first. Only that
one has a style. -/
def threeRemoteLayers : List Element :=
  [{ name := "wmsSublayer"
     children := [Mapfile.textElement "name" "roads", Mapfile.textElement "style" " ",
       { name := "wmsSublayer"
         children := [Mapfile.textElement "name" " bridges ", Mapfile.textElement "style" "dark"] }] },
    { name := "wmsSublayer", children := [Mapfile.textElement "name" "rivers"] }]

/-- The second of three remote layers keeps its style, and without a format there are none. -/
theorem threeRemoteLayers_aligned :
    (∃ wms, ofLayer (remoteLayer (Mapfile.textElement "wmsFormat" "image/png" :: threeRemoteLayers))
        "http://localhost/wms" = .ok wms ∧
      wms.names = "roads,bridges,rivers" ∧ wms.styles = ",dark," ∧
      List.zipWith WmsSublayer.ofParts (commaParts wms.names) (commaParts wms.styles) =
        [⟨"roads", none⟩, ⟨"bridges", some "dark"⟩, ⟨"rivers", none⟩]) ∧
    ofLayer (remoteLayer threeRemoteLayers) "http://localhost/wms" =
      .error (.missingField "wmsFormat" none) := by
  constructor
  · have hwms : ofLayer (remoteLayer (Mapfile.textElement "wmsFormat" "image/png" :: threeRemoteLayers))
        "http://localhost/wms" = .ok {
          url := "http://localhost/wms"
          sublayers := [⟨"roads", none⟩, ⟨"bridges", some "dark"⟩, ⟨"rivers", none⟩]
          format := "image/png"
          epsg := "3857" } := by decide
    obtain ⟨-, -, -, haligned⟩ := (ofLayer_aligned _ _).1 _ hwms
    exact ⟨_, hwms, by decide, by decide, (haligned (by simp) (by decide)).2.2⟩
  · refine ((ofLayer_aligned _ _).2.2 _).mpr (.format rfl ?_ ?_)
    · simp only [← Element.isSome_findContent?_iff]
      decide
    · rw [← Element.isSome_findContent?_iff]
      decide

end Wms

end Carta.Project
