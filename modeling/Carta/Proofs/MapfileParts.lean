import Carta.Mapfile.Render
import Carta.Proofs.SymbolUse

/-!
# A mapfile is the sum of its parts

The text of a mapfile is the sections of the map, a block for each layer, the definitions of the
symbols in use and the line that ends the map, one after the other. The sections depend on the
options, on where the project comes from, on its bounds and on its destination. Each block is what
its layer is written as alone, so no layer changes the block of another one, and a block does not
depend on where its layer stands among the layers.
-/

namespace Carta

open Carta.Project (Bounds Document Layer)
open Carta.Xml (Element)

namespace Mapfile

/-- The lines of entries that stand together are those of each. -/
theorem Entry.linesOfAll_append (depth : Nat) (first second : List Entry) :
    linesOfAll depth (first ++ second) = linesOfAll depth first ++ linesOfAll depth second := by
  induction first with
  | nil => simp [linesOfAll]
  | cons entry rest ih => simp [linesOfAll, ih]

/-- The text of lines that stand together is the text of each. -/
theorem Entry.textOfLines_append (first second : List String) :
    textOfLines (first ++ second) = textOfLines first ++ textOfLines second := by
  apply String.toList_inj.mp
  simp [textOfLines]

/-- The text of entries that stand together is the text of each. -/
theorem Entry.text_append (depth : Nat) (first second : List Entry) :
    text depth (first ++ second) = text depth first ++ text depth second := by
  rw [text, linesOfAll_append, textOfLines_append, text, text]

/-- The text of groups of entries is the text of each group. -/
theorem Entry.text_flatten (depth : Nat) (groups : List (List Entry)) :
    text depth groups.flatten = String.join (groups.map (text depth)) := by
  induction groups with
  | nil => rfl
  | cons group rest ih => rw [List.flatten_cons, text_append, ih, List.map_cons, String.join_cons]

end Mapfile

namespace Project

/-- A layer that can be read is the same wherever it stands: its index only names it in an error. -/
theorem Layer.ofElement_eq_ok_of_index {element : Element} {layer : Layer} {index : Nat}
    (h : Layer.ofElement element index = .ok layer) (other : Nat) :
    Layer.ofElement element other = .ok layer := by
  unfold Layer.ofElement at h ⊢
  obtain ⟨name, hname, hlayer⟩ := bind_eq_ok_iff.mp h
  rw [inLayer_eq_ok_iff] at hname
  exact bind_eq_ok_iff.mpr ⟨name, inLayer_eq_ok_iff.mpr hname, hlayer⟩

/-- Whether elements are read as layers, one by one and wherever they stand. -/
def Document.ReadAs (elements : List Element) (layers : List Layer) : Prop :=
  List.Forall₂ (fun element layer => ∀ index, Layer.ofElement element index = .ok layer) elements layers

/-- The layers of a document are what its elements are read as. -/
theorem Document.layersFrom_eq_ok_iff {index : Nat} {elements : List Element} {layers : List Layer} :
    layersFrom index elements = .ok layers ↔ ReadAs elements layers := by
  induction elements generalizing index layers with
  | nil =>
    constructor
    · intro h
      obtain rfl := Except.ok.inj h
      exact List.Forall₂.nil
    · intro h
      cases h
      rfl
  | cons element rest ih =>
    constructor
    · intro h
      obtain ⟨layer, hlayer, h⟩ := bind_eq_ok_iff.mp h
      obtain ⟨more, hmore, h⟩ := bind_eq_ok_iff.mp h
      obtain rfl := Except.ok.inj h
      exact List.Forall₂.cons (Layer.ofElement_eq_ok_of_index hlayer) (ih.mp hmore)
    · intro h
      cases h with
      | cons hlayer hmore =>
        exact bind_eq_ok_iff.mpr ⟨_, hlayer index, bind_eq_ok_iff.mpr ⟨_, ih.mpr hmore, rfl⟩⟩

/-- The layers of a document cannot be read by the first element that is no layer, in whose error it
may be called by its number. -/
theorem Document.layersFrom_eq_error_iff {index : Nat} {elements : List Element} {e : Error} :
    layersFrom index elements = .error e ↔ ∃ before element after,
      elements = before ++ element :: after ∧ (∃ layers, ReadAs before layers) ∧
      Layer.ofElement element (index + before.length) = .error e := by
  induction elements generalizing index with
  | nil =>
    constructor
    · exact fun h => nomatch h
    · rintro ⟨before, element, after, hsplit, _⟩
      simp at hsplit
  | cons element rest ih =>
    constructor
    · intro h
      rcases bind_eq_error_iff.mp h with h | ⟨layer, hlayer, h⟩
      · exact ⟨[], element, rest, rfl, ⟨[], List.Forall₂.nil⟩, h⟩
      · rcases bind_eq_error_iff.mp h with h | ⟨_, _, h⟩
        · obtain ⟨before, failing, after, rfl, ⟨layers, hlayers⟩, hfailing⟩ := ih.mp h
          refine ⟨element :: before, failing, after, rfl, ⟨layer :: layers, ?_⟩, ?_⟩
          · exact List.Forall₂.cons (Layer.ofElement_eq_ok_of_index hlayer) hlayers
          · rw [List.length_cons, Nat.add_comm before.length, ← Nat.add_assoc]
            exact hfailing
        · cases h
    · rintro ⟨before, failing, after, hsplit, ⟨layers, hlayers⟩, hfailing⟩
      cases hlayers with
      | nil =>
        obtain ⟨rfl, rfl⟩ := List.cons.inj hsplit
        exact bind_eq_error_iff.mpr (Or.inl hfailing)
      | @cons first layer before layers hlayer hlayers =>
        obtain ⟨rfl, rfl⟩ := List.cons.inj hsplit
        rw [List.length_cons, Nat.add_comm before.length, ← Nat.add_assoc] at hfailing
        have hrest := ih.mpr ⟨before, failing, after, rfl, ⟨layers, hlayers⟩, hfailing⟩
        exact bind_eq_error_iff.mpr (Or.inr ⟨layer, hlayer index, bind_eq_error_iff.mpr (Or.inl hrest)⟩)

end Project

namespace Mapfile

/-- The text before the layers. -/
def sectionsText (options : Options) (source : Option String) (bounds : Bounds)
    (destination : String) : String :=
  Entry.text 0 (headerComments source) ++ Entry.textOfLines ["MAP"] ++
    Entry.text 1 (sectionEntries options bounds destination)

/-- The text of a layer that is written with no symbols in use before it. -/
def layerText (layer : Layer) : Except Error String :=
  (layerEntries layer {}).map fun written => Entry.text 1 written.1

/-- The definition of a symbol and the empty line after it. -/
def definitionText (symbol : PointSymbol) : String :=
  Entry.text 1 symbol.definition ++ "\n"

/-- The text of definitions is that of each, with an empty line after it. -/
theorem text_symbolEntries (set : SymbolSet) :
    Entry.text 1 (symbolEntries set.definitions) = String.join (set.symbols.map definitionText) := by
  unfold symbolEntries SymbolSet.definitions
  induction set.symbols with
  | nil => rfl
  | cons symbol rest ih =>
    rw [List.map_cons, List.flatMap_cons, Entry.text_append, ih, Entry.text_append, List.map_cons,
      String.join_cons]
    rfl

/-- What a mapfile is made of. -/
theorem ofDocument_eq_ok_iff {options : Options} {document : Document} {mapfile : Mapfile} :
    ofDocument options document = .ok mapfile ↔ ∃ bounds destination layers blocks,
      document.bounds = .ok bounds ∧ document.destination = .ok destination ∧
      document.layers = .ok layers ∧
      List.Forall₂ (fun layer block => layerAlone layer = .ok block) layers blocks ∧
      mapfile = {
        header := headerComments document.source
        body := sectionEntries options bounds destination ++ blocks.flatten ++
          symbolEntries (SymbolSet.insertAll {} (layers.flatMap layerSymbols)).definitions } := by
  unfold ofDocument
  simp only [bind_eq_ok_iff, layersEntries_eq_mapM, map_eq_ok_iff, mapM_eq_ok_iff,
    inLayer_eq_ok_iff]
  constructor
  · rintro ⟨bounds, hbounds, destination, hdestination, layers, hlayers, _, ⟨blocks, hblocks, rfl⟩, h⟩
    obtain rfl := Except.ok.inj h
    exact ⟨bounds, destination, layers, blocks, hbounds, hdestination, hlayers, hblocks, rfl⟩
  · rintro ⟨bounds, destination, layers, blocks, hbounds, hdestination, hlayers, hblocks, rfl⟩
    exact ⟨bounds, hbounds, destination, hdestination, layers, hlayers, _, ⟨blocks, hblocks, rfl⟩, rfl⟩

/-- The text of a mapfile by its parts. -/
theorem render_eq_ok_iff {options : Options} {document : Document} {text : String} :
    render options document = .ok text ↔ ∃ bounds destination layers blocks,
      document.bounds = .ok bounds ∧ document.destination = .ok destination ∧
      document.layers = .ok layers ∧
      List.Forall₂ (fun layer block => layerAlone layer = .ok block) layers blocks ∧
      text = sectionsText options document.source bounds destination ++
        String.join (blocks.map (Entry.text 1)) ++
        String.join ((SymbolSet.insertAll {} (layers.flatMap layerSymbols)).symbols.map definitionText) ++
        "END" := by
  unfold render
  simp only [map_eq_ok_iff, ofDocument_eq_ok_iff]
  constructor
  · rintro ⟨_, ⟨bounds, destination, layers, blocks, hbounds, hdestination, hlayers, hblocks, rfl⟩, rfl⟩
    refine ⟨bounds, destination, layers, blocks, hbounds, hdestination, hlayers, hblocks, ?_⟩
    simp only [Mapfile.text, sectionsText, Entry.text_append, Entry.text_flatten, text_symbolEntries,
      String.append_assoc]
  · rintro ⟨bounds, destination, layers, blocks, hbounds, hdestination, hlayers, hblocks, rfl⟩
    refine ⟨_, ⟨bounds, destination, layers, blocks, hbounds, hdestination, hlayers, hblocks, rfl⟩, ?_⟩
    simp only [Mapfile.text, sectionsText, Entry.text_append, Entry.text_flatten, text_symbolEntries,
      String.append_assoc]

/-- The text that layers become is what each of them becomes alone, in their order. -/
theorem layersEntries_text_eq (layers : List Layer) (before : SymbolSet) :
    (layersEntries layers before).map (fun written => Entry.text 1 written.1) =
      (layers.mapM fun layer => inLayer layer.name (layerText layer)).map String.join := by
  have htext (layer : Layer) : inLayer layer.name (layerText layer) =
      (inLayer layer.name (layerAlone layer)).map (Entry.text 1) := by
    rw [← inLayer_map, layerAlone, map_map_outcome]
    rfl
  simp only [htext]
  rw [layersEntries_eq_mapM, mapM_map_eq_map_mapM, map_map_outcome, map_map_outcome]
  congr 1
  funext blocks
  exact Entry.text_flatten 1 blocks

/-- A mapfile is its sections, the block of each layer, the definitions of the symbols in use and
`END`. Each block is what its layer is written as with no symbols in use before, whatever other
layers there are and wherever it stands among them. -/
theorem render_eq_parts (options : Options) :
    (∀ document text, render options document = .ok text →
      ∃ bounds destination layers blocks registered,
        document.bounds = .ok bounds ∧ document.destination = .ok destination ∧
        document.layers = .ok layers ∧
        (layersEntries layers {}).map Prod.snd = .ok registered ∧
        List.Forall₂ (fun element block =>
            ∀ index, (Layer.ofElement element index >>= layerText) = .ok block)
          (document.root.findAll "maplayer") blocks ∧
        text = sectionsText options document.source bounds destination ++ String.join blocks ++
          String.join (registered.symbols.map definitionText) ++ "END") ∧
    ∀ layers before,
      (layersEntries layers before).map (fun written => Entry.text 1 written.1) =
        (layers.mapM fun layer => inLayer layer.name (layerText layer)).map String.join := by
  refine ⟨?_, layersEntries_text_eq⟩
  intro document text h
  obtain ⟨bounds, destination, layers, blocks, hbounds, hdestination, hlayers, hblocks, rfl⟩ :=
    render_eq_ok_iff.mp h
  refine ⟨bounds, destination, layers, blocks.map (Entry.text 1), _, hbounds, hdestination, hlayers,
    ?_, ?_, rfl⟩
  · have halone : List.Forall₂ (fun layer block => inLayer layer.name (layerAlone layer) = .ok block)
        layers blocks := hblocks.imp fun _ _ hblock => inLayer_eq_ok_iff.mpr hblock
    rw [layersEntries_eq_mapM, map_map_outcome]
    exact map_eq_ok_iff.mpr ⟨blocks, mapM_eq_ok_iff.mpr halone, rfl⟩
  · rw [List.forall₂_map_right_iff]
    refine forall₂_through ?_ (Document.layersFrom_eq_ok_iff.mp hlayers) hblocks
    intro element layer block helement hblock index
    obtain ⟨written, hwritten, rfl⟩ := map_eq_ok_iff.mp hblock
    exact bind_eq_ok_iff.mpr ⟨layer, helement index, map_eq_ok_iff.mpr ⟨written, hwritten, rfl⟩⟩

/-- An element with nothing in it but a text. -/
def textElement (name text : String) : Element :=
  { name, text }

/-- A symbol element with a point symbol and the values of a class, drawn in black. -/
def symbolElement (identifier lower upper : String) : Element where
  name := "symbol"
  children :=
    [textElement "lowervalue" lower, textElement "uppervalue" upper,
      textElement "pointsymbol" identifier, textElement "pointsize" "4",
      { name := "outlinecolor", attributes := [("red", "0"), ("green", "0"), ("blue", "0")] },
      { name := "fillcolor", attributes := [("red", "0"), ("green", "0"), ("blue", "0")] }]

/-- A layer element of points with a name and a descriptor. -/
def pointLayerElement (name : String) (descriptor : Element) : Element where
  name := "maplayer"
  attributes := [("type", "vector"), ("geometry", "Point")]
  children :=
    [textElement "layername" name, textElement "datasource" (name ++ ".shp"),
      textElement "transparencyLevelInt" "255",
      { name := "destinationsrs", children := [textElement "proj4" "+proj=utm +zone=33"] }, descriptor]

/-- A project with two layers of points, drawn with different symbols. -/
def surveyDocument : Document where
  root := {
    name := "qgis"
    children :=
      [textElement "xmin" "0", textElement "ymin" "0", textElement "xmax" "1", textElement "ymax" "1",
        pointLayerElement "wells"
          { name := "singlesymbol", children := [symbolElement "hard:triangle" "" ""] },
        pointLayerElement "springs" {
          name := "graduatedsymbol"
          children :=
            [textElement "classificationattribute" "flow", symbolElement "hard:star" "0" "5",
              symbolElement "hard:triangle" "5" "9"] }] }
  source := some "survey.qgs"

/-- The survey has a mapfile. -/
theorem isOk_render_surveyDocument : (render {} surveyDocument).isOk = true := by decide

/-- The mapfile of the survey has two blocks, each of which its layer has alone. -/
theorem surveyDocument_eq_parts :
    ∃ (text : String) (bounds : Bounds) (destination : String) (blocks : List String)
      (registered : SymbolSet),
    render {} surveyDocument = .ok text ∧ blocks.length = 2 ∧
    List.Forall₂ (fun element block =>
        ∀ index, (Layer.ofElement element index >>= layerText) = .ok block)
      (surveyDocument.root.findAll "maplayer") blocks ∧
    text = sectionsText {} (some "survey.qgs") bounds destination ++ String.join blocks ++
      String.join (registered.symbols.map definitionText) ++ "END" := by
  obtain ⟨text, h⟩ := exists_eq_ok_of_isOk isOk_render_surveyDocument
  obtain ⟨bounds, destination, _, blocks, registered, _, _, _, _, hblocks, htext⟩ :=
    (render_eq_parts {}).1 surveyDocument text h
  have hlength : (surveyDocument.root.findAll "maplayer").length = 2 := by decide
  exact ⟨text, bounds, destination, blocks, registered, h,
    hblocks.length_eq.symm.trans hlength, hblocks, htext⟩

end Mapfile

end Carta
