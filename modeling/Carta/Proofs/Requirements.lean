import Carta.Proofs.LayerErrors
import Carta.Proofs.LayerNeeds
import Carta.Proofs.Lines

/-!
# When a project has a mapfile

A project has a mapfile exactly when its bounds and its destination are there, every layer element
can be read and every layer has what its writer needs. Otherwise the error is that of the first of
these that fails, in this order. All layers are read before the first one is written, so a layer that
cannot be read is reported before an earlier one that cannot be written.
-/

namespace Carta

open Carta.Project (Document Layer)
open Carta.Xml (Element)

namespace Xml.Element

/-- Whether the first descendant with a name is there and has more than blanks in it. -/
def HasContent (element : Element) (name : String) : Prop :=
  ∃ found, element.find? name = some found ∧ ∃ c ∈ found.text.toList, Text.isBlank c = false

/-- An element has content when more than blanks are in its text. -/
theorem content?_eq_some_iff {element : Element} {text : String} :
    element.content? = some text ↔
      text = Text.trim element.text ∧ ∃ c ∈ element.text.toList, Text.isBlank c = false := by
  have hempty : (Text.trim element.text).isEmpty = true ↔
      ∀ c ∈ element.text.toList, Text.isBlank c = true := by
    rw [String.isEmpty_iff, Text.trim_eq_empty_iff]
  have hmore : (∃ c ∈ element.text.toList, Text.isBlank c = false) ↔
      ¬(Text.trim element.text).isEmpty = true := by
    rw [hempty]
    simp
  rw [hmore, content?]
  split
  next h => simp [h]
  next h => simp [h, eq_comm]

/-- A descendant has content when more than blanks are in it. -/
theorem isSome_findContent?_iff {element : Element} {name : String} :
    (element.findContent? name).isSome = true ↔ element.HasContent name := by
  rw [Option.isSome_iff_exists, HasContent]
  simp only [findContent?, Option.bind_eq_some_iff, content?_eq_some_iff]
  constructor
  · rintro ⟨-, found, hfound, -, hmore⟩
    exact ⟨found, hfound, hmore⟩
  · rintro ⟨found, hfound, hmore⟩
    exact ⟨_, found, hfound, rfl, hmore⟩

end Xml.Element

namespace Project.Document

/-- The elements that the bounds of a map are read of, in order. -/
def boundNames : List String :=
  ["xmin", "ymin", "xmax", "ymax"]

/-- Whether the destination of a map is there. -/
def HasDestination (document : Document) : Prop :=
  ∃ system, document.root.find? "destinationsrs" = some system ∧ system.HasContent "proj4"

/-- The bounds of a map are needed in their order. -/
theorem bounds_needs (document : Document) : Needs document.bounds
    (boundNames.map fun name => (name, (document.root.findContent? name).isSome)) :=
  (Needs.ofRequire "xmin" _).andThen fun _ => (Needs.ofRequire "ymin" _).andThen fun _ =>
    (Needs.ofRequire "xmax" _).andThen fun _ => (Needs.ofRequire "ymax" _).thenOk _

/-- The bounds are there when their elements have content. -/
theorem exists_bounds_eq_ok_iff {document : Document} :
    (∃ bounds, document.bounds = .ok bounds) ↔ ∀ name ∈ boundNames, document.root.HasContent name := by
  rw [document.bounds_needs.exists_eq_ok_iff, List.forall_mem_map]
  simp only [Element.isSome_findContent?_iff]

/-- The bounds fail by the first element that has no content. -/
theorem bounds_eq_error_iff {document : Document} {e : Error} :
    document.bounds = .error e ↔ ∃ before name after, boundNames = before ++ name :: after ∧
      (∀ earlier ∈ before, document.root.HasContent earlier) ∧ ¬document.root.HasContent name ∧
      e = .missingField name none := by
  simp only [document.bounds_needs.eq_error_iff, firstLacking?_map_eq_some_iff,
    ← Element.isSome_findContent?_iff, Bool.not_eq_true]
  constructor
  · rintro ⟨name, ⟨before, after, hsplit, hbefore, hname⟩, rfl⟩
    exact ⟨before, name, after, hsplit, hbefore, hname, rfl⟩
  · rintro ⟨before, name, after, hsplit, hbefore, hname, rfl⟩
    exact ⟨name, ⟨before, after, hsplit, hbefore, hname⟩, rfl⟩

/-- The destination is there when its element has content. -/
theorem isSome_destination_iff {document : Document} :
    ((document.root.find? "destinationsrs").bind (·.findContent? "proj4")).isSome = true ↔
      document.HasDestination := by
  rw [HasDestination]
  cases document.root.find? "destinationsrs" with
  | none => simp
  | some system => simpa using Element.isSome_findContent?_iff

/-- The destination can be read when the document has one. -/
theorem exists_destination_eq_ok_iff {document : Document} :
    (∃ destination, document.destination = .ok destination) ↔ document.HasDestination := by
  rw [← isSome_destination_iff, Option.isSome_iff_exists]
  simp only [destination, require_eq_ok_iff]

/-- The destination cannot be read when the document has none, which is told as the missing
field. -/
theorem destination_eq_error_iff {document : Document} {e : Error} :
    document.destination = .error e ↔
      ¬document.HasDestination ∧ e = .missingField "destinationsrs/proj4" none := by
  rw [← isSome_destination_iff, destination, require_eq_error_iff, Option.not_isSome_iff_eq_none]
  rfl

end Project.Document

namespace Mapfile

/-- What a project needs for a mapfile, with the layers that are read of it. -/
structure Requirements (document : Document) (layers : List Layer) : Prop where
  bounds : ∀ name ∈ Document.boundNames, document.root.HasContent name
  destination : document.HasDestination
  read : Document.ReadAs (document.root.findAll "maplayer") layers
  complete : ∀ layer ∈ layers, layer.Complete

/-- Why a project has no mapfile: the first of its requirements that is not met. -/
inductive FailsWith (document : Document) : Error → Prop
  | bound {before : List String} {name : String} {after : List String}
      (hsplit : Document.boundNames = before ++ name :: after)
      (hbefore : ∀ earlier ∈ before, document.root.HasContent earlier)
      (hlacking : ¬document.root.HasContent name) : FailsWith document (.missingField name none)
  | destination (hbounds : ∀ name ∈ Document.boundNames, document.root.HasContent name)
      (hlacking : ¬document.HasDestination) :
      FailsWith document (.missingField "destinationsrs/proj4" none)
  | reading {e : Error} {before : List Element} {element : Element} {after : List Element}
      (hbounds : ∀ name ∈ Document.boundNames, document.root.HasContent name)
      (hdestination : document.HasDestination)
      (hsplit : document.root.findAll "maplayer" = before ++ element :: after)
      (hbefore : ∃ layers, Document.ReadAs before layers)
      (hfails : Layer.ofElement element before.length = .error e) : FailsWith document e
  | writing {before : List Layer} {layer : Layer} {after : List Layer} {field : String}
      (hbounds : ∀ name ∈ Document.boundNames, document.root.HasContent name)
      (hdestination : document.HasDestination)
      (hlayers : Document.ReadAs (document.root.findAll "maplayer") (before ++ layer :: after))
      (hbefore : ∀ earlier ∈ before, earlier.Complete)
      (hlacking : firstLacking? layer.needs = some field) :
      FailsWith document (.missingField field (some layer.name))

/-- Layers cannot be written by the first one that is not complete. -/
theorem layersEntries_eq_error_iff {layers : List Layer} {e : Error} :
    layersEntries layers {} = .error e ↔ ∃ before layer after field,
      layers = before ++ layer :: after ∧ (∀ earlier ∈ before, earlier.Complete) ∧
      firstLacking? layer.needs = some field ∧ e = .missingField field (some layer.name) := by
  rw [layersEntries_eq_mapM, map_eq_error_iff, mapM_eq_error_iff]
  simp only [inLayer_eq_ok_iff, exists_layerAlone_eq_ok_iff, inLayer_eq_error_iff,
    (layerAlone_needs _).eq_error_iff]
  constructor
  · rintro ⟨before, layer, after, rfl, hbefore, _, ⟨field, hfield, rfl⟩, rfl⟩
    exact ⟨before, layer, after, field, rfl, hbefore, hfield, rfl⟩
  · rintro ⟨before, layer, after, field, rfl, hbefore, hfield, rfl⟩
    exact ⟨before, layer, after, rfl, hbefore, _, ⟨field, hfield, rfl⟩, rfl⟩

/-- Making a mapfile fails where the first of its steps does. -/
theorem render_eq_error_iff {options : Options} {document : Document} {e : Error} :
    render options document = .error e ↔ document.bounds = .error e ∨
      (∃ bounds, document.bounds = .ok bounds) ∧ (document.destination = .error e ∨
        (∃ destination, document.destination = .ok destination) ∧ (document.layers = .error e ∨
          ∃ layers, document.layers = .ok layers ∧ layersEntries layers {} = .error e)) := by
  rw [render, map_eq_error_iff, ofDocument]
  refine bind_eq_error_iff_of fun bounds => bind_eq_error_iff_of fun destination => ?_
  rw [bind_eq_error_iff]
  refine or_congr_right (exists_congr fun layers => and_congr_right fun _ => ?_)
  cases layersEntries layers {} <;> simp [bind, Except.bind, pure, Except.pure]

/-- A project has a mapfile when its requirements are met. -/
theorem exists_render_eq_ok_iff {options : Options} {document : Document} :
    (∃ text, render options document = .ok text) ↔ ∃ layers, Requirements document layers := by
  simp only [render_eq_ok_iff]
  constructor
  · rintro ⟨_, bounds, destination, layers, blocks, hbounds, hdestination, hlayers, hblocks, _⟩
    refine ⟨layers, ?_, ?_, Document.layersFrom_eq_ok_iff.mp hlayers, ?_⟩
    · exact Document.exists_bounds_eq_ok_iff.mp ⟨bounds, hbounds⟩
    · exact Document.exists_destination_eq_ok_iff.mp ⟨destination, hdestination⟩
    · intro layer hlayer
      have hwritten := exists_mapM_eq_ok_iff.mp ⟨blocks, mapM_eq_ok_iff.mpr hblocks⟩ layer hlayer
      exact exists_layerAlone_eq_ok_iff.mp hwritten
  · rintro ⟨layers, hrequired⟩
    obtain ⟨bounds, hbounds⟩ := Document.exists_bounds_eq_ok_iff.mpr hrequired.bounds
    obtain ⟨destination, hdestination⟩ :=
      Document.exists_destination_eq_ok_iff.mpr hrequired.destination
    have hlayers : document.layers = .ok layers := Document.layersFrom_eq_ok_iff.mpr hrequired.read
    obtain ⟨blocks, hblocks⟩ := exists_mapM_eq_ok_iff.mpr fun layer hlayer =>
      exists_layerAlone_eq_ok_iff.mpr (hrequired.complete layer hlayer)
    exact ⟨_, bounds, destination, layers, blocks, hbounds, hdestination, hlayers,
      mapM_eq_ok_iff.mp hblocks, rfl⟩

/-- A project has no mapfile by the first of its requirements that is not met. -/
theorem render_eq_error_iff_failsWith {options : Options} {document : Document} {e : Error} :
    render options document = .error e ↔ FailsWith document e := by
  have hreading : document.layers = .error e ↔ _ := Document.layersFrom_eq_error_iff
  rw [render_eq_error_iff, Document.exists_bounds_eq_ok_iff, Document.exists_destination_eq_ok_iff,
    Document.bounds_eq_error_iff, Document.destination_eq_error_iff, hreading]
  simp only [layersEntries_eq_error_iff, Nat.zero_add]
  constructor
  · rintro (⟨before, name, after, hsplit, hbefore, hlacking, rfl⟩ | ⟨hbounds, h⟩)
    · exact .bound hsplit hbefore hlacking
    rcases h with ⟨hlacking, rfl⟩ | ⟨hdestination, h⟩
    · exact .destination hbounds hlacking
    rcases h with ⟨before, element, after, hsplit, hbefore, hfails⟩ | ⟨layers, hlayers, h⟩
    · exact .reading hbounds hdestination hsplit hbefore hfails
    · obtain ⟨before, layer, after, field, rfl, hbefore, hlacking, rfl⟩ := h
      exact .writing hbounds hdestination (Document.layersFrom_eq_ok_iff.mp hlayers) hbefore hlacking
  · intro h
    cases h with
    | bound hsplit hbefore hlacking =>
      exact Or.inl ⟨_, _, _, hsplit, hbefore, hlacking, rfl⟩
    | destination hbounds hlacking => exact Or.inr ⟨hbounds, Or.inl ⟨hlacking, rfl⟩⟩
    | reading hbounds hdestination hsplit hbefore hfails =>
      exact Or.inr ⟨hbounds, Or.inr ⟨hdestination, Or.inl ⟨_, _, _, hsplit, hbefore, hfails⟩⟩⟩
    | writing hbounds hdestination hlayers hbefore hlacking =>
      exact Or.inr ⟨hbounds, Or.inr ⟨hdestination, Or.inr
        ⟨_, Document.layersFrom_eq_ok_iff.mpr hlayers, _, _, _, _, rfl, hbefore, hlacking, rfl⟩⟩⟩

/-- A project has a mapfile exactly when its requirements are met; otherwise the error is that of the
first one that is not, and an error of a layer names the layer it is found in. -/
theorem render_requirements (options : Options) (document : Document) :
    ((∃ text, render options document = .ok text) ↔ ∃ layers, Requirements document layers) ∧
    (∀ e, render options document = .error e ↔ FailsWith document e) ∧
    ∀ element index e, Layer.ofElement element index = .error e →
      e.Placed (some ((element.findContent? "layername").getD ("#" ++ toString (index + 1)))) :=
  ⟨exists_render_eq_ok_iff, fun _ => render_eq_error_iff_failsWith,
    fun _ _ _ => Layer.placed_of_ofElement⟩

/-- The survey meets its requirements. An element without a name that is the fifth of its project
is called by that number. -/
theorem surveyDocument_requirements :
    (∃ layers, Requirements surveyDocument layers) ∧
      Layer.ofElement (textElement "maplayer" "") 4 =
        .error (.missingField "layername" (some "#5")) ∧
      (Error.missingField "layername" (some "#5")).Placed (some "#5") := by
  obtain ⟨text, h⟩ := exists_eq_ok_of_isOk isOk_render_surveyDocument
  have hnameless : Layer.ofElement (textElement "maplayer" "") 4 =
      .error (.missingField "layername" (some "#5")) := by decide
  obtain ⟨hrequired, _, hplaced⟩ := render_requirements {} surveyDocument
  exact ⟨hrequired.mp ⟨text, h⟩, hnameless, hplaced _ 4 _ hnameless⟩

end Mapfile

end Carta
