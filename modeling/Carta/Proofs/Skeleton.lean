import Carta.Proofs.MapValues

/-!
# Values do not change the skeleton of a mapfile

No value is written with an escape. A value that is not legible, with a quote in it, say, ends its
string early, and what follows it is read as directives. When all values are legible, a mapfile is read
as its sections, layers and symbols write it, each value in its place; and when every value is one
token, only the shape of the document and of the options decides what else is read.
-/

namespace Carta.Mapfile

open Carta.Project (Bounds Document Layer)
open Carta.Text (SingleLine words)

/-- What there is to a map besides its values. -/
structure Shape where
  options : OptionsShape
  /-- The number of parameters of the destination coordinate system. -/
  parameters : Nat
  layers : List LayerShape
  deriving Repr, DecidableEq

/-- The shape of the map of a document. -/
def shapeOf (options : Options) (document : Document) : Except Error Shape := do
  let destination ← document.destination
  let layers ← document.layers
  return {
    options := optionsShape options
    parameters := (Projection.parameters destination).length
    layers := layers.map layerShape }

/-- The words that come from options and from a document. -/
def valueWords (options : Options) (document : Document) : Except Error (List Word) := do
  let bounds ← document.bounds
  let destination ← document.destination
  let layers ← document.layers
  return sectionWords options bounds destination ++ layers.flatMap layerWords

/-- Layers of the same shapes become entries that are alike. -/
theorem alike_of_layersAlone {layers others : List Layer} {blocks otherBlocks : List (List Entry)}
    (hshapes : layers.map layerShape = others.map layerShape)
    (h : List.Forall₂ (fun layer block => layerAlone layer = .ok block) layers blocks)
    (hother : List.Forall₂ (fun layer block => layerAlone layer = .ok block) others otherBlocks) :
    Alike (layers.flatMap layerWords) (others.flatMap layerWords) blocks.flatten
      otherBlocks.flatten := by
  induction h generalizing others otherBlocks with
  | nil =>
    obtain rfl := List.map_eq_nil_iff.mp hshapes.symm
    cases hother
    exact .nil
  | cons hlayer _ ih =>
    cases hother with
    | nil => cases hshapes
    | cons hotherLayer hothers =>
      obtain ⟨hshape, hshapes⟩ := List.cons.inj hshapes
      exact (alike_of_layerAlone hshape hlayer hotherLayer).append (ih hshapes hothers)

section Documents

variable {options other : Options} {document otherDocument : Document}
  {values otherValues : List Word} {mapfile otherMapfile : Mapfile}

/-- Documents of one shape become mapfiles that are alike. -/
theorem alike_of_ofDocument (hshape : shapeOf options document = shapeOf other otherDocument)
    (hvalues : valueWords options document = .ok values)
    (hotherValues : valueWords other otherDocument = .ok otherValues)
    (h : ofDocument options document = .ok mapfile)
    (hother : ofDocument other otherDocument = .ok otherMapfile) :
    Alike values otherValues mapfile.body otherMapfile.body := by
  obtain ⟨bounds, destination, layers, blocks, hbounds, hdestination, hlayers, hblocks, rfl⟩ :=
    ofDocument_eq_ok_iff.mp h
  obtain ⟨otherBounds, otherDestination, others, otherBlocks, hotherBounds, hotherDestination,
    hothers, hotherBlocks, rfl⟩ := ofDocument_eq_ok_iff.mp hother
  rw [valueWords, hbounds, hdestination, hlayers] at hvalues
  rw [valueWords, hotherBounds, hotherDestination, hothers] at hotherValues
  obtain rfl := Except.ok.inj hvalues
  obtain rfl := Except.ok.inj hotherValues
  rw [shapeOf, shapeOf, hdestination, hlayers, hotherDestination, hothers] at hshape
  obtain ⟨hoptions, hparameters, hshapes⟩ := Shape.mk.inj (Except.ok.inj hshape)
  have hsymbols (layers : List Layer) :
      layers.flatMap layerSymbols = (layers.map layerShape).flatMap (·.symbols) :=
    (List.flatMap_map layerShape LayerShape.symbols layers).symm
  rw [hsymbols layers, hshapes, ← hsymbols]
  exact ((alike_sectionEntries hoptions hparameters).append
    (alike_of_layersAlone hshapes hblocks hotherBlocks)).append_fixed (alike_symbolEntries _)

/-- A document with a mapfile has values. -/
theorem exists_valueWords (h : ofDocument options document = .ok mapfile) :
    ∃ values, valueWords options document = .ok values := by
  obtain ⟨bounds, destination, layers, -, hbounds, hdestination, hlayers, -, -⟩ :=
    ofDocument_eq_ok_iff.mp h
  rw [valueWords, hbounds, hdestination, hlayers]
  exact ⟨_, rfl⟩

/-- What stands before the map are the comments with the source. -/
theorem header_of_ofDocument (h : ofDocument options document = .ok mapfile) :
    mapfile.header = headerComments document.source := by
  obtain ⟨-, -, -, -, -, -, -, -, rfl⟩ := ofDocument_eq_ok_iff.mp h
  rfl

/-- A mapfile is read as it is meant exactly when all its values are legible. -/
theorem tokensOf_text_iff_allLegible (hsource : ∀ path ∈ document.source, SingleLine path)
    (hvalues : valueWords options document = .ok values)
    (h : ofDocument options document = .ok mapfile) :
    tokensOf mapfile.text = mapfile.slots.map Slot.token ↔ AllLegible values := by
  have halike := alike_of_ofDocument rfl hvalues hvalues h h
  have hheader : Entry.allLegible mapfile.header = true := by
    rw [header_of_ofDocument h]
    exact allLegible_headerComments _
  have hcomments : Entry.allEndComments (mapfile.header ++ mapfile.body) = true := by
    rw [Entry.allEndComments_append, header_of_ofDocument h, allEndComments_headerComments hsource,
      halike.comments]
    rfl
  rw [tokensOf_text_iff hheader hcomments]
  exact ⟨fun hlegible word hword =>
    Entry.isLegible_of_mem_valuesOfAll hlegible word (halike.subset hword), halike.legible⟩

end Documents

/-- Options and the source decide nothing but the sections and the comments before the map. -/
theorem exists_ofDocument_eq {options : Options} {document : Document} {mapfile : Mapfile}
    (h : ofDocument options document = .ok mapfile) :
    ∃ bounds destination more, ∀ other source, ofDocument other { document with source } = .ok {
      header := headerComments source
      body := sectionEntries other bounds destination ++ more } := by
  obtain ⟨bounds, destination, layers, blocks, hbounds, hdestination, hlayers, hblocks, -⟩ :=
    ofDocument_eq_ok_iff.mp h
  refine ⟨bounds, destination, blocks.flatten ++
    symbolEntries (SymbolSet.insertAll {} (layers.flatMap layerSymbols)).definitions,
    fun other source => ?_⟩
  rw [← List.append_assoc]
  exact ofDocument_eq_ok_iff.mpr
    ⟨bounds, destination, layers, blocks, hbounds, hdestination, hlayers, hblocks, rfl⟩

/-- Reading a mapfile gives the keywords and values that its sections write, each value in its place,
exactly when all values are legible: between quotes no quote and no backslash at the end, outside quotes
no quote and no number sign. The comments before the map are read as nothing as long as the path of the
source is on one line. Documents of one shape whose values are one token each have the same slots but
for the characters of their values. -/
theorem render_reads_values {options : Options} {document : Document} {text : String}
    (h : render options document = .ok text) (hsource : ∀ path ∈ document.source, SingleLine path) :
    ∃ values mapfile, valueWords options document = .ok values ∧
      ofDocument options document = .ok mapfile ∧
      Entry.slotsOfAll mapfile.header = [] ∧
      (∀ word ∈ values, ∀ token ∈ word.tokens, .value token ∈ mapfile.slots) ∧
      (tokensOf text = mapfile.slots.map Slot.token ↔ AllLegible values) ∧
      ∀ other otherDocument otherValues otherMapfile,
        shapeOf other otherDocument = shapeOf options document →
        valueWords other otherDocument = .ok otherValues →
        ofDocument other otherDocument = .ok otherMapfile →
        AllConfined values → AllConfined otherValues →
        otherMapfile.slots.map Slot.blanked = mapfile.slots.map Slot.blanked := by
  obtain ⟨mapfile, hmapfile, rfl⟩ := map_eq_ok_iff.mp h
  obtain ⟨values, hvalues⟩ := exists_valueWords hmapfile
  have hheader {options : Options} {document : Document} {mapfile : Mapfile}
      (h : ofDocument options document = .ok mapfile) : Entry.slotsOfAll mapfile.header = [] := by
    rw [header_of_ofDocument h]
    rfl
  refine ⟨values, mapfile, hvalues, hmapfile, hheader hmapfile, ?_,
    tokensOf_text_iff_allLegible hsource hvalues hmapfile, ?_⟩
  · intro word hword token htoken
    have hplace := (alike_of_ofDocument rfl hvalues hvalues hmapfile hmapfile).subset hword
    have hslot := Entry.value_mem_slotsOfAll htoken hplace
    exact List.mem_append_left _ (List.mem_append_right _ (List.mem_cons_of_mem _ hslot))
  · intro other otherDocument otherValues otherMapfile hshape hotherValues hother hconfined
      hotherConfined
    have halike := alike_of_ofDocument hshape hotherValues hvalues hother hmapfile
    rw [slots, slots, hheader hmapfile, hheader hother]
    simp [halike.skeleton hotherConfined hconfined]

/-- The values of the survey under two names of the map. -/
theorem allConfined_survey {options : Options} {values : List Word}
    (hoptions : options ∈ [{}, { mapName := "harbour # 1" }])
    (h : valueWords options surveyDocument = .ok values) :
    AllConfined values ∧ .quoted "wells" ∈ values := by
  have hall : ∀ options ∈ [({} : Options), { mapName := "harbour # 1" }],
      ((valueWords options surveyDocument).toOption.all fun values =>
        decide (AllConfined values ∧ .quoted "wells" ∈ values)) = true := by
    decide +kernel
  have hvalues := hall options hoptions
  rw [h] at hvalues
  simpa [Except.toOption] using hvalues

/-- The survey is read as it is meant, with the name of a layer in the place of a value. Under another
name of the map, with a number sign in it, it has the same slots but for the characters of values. -/
theorem render_survey_reads_values : ∃ (text : String) (mapfile other : Mapfile),
    render {} surveyDocument = .ok text ∧ tokensOf text = mapfile.slots.map Slot.token ∧
    .value (.string "wells") ∈ mapfile.slots ∧
    ofDocument { mapName := "harbour # 1" } surveyDocument = .ok other ∧
    other.slots.map Slot.blanked = mapfile.slots.map Slot.blanked := by
  obtain ⟨text, h⟩ := exists_eq_ok_of_isOk isOk_render_surveyDocument
  obtain ⟨values, mapfile, hvalues, hmapfile, -, hplaces, hreads, hothers⟩ :=
    render_reads_values h (by decide)
  obtain ⟨hconfined, hwells⟩ := allConfined_survey List.mem_cons_self hvalues
  obtain ⟨bounds, destination, more, hall⟩ := exists_ofDocument_eq hmapfile
  have hother := hall { mapName := "harbour # 1" } surveyDocument.source
  obtain ⟨otherValues, hotherValues⟩ := exists_valueWords hother
  obtain ⟨hotherConfined, -⟩ := allConfined_survey (by simp) hotherValues
  exact ⟨text, mapfile, _, h, hreads.mpr hconfined.allLegible,
    hplaces _ hwells _ List.mem_cons_self, hother,
    hothers { mapName := "harbour # 1" } surveyDocument _ _ rfl hotherValues hother hconfined
      hotherConfined⟩

/-- Each word of the image type is a slot. -/
theorem length_slots_imageType {bounds : Bounds} {destination : String} {header more : List Entry}
    (imageType : String) :
    (slots { header, body := sectionEntries { imageType } bounds destination ++ more }).length =
      (slots { header, body := sectionEntries { imageType := "" } bounds destination ++ more }).length +
        (words imageType).length := by
  have hsections (text : String) : sectionEntries { imageType := text } bounds destination =
      (mapEntries {} bounds ++ [Projection.block destination,
        .comment "Background color for the map canvas -- change as desired",
        .setting "IMAGECOLOR" "192 192 192", .setting "IMAGEQUALITY" "95"]) ++
      ([.setting "IMAGETYPE" text] ++ (legendEntries ++ webEntries {})) := by
    simp [sectionEntries, imageEntries, outputFormatEntries, mapEntries, webEntries, serverEntries]
  have htype (text : String) :
      (Entry.slotsOfAll [.setting "IMAGETYPE" text]).length = 1 + (words text).length := by
    have hkeyword : (words "IMAGETYPE").length = 1 := rfl
    simp [Entry.slotsOfAll, Entry.setting, Entry.slots, directiveSlots, Word.tokens, hkeyword]
  have hempty : words "" = [] := rfl
  rw [hsections, hsections]
  simp only [slots, Entry.slotsOfAll_append, List.length_append, List.length_cons, htype, hempty,
    List.length_nil]
  omega

/-- A source with a line of one more word puts a token before the map. -/
theorem tokensOf_text_of_source {options : Options} {document : Document} {mapfile : Mapfile}
    {path : String} (hpath : SingleLine path) (hsource : document.source = some (path ++ "\nEND"))
    (h : ofDocument options document = .ok mapfile) :
    ∃ tokens, tokensOf mapfile.text = .word "END" :: tokens := by
  have hline : '\n' ∉ (" Map file created from QGIS project file " ++ path).toList :=
    Text.singleLine_append.mpr ⟨Text.singleLine_ofList rfl, hpath⟩
  have hcomment := Reads.comment hline
  have hend : Reads .between "END\n".toList [.word "END"] .between := rfl
  obtain ⟨more, hmore⟩ : ∃ more, mapfile.text.toList =
      ('#' :: (" Map file created from QGIS project file " ++ path).toList ++ ['\n']) ++
        "END\n".toList ++ more := by
    rw [text, header_of_ofDocument h, hsource]
    refine ⟨(Entry.textOfLines ["# Edit this file to customize for your map interface", "MAP"] ++
      Entry.text 1 mapfile.body ++ "END").toList, ?_⟩
    simp [headerComments, Entry.text, Entry.linesOfAll, Entry.lines, Entry.textOfLines,
      Entry.indented]
  obtain ⟨tokens, last, hrest⟩ := Reads.total .between more
  refine ⟨tokens ++ last.finish, ?_⟩
  rw [Reads.tokensOf_eq (hmore ▸ (hcomment.append hend).append hrest)]
  rfl

/-- A document has a mapfile that is not read as it is meant. -/
def Misread (options : Options) (document : Document) : Prop :=
  ∃ text mapfile, render options document = .ok text ∧ ofDocument options document = .ok mapfile ∧
    tokensOf text ≠ mapfile.slots.map Slot.token

/-- A mapfile with a value that is not legible is not read as it is meant. -/
theorem misread_of_value {options : Options} {document : Document} {mapfile : Mapfile}
    {values : List Word} {word : Word} (hsource : ∀ path ∈ document.source, SingleLine path)
    (hvalues : valueWords options document = .ok values) (hmem : word ∈ values)
    (hword : word.isLegible = false) (h : ofDocument options document = .ok mapfile) :
    Misread options document := by
  refine ⟨mapfile.text, mapfile, map_eq_ok_iff.mpr ⟨mapfile, h, rfl⟩, h, fun hread => ?_⟩
  rw [(tokensOf_text_iff_allLegible hsource hvalues h).mp hread word hmem] at hword
  cases hword

/-- A mapfile whose source has a line of one more word is not read as it is meant. -/
theorem misread_of_source {options : Options} {document : Document} {mapfile : Mapfile}
    {path : String} (hpath : SingleLine path) (hsource : document.source = some (path ++ "\nEND"))
    (h : ofDocument options document = .ok mapfile) : Misread options document := by
  refine ⟨mapfile.text, mapfile, map_eq_ok_iff.mpr ⟨mapfile, h, rfl⟩, h, fun hread => ?_⟩
  obtain ⟨tokens, htokens⟩ := tokensOf_text_of_source hpath hsource h
  rw [htokens, slots, header_of_ofDocument h] at hread
  exact absurd (Token.word.inj (List.cons.inj hread).1) (by decide)

/-- The name of a map and its image type are values. -/
theorem mem_valueWords {options : Options} {document : Document} {values : List Word}
    (h : valueWords options document = .ok values) :
    .quoted options.mapName ∈ values ∧ .bare options.imageType ∈ values := by
  obtain ⟨bounds, -, h⟩ := bind_eq_ok_iff.mp h
  obtain ⟨destination, -, h⟩ := bind_eq_ok_iff.mp h
  obtain ⟨layers, -, h⟩ := bind_eq_ok_iff.mp h
  obtain rfl := Except.ok.inj h
  simp [sectionWords, mapWords]

/-- Whether there is a mapfile of the survey depends neither on the options nor on the source. -/
theorem exists_ofDocument_survey : ∃ bounds destination more, ∀ options source,
    ofDocument options { surveyDocument with source } = .ok {
      header := headerComments source
      body := sectionEntries options bounds destination ++ more } := by
  obtain ⟨text, h⟩ := exists_eq_ok_of_isOk isOk_render_surveyDocument
  obtain ⟨mapfile, hmapfile, -⟩ := map_eq_ok_iff.mp h
  exact exists_ofDocument_eq hmapfile

/-- A quote in the name of a map ends it and begins another directive, a backslash at its end takes the
quote after it into the name, a number sign in the image type hides the rest of it, and a line feed in
the source ends its comment. An image type of no word or of two is read as it is meant, but has one
value less or one more than others. -/
theorem values_misread :
    Misread { mapName := "harbour' STATUS 'OFF" } surveyDocument ∧
      Misread { mapName := "harbour\\" } surveyDocument ∧
      Misread { imageType := "png#8" } surveyDocument ∧
      Misread {} { surveyDocument with source := some "survey.qgs\nEND" } ∧
      ∃ mapfile, ofDocument {} surveyDocument = .ok mapfile ∧
        ∀ imageType ∈ ["", "png 8"], ∃ other,
          shapeOf { imageType } surveyDocument = shapeOf {} surveyDocument ∧
          ofDocument { imageType } surveyDocument = .ok other ∧
          other.slots.map Slot.blanked ≠ mapfile.slots.map Slot.blanked := by
  obtain ⟨bounds, destination, more, hmapfile⟩ := exists_ofDocument_survey
  have hvalue {options : Options} {word : Word} (hword : word.isLegible = false)
      (hmem : ∀ {values}, valueWords options surveyDocument = .ok values → word ∈ values) :
      Misread options surveyDocument := by
    obtain ⟨values, hvalues⟩ := exists_valueWords (hmapfile options surveyDocument.source)
    exact misread_of_value (by decide) hvalues (hmem hvalues) hword
      (hmapfile options surveyDocument.source)
  refine ⟨hvalue rfl fun h => (mem_valueWords h).1, hvalue rfl fun h => (mem_valueWords h).1,
    hvalue rfl fun h => (mem_valueWords h).2, ?_, _, hmapfile {} surveyDocument.source, ?_⟩
  · have hpath : SingleLine "survey.qgs" := by decide
    exact misread_of_source hpath rfl (hmapfile {} _)
  · intro imageType hmem
    refine ⟨_, rfl, hmapfile { imageType } surveyDocument.source, fun heq => ?_⟩
    have hcount : (words imageType).length ≠ (words "png").length := by
      simp only [List.mem_cons, List.not_mem_nil, or_false] at hmem
      rcases hmem with rfl | rfl <;> decide +kernel
    have hlength := congrArg List.length heq
    rw [List.length_map, List.length_map, length_slots_imageType imageType] at hlength
    exact hcount (Nat.add_left_cancel (hlength.trans (length_slots_imageType "png")))

end Carta.Mapfile
