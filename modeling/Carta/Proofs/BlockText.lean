import Carta.Proofs.SoundWriters
import Carta.Proofs.SymbolSection

/-!
# A mapfile is a nested block text

Whoever reads a mapfile line by line, knowing nothing but the keywords of blocks and `END`, finds one
block `MAP` around everything but the comments before it, and all lines indented by the blocks around
them. The blocks in it are the sections of the map, the layers in document order and the symbols in
use. This holds whatever the project and the options are, as long as no value that is written
contains a line feed.
-/

namespace Carta.Mapfile

open Carta.Project (Document Layer)
open Carta.Text (SingleLine linesOf trim)
open Carta.Xml (Element)

/-- A text that is one block `MAP` after some comments, as it is read line by line. -/
structure BlockText (lines : List String) : Prop where
  /-- No more blocks are closed than were opened, and the map is closed by the last line only. -/
  balanced : ∀ before after, before ++ after = lines →
    0 ≤ depthChange before ∧ ("MAP" ∈ before → (depthChange before = 0 ↔ after = []))
  indented : ∀ read ∈ readLines 0 lines, trim read.2 ≠ "" → indentation read.2 = 2 * read.1
  first : lines.find? (fun line => line.toList.head? ≠ some '#') = some "MAP"
  last : lines.getLast? = some "END"

/-- A block around nested lines is closed by its last line only. -/
theorem depthChange_eq_neg_one_iff {depth : Nat} {inner inside after : List String}
    (hinner : Nested depth inner) (hsplit : inside ++ after = inner ++ ["END"]) :
    depthChange inside = -1 ↔ after = [] := by
  rcases List.eq_nil_or_concat' after with rfl | ⟨front, last, rfl⟩
  · have hclosing : depthChange ["END"] = -1 := by decide
    rw [List.append_nil] at hsplit
    rw [hsplit, depthChange_append, hinner.settled, hclosing]
    simp
  · rw [← List.append_assoc] at hsplit
    obtain ⟨rfl, _⟩ := List.append_inj' hsplit rfl
    have hinside := hinner.depthChange_nonneg
    simp only [List.append_eq_nil_iff, List.cons_ne_nil, and_false, iff_false]
    omega

/-- Nested lines between `MAP` and `END` are a text of one block. -/
theorem blockText_of_nested {comments inner : List String}
    (hstart : ∀ line ∈ comments, line.toList.head? = some '#') (hcomments : Nested 0 comments)
    (hinner : Nested 1 inner) : BlockText (comments ++ "MAP" :: (inner ++ ["END"])) := by
  have hmap : Nested 0 ("MAP" :: (inner ++ ["END"])) :=
    Nested.block (by decide) (by decide) (by decide) (by decide) hinner
  have hlines := hcomments.append hmap
  have hnotComment : "MAP" ∉ comments := fun hmem => absurd (hstart _ hmem) (by decide)
  constructor
  · intro before after hsplit
    rw [← hsplit] at hlines
    refine ⟨hlines.depthChange_nonneg, ?_⟩
    intro hmem
    rcases List.append_eq_append_iff.mp hsplit with ⟨more, rfl, _⟩ | ⟨_ | ⟨line, inside⟩, rfl, hrest⟩
    · exact absurd (List.mem_append_left more hmem) hnotComment
    · exact absurd (List.append_nil comments ▸ hmem) hnotComment
    · obtain ⟨rfl, hinside⟩ := List.cons.inj hrest
      have hdepth : depthChange (comments ++ "MAP" :: inside) = 1 + depthChange inside := by
        have hopening : depthChange ["MAP"] = 1 := by decide
        rw [← List.singleton_append, depthChange_append, depthChange_append, hcomments.settled,
          hopening, Int.zero_add]
      rw [← depthChange_eq_neg_one_iff hinner hinside.symm, hdepth]
      omega
  · exact hlines.indented
  · rw [List.find?_append, List.find?_eq_none.mpr, Option.none_or]
    · rfl
    · simpa using hstart
  · rw [List.getLast?_append, ← List.cons_append, List.getLast?_concat, Option.some_or]

/-- The lines of a mapfile. -/
theorem linesOf_text {mapfile : Mapfile} (hheader : AllSound mapfile.header)
    (hbody : AllSound mapfile.body) :
    linesOf mapfile.text = Entry.linesOfAll 0 mapfile.header ++
      "MAP" :: (Entry.linesOfAll 1 mapfile.body ++ ["END"]) := by
  have htext : mapfile.text = Entry.textOfLines (Entry.linesOfAll 0 mapfile.header ++
      "MAP" :: Entry.linesOfAll 1 mapfile.body) ++ "END" := by
    rw [← List.singleton_append, Entry.textOfLines_append, Entry.textOfLines_append,
      ← String.append_assoc]
    rfl
  have hsingle {depth : Nat} {entries : List Entry} (h : AllSound entries) :
      ∀ line ∈ Entry.linesOfAll depth entries, SingleLine line := by
    intro line hline
    obtain ⟨entry, hentry, hline⟩ := mem_linesOfAll.mp hline
    exact (h entry hentry).singleLine depth line hline
  rw [htext, Text.linesOf_textOfLines_append _ (by decide), List.append_assoc, List.cons_append]
  rw [List.forall_mem_append, List.forall_mem_cons]
  exact ⟨hsingle hheader, by decide, hsingle hbody⟩

/-- The blocks in the map are those entries of its body that are blocks. -/
theorem blocksAt_map {comments : List String} {body : List Entry}
    (hcomments : ∀ line ∈ comments, opens line = false ∧ closes line = false) (hbody : AllSound body) :
    blocksAt 1 0 (comments ++ "MAP" :: (Entry.linesOfAll 1 body ++ ["END"])) =
      body.filterMap (Entry.block? 1) := by
  have hopening : opens "MAP" = true ∧ lineChange "MAP" = 1 := by decide
  have hlast : blocksAt (1 : Nat) (1 : Nat) ["END"] = [] := by decide
  have hinner : blocksAt (1 : Nat) (1 : Nat) (Entry.linesOfAll 1 body ++ ["END"]) =
      body.filterMap (Entry.block? 1) := by
    rw [blocksAt_linesOfAll hbody, hlast, List.append_nil]
  rw [blocksAt_append_of_plain hcomments, blocksAt, if_neg (by decide), List.nil_append, hopening.2]
  exact hinner

/-- The sections that are blocks, in their order. -/
theorem block?_sectionEntries (options : Options) (bounds : Project.Bounds) (destination : String) :
    ((sectionEntries options bounds destination).filterMap (Entry.block? 1)).map Prod.fst =
      ["PROJECTION"] ++ (if options.outputFormatBlock then ["OUTPUTFORMAT"] else []) ++
        ["LEGEND", "WEB"] := by
  have hformat : ((outputFormatEntries options).filterMap (Entry.block? 1)).map Prod.fst =
      if options.outputFormatBlock then ["OUTPUTFORMAT"] else [] := by
    unfold outputFormatEntries
    split <;> rfl
  have hmap : (mapEntries options bounds).filterMap (Entry.block? 1) = [] := rfl
  have hlegend : (legendEntries.filterMap (Entry.block? 1)).map Prod.fst = ["LEGEND"] := rfl
  have hweb : ((webEntries options).filterMap (Entry.block? 1)).map Prod.fst = ["WEB"] := rfl
  simp only [sectionEntries, imageEntries, List.filterMap_append, List.map_append, hmap, hformat,
    hlegend, hweb]
  simp [Projection.block, Entry.block?, Entry.setting]

/-- A block that begins with a name shows it in its first line. -/
theorem block?_named (keyword name : String) (rest : List Entry) :
    Entry.block? 1 (.block keyword (.quotedSetting "NAME" name :: rest)) =
      some (keyword, some (nameLine name)) := by
  have hline : Entry.indented 2 (directiveText [.bare "NAME", .quoted name]) = nameLine name := by
    apply String.toList_inj.mp
    simp [Entry.indented, directiveText, Word.written, nameLine]
  rw [Entry.block?, Entry.linesOfAll, Entry.quotedSetting, Entry.lines, ← hline]
  rfl

/-- The blocks of layers are blocks with the names of the layers. -/
theorem block?_layers {layers : List Layer} {blocks : List (List Entry)}
    (h : List.Forall₂ (fun layer block => layerAlone layer = .ok block) layers blocks) :
    blocks.flatten.filterMap (Entry.block? 1) =
      layers.map fun layer => ("LAYER", some (nameLine layer.name)) := by
  induction h with
  | nil => rfl
  | @cons layer block layers blocks hblock _ ih =>
    obtain ⟨written, hwritten, rfl⟩ := map_eq_ok_iff.mp hblock
    obtain ⟨⟨entries, after⟩, _, hwritten⟩ := bind_eq_ok_iff.mp hwritten
    obtain rfl := Except.ok.inj hwritten
    rw [List.flatten_cons, List.filterMap_append, ih, List.map_cons]
    exact congrArg (· :: _) (Option.some.inj (block?_named "LAYER" layer.name _))

/-- The definitions of symbols are blocks with the names of the symbols. -/
theorem block?_symbolEntries (set : SymbolSet) :
    (symbolEntries set.definitions).filterMap (Entry.block? 1) =
      set.symbols.map fun symbol => ("SYMBOL", some (nameLine symbol.name)) := by
  unfold symbolEntries SymbolSet.definitions
  induction set.symbols with
  | nil => rfl
  | cons symbol rest ih =>
    rw [List.map_cons, List.flatMap_cons, List.filterMap_append, ih, List.map_cons]
    cases symbol with
    | circle => exact congrArg (· :: _) (Option.some.inj (block?_named "SYMBOL" _ _))
    | triangle => exact congrArg (· :: _) (Option.some.inj (block?_named "SYMBOL" _ _))

/-- The lines before the map are comments. -/
theorem header_lines {source : Option String} (h : AllSound (headerComments source)) :
    ∀ line ∈ Entry.linesOfAll 0 (headerComments source),
      line.toList.head? = some '#' ∧ opens line = false ∧ closes line = false := by
  have hcomment {text : String} (htext : (Entry.comment text).Sound) :
      ∀ line ∈ Entry.lines 0 (.comment text),
        line.toList.head? = some '#' ∧ opens line = false ∧ closes line = false := by
    cases htext with
    | comment htext =>
      rw [Entry.lines, List.forall_mem_singleton]
      exact ⟨by simp [Entry.indented], (plain_comment htext).opens_closes 0⟩
  intro line hline
  obtain ⟨entry, hentry, hline⟩ := mem_linesOfAll.mp hline
  have hsound := h entry hentry
  simp only [headerComments, List.mem_cons, List.not_mem_nil, or_false] at hentry
  rcases hentry with rfl | rfl
  · exact hcomment hsound line hline
  · exact hcomment hsound line hline

/-- The blocks of layers are sound when the texts of the layers are on one line each. -/
theorem allSound_flatten {layers : List Layer} {blocks : List (List Entry)}
    (h : List.Forall₂ (fun layer block => layerAlone layer = .ok block) layers blocks)
    (hvalues : ∀ value ∈ layers.flatMap Layer.values, SingleLine value)
    (hpostgis : ∀ layer ∈ layers, ∀ postgis, layer.connection = .postgis postgis → postgis.Confined) :
    AllSound blocks.flatten := by
  induction h with
  | nil => exact allSound_nil
  | cons hblock _ ih =>
    rw [List.flatMap_cons, List.forall_mem_append] at hvalues
    rw [List.forall_mem_cons] at hpostgis
    rw [List.flatten_cons, allSound_append]
    exact ⟨allSound_of_layerAlone hvalues.1 hpostgis.1 hblock, ih hvalues.2 hpostgis.2⟩

/-- The mapfile of a project is read as a nested text of one block. In it are the sections, one block
for each layer with its name, and one for each symbol that some point layer is drawn with. -/
theorem render_blockText {options : Options} {document : Document} {text : String}
    {bounds : Project.Bounds} {layers : List Layer} (h : render options document = .ok text)
    (hbounds : document.bounds = .ok bounds) (hlayers : document.layers = .ok layers)
    (hvalues : ∀ value ∈ options.values ++ document.source.toList ++ bounds.values ++
      layers.flatMap Layer.values, SingleLine value) :
    BlockText (linesOf text) ∧
      ∃ (sections : List (String × Option String)) (symbols : List PointSymbol),
      blocksAt 1 0 (linesOf text) = sections ++
        (document.root.findAll "maplayer").map (fun element =>
          ("LAYER", (element.findContent? "layername").map nameLine)) ++
        symbols.map (fun symbol => ("SYMBOL", some (nameLine symbol.name))) ∧
      sections.map Prod.fst = ["PROJECTION"] ++
        (if options.outputFormatBlock then ["OUTPUTFORMAT"] else []) ++ ["LEGEND", "WEB"] ∧
      symbols.Pairwise (fun first second => first.name < second.name) ∧
      ∀ symbol, symbol ∈ symbols ↔ ∃ layer ∈ layers, layer.kind = .vector .point ∧
        ∃ style ∈ layer.renderer.styles, PointSymbol.ofStyle style = symbol := by
  obtain ⟨mapfile, hmapfile, rfl⟩ := map_eq_ok_iff.mp h
  obtain ⟨bounds', destination, layers', blocks, hbounds', _, hlayers', hblocks, rfl⟩ :=
    ofDocument_eq_ok_iff.mp hmapfile
  obtain rfl := Except.ok.inj (hbounds.symm.trans hbounds')
  obtain rfl := Except.ok.inj (hlayers.symm.trans hlayers')
  rw [List.forall_mem_append, List.forall_mem_append, List.forall_mem_append] at hvalues
  obtain ⟨⟨⟨hoptions, hsource⟩, hboundsLine⟩, hlayersLine⟩ := hvalues
  have helements := Document.layersFrom_eq_ok_iff.mp hlayers
  have hpostgis := Document.confined_of_readAs helements
  have hheader : AllSound (headerComments document.source) :=
    allSound_headerComments fun name hname => hsource name (Option.mem_toList.mpr hname)
  have hbody : AllSound (sectionEntries options bounds destination ++ blocks.flatten ++
      symbolEntries (SymbolSet.insertAll {} (layers.flatMap layerSymbols)).definitions) := by
    rw [allSound_append, allSound_append]
    exact ⟨⟨allSound_sectionEntries hoptions hboundsLine destination,
      allSound_flatten hblocks hlayersLine hpostgis⟩, allSound_symbolEntries _⟩
  have hlines := header_lines hheader
  rw [linesOf_text hheader hbody]
  constructor
  · exact blockText_of_nested (fun line hline => (hlines line hline).1)
      (nested_linesOfAll fun entry hentry => (hheader entry hentry).nested 0)
      (nested_linesOfAll fun entry hentry => (hbody entry hentry).nested 1)
  · refine ⟨_, usedSymbols layers, ?_, block?_sectionEntries options bounds destination,
      usedSymbols_pairwise layers, ?_⟩
    · rw [blocksAt_map (fun line hline => (hlines line hline).2) hbody, List.filterMap_append,
        List.filterMap_append, block?_layers hblocks, block?_symbolEntries,
        SymbolSet.symbols_insertAll_empty,
        Document.map_layername helements fun name => ("LAYER", name.map nameLine)]
      rfl
    · intro symbol
      simp only [mem_usedSymbols, mem_layerSymbols]

/-- The mapfile of the survey is read as a block text with two layers. -/
theorem surveyDocument_blockText :
    ∃ (text : String) (symbols : List PointSymbol), render {} surveyDocument = .ok text ∧
      BlockText (linesOf text) ∧
      (blocksAt 1 0 (linesOf text)).map Prod.fst =
        ["PROJECTION", "LEGEND", "WEB"] ++ ["LAYER", "LAYER"] ++ symbols.map fun _ => "SYMBOL" := by
  obtain ⟨text, h⟩ := exists_eq_ok_of_isOk isOk_render_surveyDocument
  obtain ⟨bounds, _, layers, _, hbounds, _, hlayers, _, _⟩ := render_eq_ok_iff.mp h
  have hvalues : ∀ value ∈ ({} : Options).values ++ surveyDocument.source.toList ++
      (surveyDocument.bounds.toOption.map Project.Bounds.values).getD [] ++
      (surveyDocument.layers.toOption.getD []).flatMap Layer.values, SingleLine value := by
    decide
  rw [hbounds, hlayers] at hvalues
  obtain ⟨hblockText, sections, symbols, hblocks, hsections, _, _⟩ :=
    render_blockText h hbounds hlayers hvalues
  have hlayerBlocks : (surveyDocument.root.findAll "maplayer").map (fun _ => "LAYER") =
      ["LAYER", "LAYER"] := by decide
  refine ⟨text, symbols, h, hblockText, ?_⟩
  rw [hblocks, List.map_append, List.map_append, hsections, List.map_map, List.map_map, ← hlayerBlocks]
  rfl

end Carta.Mapfile
