import Carta.Proofs.ClassBlocks
import Carta.Proofs.ConfinedText
import Carta.Proofs.LastSettings

/-!
# The lines of a projection

A projection is written word by word: each word of a definition becomes one line, or none when a
plus sign is all there is of it. So a definition can be cut at any of its blanks, and what is in a
projection block tells the parameters and their order. A definition that is written with these
parameters again, each after a plus sign, has the same lines.
-/

namespace Carta

namespace Text

/-- Blanks hold no word. -/
theorem wordsOf_blanks_append {blanks : List Char} (h : ∀ c ∈ blanks, isBlank c = true)
    (cs : List Char) : wordsOf (blanks ++ cs) = wordsOf cs := by
  induction blanks with
  | nil => rfl
  | cons c blanks ih =>
    rw [List.forall_mem_cons] at h
    have hfirst : wordsOf (c :: (blanks ++ cs)) = wordsOf (blanks ++ cs) :=
      wordsOf_append_cons h.1 [] (blanks ++ cs)
    rw [List.cons_append, hfirst, ih h.2]

/-- Blanks divide the words before them from those after them. -/
theorem words_append_of_blank {blanks : String} (hne : blanks ≠ "")
    (hblanks : ∀ c ∈ blanks.toList, isBlank c = true) (before after : String) :
    words (before ++ blanks ++ after) = words before ++ words after := by
  obtain ⟨c, rest, hlist⟩ := List.exists_cons_of_ne_nil (String.toList_eq_nil_iff.not.mpr hne)
  rw [hlist, List.forall_mem_cons] at hblanks
  have hcut : (before ++ blanks ++ after).toList =
      before.toList ++ c :: (rest ++ after.toList) := by simp [hlist]
  rw [words, hcut, wordsOf_append_cons hblanks.1, wordsOf_blanks_append hblanks.2, List.map_append]
  rfl

end Text

namespace Mapfile

open Carta.Project (Bounds ConsistsOf Document Geometry Labelling Layer Renderer Style StyledClass
  consistsOf_words)
open Carta.Text (SingleLine isBlank)

namespace Projection

/-- What parameter there is in a word: the word without one plus sign before it, and none when
nothing else is there. -/
inductive Yields : List Char → List String → Prop
  | signed {parameter : List Char} (hne : parameter ≠ []) :
      Yields ('+' :: parameter) [String.ofList parameter]
  | unsigned {word : List Char} (hne : word ≠ []) (hsign : word.head? ≠ some '+') :
      Yields word [String.ofList word]
  | lone : Yields ['+'] []

/-- The line for a parameter, after an indent. -/
def line (indent parameter : String) : String :=
  indent ++ "'" ++ parameter ++ "'\n"

/-- The parameters of a definition, with a plus sign before each and one blank between any two. -/
def normalForm (proj4 : String) : String :=
  " ".intercalate ((parameters proj4).map ("+" ++ ·))

/-- A block with the lines for a definition, after an indent. -/
def blockText (indent proj4 : String) : String :=
  indent ++ "PROJECTION\n" ++ format proj4 (indent ++ "  ") ++ indent ++ "END\n"

section

variable {proj4 blanks : String} {word : List Char}

/-- The lines of a definition are those for its parameters. -/
theorem format_eq_join (proj4 indent : String) :
    format proj4 indent = String.join ((parameters proj4).map (line indent)) := by
  have hline (parameter : String) :
      indent ++ (Word.quoted parameter).written ++ "\n" = line indent parameter := by
    apply String.toList_injective
    simp [Word.written, line]
  simp only [format, Entry.textOfLines, List.map_map, Function.comp_def, hline]

/-- The parameters on both sides of blanks are those of either side. -/
theorem parameters_append_of_blank (hne : blanks ≠ "")
    (hblanks : ∀ c ∈ blanks.toList, isBlank c = true) (before after : String) :
    parameters (before ++ blanks ++ after) = parameters before ++ parameters after := by
  rw [parameters, Text.words_append_of_blank hne hblanks, List.map_append, List.filter_append]
  rfl

/-- So are the lines. -/
theorem format_append_of_blank (hne : blanks ≠ "")
    (hblanks : ∀ c ∈ blanks.toList, isBlank c = true) (before after indent : String) :
    format (before ++ blanks ++ after) indent = format before indent ++ format after indent := by
  simp only [format_eq_join, parameters_append_of_blank hne hblanks, List.map_append,
    String.join_append]

/-- A word has one parameter in it, or none. -/
theorem yields_word (hne : word ≠ []) :
    Yields word ([String.ofList (withoutPlus word)].filter (!·.isEmpty)) := by
  have hsome {parameter : List Char} (hparameter : parameter ≠ []) :
      [String.ofList parameter].filter (!·.isEmpty) = [String.ofList parameter] :=
    List.filter_cons_of_pos (by simpa using hparameter)
  obtain ⟨c, cs, rfl⟩ := List.exists_cons_of_ne_nil hne
  by_cases hsign : c = '+'
  · obtain rfl := hsign
    by_cases hnothing : cs = []
    · obtain rfl := hnothing
      exact .lone
    · rw [withoutPlus, hsome hnothing]
      exact .signed hnothing
  · have hsame : withoutPlus (c :: cs) = c :: cs := by
      unfold withoutPlus
      split
      next hplus => exact absurd (List.cons.inj hplus).1 hsign
      next => rfl
    rw [hsame, hsome hne]
    exact .unsigned hne (by simpa using hsign)

/-- The parameters of a definition are those in its words. -/
theorem yields_of_consistsOf {words : List (List Char)} (h : ConsistsOf proj4 words) :
    ∃ yields, List.Forall₂ Yields words yields ∧ parameters proj4 = yields.flatten := by
  have hne : ∀ word ∈ words, word ≠ [] := fun word hword => (h.word word hword).1
  rw [parameters, h.words_eq]
  clear h
  induction words with
  | nil => exact ⟨[], .nil, rfl⟩
  | cons word words ih =>
    rw [List.forall_mem_cons] at hne
    obtain ⟨yields, hyields, hparameters⟩ := ih hne.2
    refine ⟨_, .cons (yields_word hne.1) hyields, ?_⟩
    rw [List.flatten_cons, ← hparameters, List.map_cons, List.map_cons, String.toList_ofList,
      ← List.singleton_append, List.filter_append]

end

/-! ## Reading the lines again -/

/-- Writing the parameters again, each after a plus sign, keeps them. -/
theorem parameters_normalForm (proj4 : String) : parameters (normalForm proj4) = parameters proj4 := by
  have hconsists : ConsistsOf (normalForm proj4)
      ((parameters proj4).map fun parameter => '+' :: parameter.toList) := by
    constructor
    · have hlist : (normalForm proj4).toList =
          [' '].intercalate ((parameters proj4).map fun parameter => '+' :: parameter.toList) := by
        simp [normalForm, Function.comp_def]
      rw [hlist]
      exact .intercalate rfl _
    · intro word hword
      obtain ⟨parameter, hparameter, rfl⟩ := List.mem_map.mp hword
      refine ⟨List.cons_ne_nil _ _, ?_⟩
      rw [List.forall_mem_cons]
      exact ⟨rfl, (plain_of_mem_parameters hparameter).2⟩
  have hsame : (parameters proj4).map ((fun word => String.ofList (withoutPlus word.toList)) ∘
      String.ofList ∘ fun parameter => '+' :: parameter.toList) = parameters proj4 := by
    simp [Function.comp_def, withoutPlus]
  rw [parameters, hconsists.words_eq, List.map_map, List.map_map, Function.comp_assoc, hsame,
    List.filter_eq_self]
  intro parameter hparameter
  simpa using (plain_of_mem_parameters hparameter).1

/-- Parameters without line feeds are told by their lines, whatever stands before each of them. -/
theorem eq_of_join_line_eq {indent : String} {first second : List String}
    (hfirst : ∀ parameter ∈ first, SingleLine parameter)
    (hsecond : ∀ parameter ∈ second, SingleLine parameter)
    (h : String.join (first.map (line indent)) = String.join (second.map (line indent))) :
    first = second := by
  -- a line goes on behind the indent and the quote to its first line feed
  have hline (parameter : String) (rest : List String) :
      (String.join ((parameter :: rest).map (line indent))).toList = (indent ++ "'").toList ++
        ((parameter ++ "'").toList ++ '\n' :: (String.join (rest.map (line indent))).toList) := by
    simp [line]
  have hne (parameter : String) (rest : List String) :
      String.join ((parameter :: rest).map (line indent)) ≠ String.join ([].map (line indent)) := by
    intro h
    have hlist := congrArg String.toList h
    rw [hline] at hlist
    simp at hlist
  have hquoted {parameter : String} (hsingle : SingleLine parameter) :
      '\n' ∉ (parameter ++ "'").toList :=
    Text.singleLine_append.mpr ⟨hsingle, (by decide : SingleLine "'")⟩
  induction first generalizing second with
  | nil =>
    cases second with
    | nil => rfl
    | cons parameter rest => exact absurd h.symm (hne parameter rest)
  | cons parameter rest ih =>
    cases second with
    | nil => exact absurd h (hne parameter rest)
    | cons other others =>
      rw [List.forall_mem_cons] at hfirst hsecond
      have hlist := congrArg String.toList h
      rw [hline, hline] at hlist
      obtain ⟨hsame, hrest⟩ := Text.eq_and_eq_of_append_cons (hquoted hfirst.1) (hquoted hsecond.1)
        (List.append_cancel_left hlist)
      rw [String.toList_append, String.toList_append] at hsame
      rw [String.toList_injective (List.append_cancel_right hsame),
        ih hfirst.2 hsecond.2 (String.toList_injective hrest)]

/-- The parameters of a definition and their order are told by its block. -/
theorem parameters_eq_of_blockText_eq {indent proj4 other : String}
    (h : blockText indent proj4 = blockText indent other) : parameters proj4 = parameters other := by
  have hlist := congrArg String.toList h
  simp only [blockText, format_eq_join, String.toList_append, List.append_assoc] at hlist
  have hlines := List.append_cancel_left (List.append_cancel_left hlist)
  exact eq_of_join_line_eq (fun _ => singleLine_of_mem_parameters)
    (fun _ => singleLine_of_mem_parameters)
    (String.toList_injective (List.append_cancel_right hlines))

/-- The projection block of a definition is written in this way. -/
theorem text_block (depth : Nat) (proj4 : String) : Entry.text depth [block proj4] =
    blockText (String.ofList (List.replicate (2 * depth) ' ')) proj4 := by
  have hindent (text : String) : Entry.indented (depth + 1) text =
      String.ofList (List.replicate (2 * depth) ' ') ++ "  " ++ text := by
    apply String.toList_injective
    simp [Entry.indented, Nat.mul_add, List.replicate_add]
  have hbody : Entry.text (depth + 1)
        ((parameters proj4).map fun parameter => .directive [.quoted parameter]) =
      format proj4 (String.ofList (List.replicate (2 * depth) ' ') ++ "  ") := by
    rw [format, Entry.text]
    congr 1
    induction parameters proj4 with
    | nil => rfl
    | cons parameter rest ih =>
      rw [List.map_cons, Entry.linesOfAll, ih, Entry.lines, List.map_cons, hindent]
      rfl
  rw [block, Entry.text_block, hbody, blockText]
  apply String.toList_injective
  simp [Entry.textOfLines, Entry.indented]

end Projection

/-! ## Where projection blocks are -/

section Writers

variable {keyword : String}

/-- The sections with another keyword than those of the output format, the legend and the web interface
are the projection. -/
theorem bodiesOf_sectionEntries (hkeyword : keyword ∉ ["OUTPUTFORMAT", "LEGEND", "WEB"])
    (options : Options) (bounds : Bounds) (destination : String) :
    Entry.bodiesOf keyword (sectionEntries options bounds destination) =
      Entry.bodiesOf keyword [Projection.block destination] := by
  obtain ⟨hformat, hlegend, hweb⟩ :
      keyword ≠ "OUTPUTFORMAT" ∧ keyword ≠ "LEGEND" ∧ keyword ≠ "WEB" := by simpa using hkeyword
  have houtput : Entry.bodiesOf keyword (outputFormatEntries options) = [] := by
    unfold outputFormatEntries
    split <;> simp [hformat.symm]
  simp [sectionEntries, mapEntries, imageEntries, legendEntries, webEntries, Projection.block, houtput,
    hlegend.symm, hweb.symm]

/-- The definitions of symbols are blocks of symbols only. -/
theorem bodiesOf_symbolEntries (hkeyword : keyword ≠ "SYMBOL") (set : SymbolSet) :
    Entry.bodiesOf keyword (symbolEntries set.definitions) = [] := by
  unfold symbolEntries SymbolSet.definitions
  induction set.symbols with
  | nil => rfl
  | cons symbol rest ih =>
    rw [List.map_cons, List.flatMap_cons, Entry.bodiesOf_append, ih]
    cases symbol <;>
      simp [PointSymbol.definition, PointSymbol.definitionBlock, hkeyword.symm]

/-- A class of a style is a block of a class. -/
theorem exists_body_of_classBlock {geometry : Option Geometry} {labelling : Option Labelling}
    {opening : List Entry} {style : Style} {set : SymbolSet} {written : Entry × SymbolSet}
    (h : classBlock geometry labelling opening style set = .ok written) :
    ∃ body, written.1 = .block "CLASS" body := by
  obtain ⟨styled, -, h⟩ := bind_eq_ok_iff.mp h
  obtain rfl := Except.ok.inj h
  exact ⟨_, rfl⟩

/-- So is that of a continuous ramp. -/
theorem exists_body_of_rampBlock {field : String} {lowest highest : StyledClass}
    {labelling : Option Labelling} {block : Entry}
    (h : rampBlock field lowest highest labelling = .ok block) :
    ∃ body, block = .block "CLASS" body := by
  unfold rampBlock at h
  simp only [bind_eq_ok_iff] at h
  obtain ⟨_, _, _, _, _, _, _, _, _, _, h⟩ := h
  obtain rfl := Except.ok.inj h
  exact ⟨_, rfl⟩

/-- The classes of a classification are blocks of classes only. -/
theorem bodiesOf_classBlocks (hkeyword : keyword ≠ "CLASS") {geometry : Option Geometry}
    {labelling : Option Labelling} {opening : StyledClass → Except Error (List Entry)}
    {classes : List StyledClass} {set : SymbolSet} {written : List Entry × SymbolSet}
    (h : classBlocks geometry labelling opening classes set = .ok written) :
    Entry.bodiesOf keyword written.1 = [] := by
  induction classes generalizing set written with
  | nil =>
    obtain rfl := Except.ok.inj h
    rfl
  | cons styledClass rest ih =>
    obtain ⟨entries, hentries, h⟩ := bind_eq_ok_iff.mp h
    obtain ⟨⟨block, between⟩, hblock, h⟩ := bind_eq_ok_iff.mp h
    obtain ⟨⟨blocks, after⟩, hblocks, h⟩ := bind_eq_ok_iff.mp h
    obtain rfl := Except.ok.inj h
    obtain ⟨body, hbody⟩ := exists_body_of_classBlock hblock
    dsimp only at hbody
    rw [hbody, Entry.bodiesOf_block, if_neg hkeyword.symm]
    exact ih hblocks

/-- So are the entries of a renderer. -/
theorem bodiesOf_rendererEntries (hkeyword : keyword ≠ "CLASS") {name : String}
    {geometry : Option Geometry} {labelling : Option Labelling} {renderer : Renderer} {set : SymbolSet}
    {written : List Entry × SymbolSet}
    (h : rendererEntries name geometry labelling renderer set = .ok written) :
    Entry.bodiesOf keyword written.1 = [] := by
  cases renderer with
  | single style =>
    obtain ⟨⟨block, after⟩, hblock, h⟩ := bind_eq_ok_iff.mp h
    obtain rfl := Except.ok.inj h
    obtain ⟨body, hbody⟩ := exists_body_of_classBlock hblock
    dsimp only at hbody
    simp [hbody, hkeyword.symm]
  | graduated field classes | unique field classes =>
    obtain ⟨⟨blocks, after⟩, hblocks, h⟩ := bind_eq_ok_iff.mp h
    obtain rfl := Except.ok.inj h
    rw [Entry.bodiesOf_quotedSetting]
    exact bodiesOf_classBlocks hkeyword hblocks
  | continuous field lowest highest =>
    obtain ⟨block, hblock, h⟩ := bind_eq_ok_iff.mp h
    obtain rfl := Except.ok.inj h
    obtain ⟨body, rfl⟩ := exists_body_of_rampBlock hblock
    simp [hkeyword.symm]
  | absent =>
    obtain rfl := Except.ok.inj h
    rfl

end Writers

/-! ## The projections of a mapfile -/

/-- The texts of the projection blocks among entries. -/
def Entry.projectionTexts (depth : Nat) (entries : List Entry) : List String :=
  (bodiesOf "PROJECTION" entries).map fun body => text depth [.block "PROJECTION" body]

/-- The texts of the projection blocks in the map itself, and of those in each of its layers. -/
def projectionTexts (mapfile : Mapfile) : List String × List (List String) :=
  (Entry.projectionTexts 1 mapfile.body,
    (Entry.bodiesOf "LAYER" mapfile.body).map (Entry.projectionTexts 2))

/-- There is one projection block where the only one is that of a definition. -/
theorem Entry.projectionTexts_eq {depth : Nat} {entries : List Entry} {proj4 : String}
    (h : bodiesOf "PROJECTION" entries = bodiesOf "PROJECTION" [Projection.block proj4]) :
    projectionTexts depth entries =
      [Projection.blockText (String.ofList (List.replicate (2 * depth) ' ')) proj4] := by
  rw [projectionTexts, h, ← Projection.text_block]
  rfl

/-- A layer is written as one block, with one projection block in it. -/
theorem projectionTexts_layer {layer : Layer} {block : List Entry} (h : layerAlone layer = .ok block) :
    ∃ body, block = [.block "LAYER" body, .blank] ∧
      Entry.projectionTexts 2 body = [Projection.blockText "    " layer.proj4] := by
  obtain ⟨written, hwritten, rfl⟩ := map_eq_ok_iff.mp h
  obtain ⟨⟨entries, after⟩, hentries, hwritten⟩ := bind_eq_ok_iff.mp hwritten
  obtain rfl := Except.ok.inj hwritten
  refine ⟨_, rfl, Entry.projectionTexts_eq ?_⟩
  have hnone := bodiesOf_rendererEntries (by decide : "PROJECTION" ≠ "CLASS") hentries
  rw [Entry.bodiesOf_append, hnone, List.append_nil, bodiesOf_layerOpening (by decide)]

/-- Layers are written as blocks with one projection block in each, and none beside them. -/
theorem projectionTexts_layers {layers : List Layer} {blocks : List (List Entry)}
    (h : List.Forall₂ (fun layer block => layerAlone layer = .ok block) layers blocks) :
    Entry.bodiesOf "PROJECTION" blocks.flatten = [] ∧
      (Entry.bodiesOf "LAYER" blocks.flatten).map (Entry.projectionTexts 2) =
        layers.map fun layer => [Projection.blockText "    " layer.proj4] := by
  induction h with
  | nil => exact ⟨rfl, rfl⟩
  | cons hlayer _ ih =>
    obtain ⟨body, rfl, hbody⟩ := projectionTexts_layer hlayer
    simp [ih, hbody]

/-- A mapfile has one projection block for its destination and one in each layer. -/
theorem projectionTexts_ofDocument {options : Options} {document : Document} {mapfile : Mapfile}
    (h : ofDocument options document = .ok mapfile) : ∃ destination layers,
      document.destination = .ok destination ∧ document.layers = .ok layers ∧
      mapfile.projectionTexts = ([Projection.blockText "  " destination],
        layers.map fun layer => [Projection.blockText "    " layer.proj4]) := by
  obtain ⟨bounds, destination, layers, blocks, -, hdestination, hlayers, hblocks, rfl⟩ :=
    ofDocument_eq_ok_iff.mp h
  obtain ⟨hnone, hblockTexts⟩ := projectionTexts_layers hblocks
  refine ⟨destination, layers, hdestination, hlayers, Prod.ext ?_ ?_⟩
  · refine Entry.projectionTexts_eq ?_
    rw [Entry.bodiesOf_append, Entry.bodiesOf_append, hnone, bodiesOf_symbolEntries (by decide),
      bodiesOf_sectionEntries (by decide), List.append_nil, List.append_nil]
  · have hsections : Entry.bodiesOf "LAYER" (sectionEntries options bounds destination) = [] := by
      rw [bodiesOf_sectionEntries (by decide)]
      rfl
    dsimp only [projectionTexts]
    rw [Entry.bodiesOf_append, Entry.bodiesOf_append, hsections, bodiesOf_symbolEntries (by decide),
      List.nil_append, List.append_nil, hblockTexts]

/-- Layers with the same texts of projections have the same parameters. -/
theorem Projection.map_parameters_eq {layers others : List Layer} {indent : String}
    (h : layers.map (fun layer => [blockText indent layer.proj4]) =
      others.map fun layer => [blockText indent layer.proj4]) :
    layers.map (fun layer => parameters layer.proj4) =
      others.map fun layer => parameters layer.proj4 := by
  induction layers generalizing others with
  | nil =>
    obtain rfl := List.map_eq_nil_iff.mp h.symm
    rfl
  | cons layer rest ih =>
    obtain ⟨other, more, rfl, hother, hmore⟩ := List.map_eq_cons_iff.mp h.symm
    have hsame := parameters_eq_of_blockText_eq (List.cons.inj hother).1
    rw [List.map_cons, List.map_cons, hsame, ih hmore.symm]

/-- **A projection is written word by word.** A definition can be cut at any of its blanks. Each of
its words has one parameter in it or none, and there is one line for each parameter, in order. What
is written does not change when the parameters are written as a definition again. A mapfile has one
projection block for the destination of its document and one in each layer, and these tell the
parameters and their order. -/
theorem Projection.format_word_by_word :
    (∀ before blanks after indent : String, blanks ≠ "" →
      (∀ c ∈ blanks.toList, isBlank c = true) →
      format (before ++ blanks ++ after) indent = format before indent ++ format after indent) ∧
    (∀ proj4,
      (∃ words, ConsistsOf proj4 words) ∧
      (∀ words, ConsistsOf proj4 words →
        ∃ yields, List.Forall₂ Yields words yields ∧ parameters proj4 = yields.flatten) ∧
      ∀ indent, format proj4 indent = String.join ((parameters proj4).map (line indent)) ∧
        format (normalForm proj4) indent = format proj4 indent) ∧
    ∀ options document mapfile, ofDocument options document = .ok mapfile →
      ∃ destination layers, document.destination = .ok destination ∧ document.layers = .ok layers ∧
        mapfile.projectionTexts = ([blockText "  " destination],
          layers.map fun layer => [blockText "    " layer.proj4]) ∧
        ∀ otherOptions other otherMapfile otherDestination otherLayers,
          ofDocument otherOptions other = .ok otherMapfile →
          other.destination = .ok otherDestination → other.layers = .ok otherLayers →
          otherMapfile.projectionTexts = mapfile.projectionTexts →
          parameters otherDestination = parameters destination ∧
          otherLayers.map (fun layer => parameters layer.proj4) =
            layers.map fun layer => parameters layer.proj4 := by
  refine ⟨?cut, fun proj4 => ⟨⟨_, consistsOf_words proj4⟩, ?words, fun indent => ⟨?lines, ?again⟩⟩,
    ?blocks⟩
  case cut => exact fun before _ after indent hne hblanks =>
    format_append_of_blank hne hblanks before after indent
  case words => exact fun _ => yields_of_consistsOf
  case lines => exact format_eq_join proj4 indent
  case again => rw [format_eq_join, parameters_normalForm, ← format_eq_join]
  case blocks =>
    intro options document mapfile h
    obtain ⟨destination, layers, hdestination, hlayers, htexts⟩ := projectionTexts_ofDocument h
    refine ⟨destination, layers, hdestination, hlayers, htexts, ?_⟩
    intro otherOptions other otherMapfile otherDestination otherLayers hother hotherDestination
      hotherLayers hsame
    obtain ⟨destination', layers', hdestination', hlayers', htexts'⟩ :=
      projectionTexts_ofDocument hother
    obtain rfl := Except.ok.inj (hotherDestination.symm.trans hdestination')
    obtain rfl := Except.ok.inj (hotherLayers.symm.trans hlayers')
    rw [htexts, htexts'] at hsame
    obtain ⟨hmap, heach⟩ := Prod.mk.inj hsame
    exact ⟨parameters_eq_of_blockText_eq (List.cons.inj hmap).1, map_parameters_eq heach⟩

/-- A project with one grid, whose coordinate system is given by a definition. -/
def gridDocument (proj4 : String) : Document where
  root := {
    name := "qgis"
    children :=
      [textElement "xmin" "0", textElement "ymin" "0", textElement "xmax" "1", textElement "ymax" "1",
        { name := "maplayer"
          attributes := [("type", "raster")]
          children :=
            [textElement "layername" "elevation", textElement "datasource" "elevation.tif",
              textElement "transparencyLevelInt" "255",
              { name := "destinationsrs", children := [textElement "proj4" proj4] }] }] }
  source := none

/-- The grid has the definition, and so has the map. -/
theorem projectionTexts_gridDocument {proj4 : String} {mapfile : Mapfile}
    (hdestination : (gridDocument proj4).destination = .ok proj4)
    (hlayers : (gridDocument proj4).layers.map (·.map Layer.proj4) = .ok [proj4])
    (h : ofDocument {} (gridDocument proj4) = .ok mapfile) :
    mapfile.projectionTexts =
      ([Projection.blockText "  " proj4], [[Projection.blockText "    " proj4]]) := by
  obtain ⟨destination, layers, hfound, hread, htexts⟩ := projectionTexts_ofDocument h
  obtain rfl := Except.ok.inj (hdestination.symm.trans hfound)
  rw [hread] at hlayers
  obtain ⟨layer, rfl, hlayer⟩ := List.map_eq_singleton_iff.mp (Except.ok.inj hlayers)
  rw [htexts, List.map_singleton, hlayer]

/-- A definition with a plus sign that stands alone, between blanks of different kinds, is written as
one with two words. -/
theorem Projection.scattered_word_by_word :
    format ("proj=utm +" ++ "\t\u00a0" ++ "+zone=33") "  " =
        format "proj=utm +" "  " ++ format "+zone=33" "  " ∧
      (∃ yields, List.Forall₂ Yields ["proj=utm".toList, ['+'], "+zone=33".toList] yields ∧
        parameters "proj=utm +\t\u00a0+zone=33" = yields.flatten) ∧
      ∃ mapfile other, ofDocument {} (gridDocument "proj=utm +\t\u00a0+zone=33") = .ok mapfile ∧
        ofDocument {} (gridDocument "+proj=utm +zone=33") = .ok other ∧
        other.projectionTexts = mapfile.projectionTexts ∧
        parameters "+proj=utm +zone=33" = parameters "proj=utm +\t\u00a0+zone=33" := by
  obtain ⟨hcut, hwords, hblocks⟩ := format_word_by_word
  have hsplit : Text.wordsOf "proj=utm +\t\u00a0+zone=33".toList =
      ["proj=utm".toList, ['+'], "+zone=33".toList] := by decide +kernel
  have hblank : "\t\u00a0".toList.all isBlank = true := by decide
  refine ⟨hcut _ _ _ _ (by decide) (List.all_eq_true.mp hblank),
    (hwords _).2.1 _ (hsplit ▸ consistsOf_words _), ?_⟩
  obtain ⟨mapfile, h⟩ := exists_eq_ok_of_isOk
    (by decide : (ofDocument {} (gridDocument "proj=utm +\t\u00a0+zone=33")).isOk = true)
  obtain ⟨other, hother⟩ := exists_eq_ok_of_isOk
    (by decide : (ofDocument {} (gridDocument "+proj=utm +zone=33")).isOk = true)
  have hsame : other.projectionTexts = mapfile.projectionTexts := by
    rw [projectionTexts_gridDocument (by decide) (by decide) h,
      projectionTexts_gridDocument (by decide) (by decide) hother]
    decide +kernel
  obtain ⟨destination, layers, hdestination, -, -, htold⟩ := hblocks _ _ _ h
  obtain ⟨otherDestination, otherLayers, hotherDestination, hotherLayers, -, -⟩ := hblocks _ _ _ hother
  obtain ⟨hparameters, -⟩ := htold _ _ _ _ _ hother hotherDestination hotherLayers hsame
  obtain rfl : "proj=utm +\t\u00a0+zone=33" = destination := Except.ok.inj hdestination
  obtain rfl : "+proj=utm +zone=33" = otherDestination := Except.ok.inj hotherDestination
  exact ⟨mapfile, other, h, hother, hsame, hparameters⟩

end Mapfile

end Carta
