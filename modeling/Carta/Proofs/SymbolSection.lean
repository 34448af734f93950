import Carta.Proofs.StyleReferences

/-!
# Symbols are defined when they are referred to

The symbols in use after the layers are those that the styles of point layers mean. A block refers
to exactly the symbols of its layer's styles, so the section of symbols defines what some block
refers to and nothing else. A definition is a block `SYMBOL` that begins with the name, and its own
for each symbol, so what the section defines can be read off its lines. The section is the same for
all projects with the same layers, whatever their order and however often each occurs.
-/

namespace Carta.Mapfile

open Carta.Project (Bounds Document Layer)

/-- A symbol is used by a layer when it is one of points and one of its styles means the symbol. -/
theorem mem_layerSymbols {layer : Layer} {symbol : PointSymbol} :
    symbol ∈ layerSymbols layer ↔ layer.kind = .vector .point ∧
      ∃ style ∈ layer.renderer.styles, PointSymbol.ofStyle style = symbol := by
  have hkind : layer.geometry? = some .point ↔ layer.kind = .vector .point := by
    cases hkind : layer.kind <;> simp [Layer.geometry?, hkind, Project.LayerKind.geometry?]
  by_cases hpoint : layer.geometry? = some .point
  · simp [layerSymbols, styleSymbols, hpoint, hkind.mp hpoint, eq_comm]
  · have hother : layer.kind ≠ .vector .point := fun h => hpoint (hkind.mpr h)
    simp [layerSymbols, styleSymbols, hpoint, hother]

/-- The symbols that layers use, in the order of their names. -/
def usedSymbols (layers : List Layer) : List PointSymbol :=
  PointSymbol.all.filter (· ∈ layers.flatMap layerSymbols)

/-- A symbol is used by layers when one of them uses it. -/
theorem mem_usedSymbols {layers : List Layer} {symbol : PointSymbol} :
    symbol ∈ usedSymbols layers ↔ ∃ layer ∈ layers, symbol ∈ layerSymbols layer := by
  have hall : symbol ∈ PointSymbol.all := by cases symbol <;> decide
  simp [usedSymbols, hall]

/-- The used symbols are in strictly increasing order of their names, so none occurs twice. -/
theorem usedSymbols_pairwise (layers : List Layer) :
    (usedSymbols layers).Pairwise (fun first second => first.name < second.name) := by
  have hall : PointSymbol.all.Pairwise (fun first second => first.name < second.name) := by decide
  exact hall.filter _

/-- The blocks of layers refer to the symbols that the layers use, by their names. -/
theorem mem_references_iff_of_layers {layers : List Layer} {blocks : List (List Entry)}
    (h : List.Forall₂ (fun layer block => layerAlone layer = .ok block) layers blocks) (name : String) :
    (∃ block ∈ blocks, name ∈ Entry.referencesOfAll block) ↔
      ∃ symbol ∈ usedSymbols layers, symbol.name = name := by
  simp only [mem_usedSymbols]
  induction h with
  | nil => simp
  | cons hblock _ ih =>
    rw [List.exists_mem_cons_iff, ih, (refer_of_layerAlone hblock).references, List.mem_map]
    simp only [List.exists_mem_cons_iff, or_and_right, exists_or]

/-- The lines of the blocks of layers draw with what the blocks refer to. -/
theorem drawWith_iff_of_layers {layers : List Layer} {blocks : List (List Entry)}
    (h : List.Forall₂ (fun layer block => layerAlone layer = .ok block) layers blocks) (name : String) :
    (∃ block ∈ blocks, name ∈ Entry.referencesOfAll block) ↔
      ∃ block ∈ blocks, DrawWith (Entry.linesOfAll 1 block) name := by
  induction h with
  | nil => simp
  | cons hblock _ ih =>
    rw [List.exists_mem_cons_iff, List.exists_mem_cons_iff, ih,
      (refer_of_layerAlone hblock).drawWith_iff 1]

/-- Layers use the same symbols when they are the same but for their order and repetition. -/
theorem usedSymbols_congr {layers others : List Layer} (h : ∀ layer, layer ∈ others ↔ layer ∈ layers) :
    usedSymbols others = usedSymbols layers := by
  apply List.filter_congr
  intro symbol _
  simp [h]

/-- A layer that is none of points and a layer that is drawn as a ramp use no symbol. -/
theorem layerSymbols_eq_nil {layer : Layer}
    (h : layer.kind ≠ .vector .point ∨
      ∃ field lowest highest, layer.renderer = .continuous field lowest highest) :
    layerSymbols layer = [] := by
  rw [List.eq_nil_iff_forall_not_mem]
  intro symbol hsymbol
  obtain ⟨hkind, style, hstyle, _⟩ := mem_layerSymbols.mp hsymbol
  rcases h with hother | ⟨field, lowest, highest, hramp⟩
  · exact hother hkind
  · rw [hramp] at hstyle
    cases hstyle

/-- The line that names a layer or a symbol in its block. -/
def nameLine (name : String) : String :=
  "    NAME '" ++ name ++ "'"

/-- Lines define a symbol when a block `SYMBOL` begins in them and its first line is the name. -/
def DefineSymbol (lines : List String) (name : String) : Prop :=
  ["  SYMBOL", nameLine name] <:+: lines

/-- The lines of a symbol's definition and the empty line after it. -/
def definitionLines (symbol : PointSymbol) : List String :=
  Entry.linesOfAll 1 symbol.definition ++ [""]

/-- A definition is one block `SYMBOL` under a comment. Its first line is the name of the symbol, and
all its lines up to `END` are indented by two more blanks. -/
theorem exists_definitionLines_eq (symbol : PointSymbol) :
    ∃ (title : String) (inner : List String),
      definitionLines symbol =
        ["  # " ++ title, "  SYMBOL", nameLine symbol.name] ++ inner ++ ["  END", ""] ∧
      ∀ line ∈ inner, "    ".toList <+: line.toList := by
  cases symbol with
  | circle =>
    refine ⟨"Circle symbol", ["    TYPE ellipse", "    FILLED true", "    POINTS", "      1 1",
      "    END"], ?_, ?_⟩ <;> decide
  | triangle =>
    refine ⟨"Triangle symbol", ["    TYPE vector", "    FILLED true", "    POINTS", "      0 1",
      "      .5 0", "      1 1", "      0 1", "    END"], ?_, ?_⟩ <;> decide

/-- A definition names its symbol once, and no other symbol. -/
theorem count_definitionLines (symbol other : PointSymbol) :
    (definitionLines symbol).count (nameLine other.name) = if symbol = other then 1 else 0 := by
  cases symbol <;> cases other <;> decide

/-- The only line of a definition that could name a symbol names the one that is defined. -/
theorem nameLine_mem_definitionLines {symbol : PointSymbol} {name : String}
    (h : nameLine name ∈ definitionLines symbol) : symbol.name = name := by
  have hnames : ∀ line ∈ definitionLines symbol,
      "    NAME '".toList <+: line.toList → line = nameLine symbol.name := by
    cases symbol <;> decide
  have hname := hnames _ h (by simp [nameLine])
  simpa [nameLine, eq_comm, String.toList_inj] using congrArg String.toList hname

/-- The definitions of symbols are told apart by their texts. -/
theorem definitionText_injective : Function.Injective definitionText := by
  intro symbol other h
  cases symbol <;> cases other
  all_goals first | rfl | exact absurd h (by decide)

/-- The text of a definition is that of its lines. -/
theorem definitionText_eq (symbol : PointSymbol) :
    definitionText symbol = Entry.textOfLines (definitionLines symbol) := by
  rw [definitionLines, Entry.textOfLines_append]
  rfl

/-- The text of definitions is that of their lines. -/
theorem join_definitionText (symbols : List PointSymbol) :
    String.join (symbols.map definitionText) =
      Entry.textOfLines (symbols.flatMap definitionLines) := by
  induction symbols with
  | nil => rfl
  | cons symbol rest ih =>
    rw [List.map_cons, String.join_cons, ih, List.flatMap_cons, Entry.textOfLines_append,
      definitionText_eq]

/-- Definitions one after the other define the symbols that they are of, and no others. -/
theorem defineSymbol_iff (symbols : List PointSymbol) (name : String) :
    DefineSymbol (symbols.flatMap definitionLines) name ↔
      ∃ symbol ∈ symbols, symbol.name = name := by
  constructor
  · intro h
    have hline := h.subset (List.mem_cons_of_mem _ (List.mem_singleton_self _))
    obtain ⟨symbol, hsymbol, hline⟩ := List.mem_flatMap.mp hline
    exact ⟨symbol, hsymbol, nameLine_mem_definitionLines hline⟩
  · rintro ⟨symbol, hsymbol, rfl⟩
    obtain ⟨title, inner, hlines, _⟩ := exists_definitionLines_eq symbol
    obtain ⟨before, after, rfl⟩ := List.append_of_mem hsymbol
    refine ⟨before.flatMap definitionLines ++ ["  # " ++ title],
      inner ++ ["  END", ""] ++ after.flatMap definitionLines, ?_⟩
    simp [hlines]

/-- A symbol is named in definitions as often as it is among the symbols that they are of. -/
theorem count_nameLine (symbols : List PointSymbol) (symbol : PointSymbol) :
    (symbols.flatMap definitionLines).count (nameLine symbol.name) = symbols.count symbol := by
  induction symbols with
  | nil => rfl
  | cons first rest ih =>
    rw [List.flatMap_cons, List.count_append, count_definitionLines, ih, List.count_cons, Nat.add_comm]
    simp

/-- A mapfile ends with the definitions of the symbols that its layers use. -/
theorem exists_render_eq_usedSymbols {options : Options} {document : Document} {text : String}
    {layers : List Layer} (h : render options document = .ok text)
    (hlayers : document.layers = .ok layers) :
    ∃ bounds destination blocks,
      List.Forall₂ (fun layer block => layerAlone layer = .ok block) layers blocks ∧
      text = sectionsText options document.source bounds destination ++
        String.join (blocks.map (Entry.text 1)) ++
        String.join ((usedSymbols layers).map definitionText) ++ "END" := by
  obtain ⟨bounds, destination, layers', blocks, _, _, hlayers', hblocks, rfl⟩ := render_eq_ok_iff.mp h
  obtain rfl := Except.ok.inj (hlayers'.symm.trans hlayers)
  refine ⟨bounds, destination, blocks, hblocks, ?_⟩
  rw [SymbolSet.symbols_insertAll_empty, usedSymbols]

/-- The symbols that are defined after the last layer, each once and in the order of their names, are
those that the styles of some block refer to, which are those that the styles of point layers mean.
So they depend neither on the order of the layers nor on how often a layer occurs. What is defined
and what is referred to can be read off the lines of the mapfile: a definition is a block `SYMBOL`
with the name of its symbol first, and a style refers to a symbol in its first line. -/
theorem render_defines_references (options : Options) :
    (∀ document text, render options document = .ok text →
      ∃ (bounds : Bounds) (destination : String) (layers : List Layer) (blocks : List (List Entry))
        (used : List PointSymbol),
      document.layers = .ok layers ∧
      List.Forall₂ (fun layer block => layerAlone layer = .ok block) layers blocks ∧
      text = sectionsText options document.source bounds destination ++
        String.join (blocks.map (Entry.text 1)) ++ String.join (used.map definitionText) ++ "END" ∧
      used.Pairwise (fun first second => first.name < second.name) ∧
      (∀ name, (∃ symbol ∈ used, symbol.name = name) ↔
        ∃ block ∈ blocks, name ∈ Entry.referencesOfAll block) ∧
      String.join (used.map definitionText) = Entry.textOfLines (used.flatMap definitionLines) ∧
      (∀ name, DefineSymbol (used.flatMap definitionLines) name ↔ ∃ symbol ∈ used, symbol.name = name) ∧
      (∀ symbol ∈ used, (used.flatMap definitionLines).count (nameLine symbol.name) = 1) ∧
      (∀ name, DefineSymbol (used.flatMap definitionLines) name ↔
        ∃ block ∈ blocks, DrawWith (Entry.linesOfAll 1 block) name) ∧
      (∀ symbol, symbol ∈ used ↔ ∃ layer ∈ layers, layer.kind = .vector .point ∧
        ∃ style ∈ layer.renderer.styles,
          (style.pointSymbol.bind PointSymbol.ofIdentifier?).getD .circle = symbol) ∧
      ∀ options' document' text' layers', render options' document' = .ok text' →
        document'.layers = .ok layers' → (∀ layer, layer ∈ layers' ↔ layer ∈ layers) →
        ∃ bounds' destination' blocks',
          List.Forall₂ (fun layer block => layerAlone layer = .ok block) layers' blocks' ∧
          text' = sectionsText options' document'.source bounds' destination' ++
            String.join (blocks'.map (Entry.text 1)) ++ String.join (used.map definitionText) ++
            "END") ∧
    (∀ layer before block after,
      (layer.kind ≠ .vector .point ∨
        ∃ field lowest highest, layer.renderer = .continuous field lowest highest) →
      layerEntries layer before = .ok (block, after) → after = before) ∧
    Function.Injective definitionText ∧
    ∀ symbol, definitionText symbol = Entry.textOfLines (definitionLines symbol) ∧
      ∃ (title : String) (inner : List String),
        definitionLines symbol =
          ["  # " ++ title, "  SYMBOL", nameLine symbol.name] ++ inner ++ ["  END", ""] ∧
        ∀ line ∈ inner, "    ".toList <+: line.toList := by
  refine ⟨?_, ?_, definitionText_injective, fun symbol =>
    ⟨definitionText_eq symbol, exists_definitionLines_eq symbol⟩⟩
  · intro document text h
    obtain ⟨_, _, layers, _, _, _, hlayers, _, _⟩ := render_eq_ok_iff.mp h
    obtain ⟨bounds, destination, blocks, hblocks, htext⟩ := exists_render_eq_usedSymbols h hlayers
    have hnodup : (usedSymbols layers).Nodup :=
      (usedSymbols_pairwise layers).imp fun hlt heq => absurd (heq ▸ hlt) (String.lt_irrefl _)
    refine ⟨bounds, destination, layers, blocks, usedSymbols layers, hlayers, hblocks, htext,
      usedSymbols_pairwise layers, ?_, join_definitionText _, defineSymbol_iff _, ?_, ?_, ?_, ?_⟩
    · exact fun name => (mem_references_iff_of_layers hblocks name).symm
    · intro symbol hsymbol
      rw [count_nameLine, hnodup.count, if_pos hsymbol]
    · intro name
      rw [defineSymbol_iff, ← mem_references_iff_of_layers hblocks, drawWith_iff_of_layers hblocks]
    · intro symbol
      simp only [mem_usedSymbols, mem_layerSymbols, PointSymbol.ofStyle]
    · intro options' document' text' layers' h' hlayers' hsame
      rw [← usedSymbols_congr hsame]
      exact exists_render_eq_usedSymbols h' hlayers'
  · intro layer before block after hlayer h
    rw [layerEntries_adds layer before, layerSymbols_eq_nil hlayer] at h
    obtain ⟨written, _, hwritten⟩ := map_eq_ok_iff.mp h
    exact (congrArg Prod.snd hwritten).symm

/-- The layers of the survey refer to both symbols, and so its mapfile defines both. -/
theorem surveyDocument_defines_references :
    ∃ (text front : String) (blocks : List (List Entry)) (lines : List String),
      render {} surveyDocument = .ok text ∧
      text = front ++ String.join (blocks.map (Entry.text 1)) ++ Entry.textOfLines lines ++ "END" ∧
      ∀ name ∈ ["CIRCLE", "TRIANGLE"], DefineSymbol lines name ∧ lines.count (nameLine name) = 1 ∧
        ∃ block ∈ blocks, DrawWith (Entry.linesOfAll 1 block) name := by
  obtain ⟨text, h⟩ := exists_eq_ok_of_isOk isOk_render_surveyDocument
  obtain ⟨_, _, layers, blocks, used, hlayers, _, htext, _, _, hlines, hdefines, honce, hdrawn, hused,
    _⟩ := (render_defines_references {}).1 surveyDocument text h
  have hboth : ∀ symbol ∈ PointSymbol.all,
      ∃ layer ∈ surveyDocument.layers.toOption.getD [], layer.kind = .vector .point ∧
        ∃ style ∈ layer.renderer.styles,
          (style.pointSymbol.bind PointSymbol.ofIdentifier?).getD .circle = symbol := by
    decide
  have hnames : ∀ name ∈ ["CIRCLE", "TRIANGLE"], ∃ symbol ∈ PointSymbol.all, symbol.name = name := by
    decide
  rw [hlayers] at hboth
  rw [hlines] at htext
  refine ⟨text, _, blocks, _, h, htext, ?_⟩
  intro name hname
  obtain ⟨symbol, hsymbol, rfl⟩ := hnames name hname
  have hmem := (hused symbol).mpr (hboth symbol hsymbol)
  have hdefined := (hdefines symbol.name).mpr ⟨symbol, hmem, rfl⟩
  exact ⟨hdefined, honce symbol hmem, (hdrawn symbol.name).mp hdefined⟩

end Carta.Mapfile
