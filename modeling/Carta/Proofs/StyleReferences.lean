import Carta.Proofs.MapfileParts

/-!
# What styles refer to

The first line of a style names its symbol. So the symbols that a layer's block refers to can be read
off its entries, as the references in its styles, and off its lines, as the names in those lines that
follow the beginning of a style. Both readings of what a layer is written as give the symbols of the
layer's styles, because nothing else that is written looks like a reference.
-/

namespace Carta.Mapfile

open Carta.Project (Connection Geometry Labelling Layer Renderer Style StyledClass)

/-- The name of the symbol that a directive refers to. -/
def Entry.reference? : Entry → Option String
  | .directive [.bare "SYMBOL", .quoted name] => some name
  | _ => none

mutual

/-- The names of the symbols that the styles in an entry refer to. -/
def Entry.references : Entry → List String
  | .block keyword body =>
    (if keyword = "STYLE" then body.filterMap Entry.reference? else []) ++ Entry.referencesOfAll body
  | _ => []

/-- The names of the symbols that the styles in entries refer to. -/
def Entry.referencesOfAll : List Entry → List String
  | [] => []
  | entry :: rest => Entry.references entry ++ Entry.referencesOfAll rest

end

/-- Lines draw with a symbol when a style begins in them and its first line is `SYMBOL` with the
name of the symbol, one block deeper. -/
def DrawWith (lines : List String) (name : String) : Prop :=
  ∃ depth, [Entry.indented depth "STYLE", Entry.indented (depth + 1) ("SYMBOL '" ++ name ++ "'")] <:+:
    lines

/-- The name in a line that could be the first one of a style: what stands in quotes after
`SYMBOL`. -/
def Entry.symbolOf? (line : String) : Option String :=
  let cs := line.toList.dropWhile (· = ' ')
  if cs.take 8 = "SYMBOL '".toList then some (String.ofList (cs.drop 8).dropLast) else none

/-- The indentation of a line does not change what it refers to. -/
@[simp] theorem Entry.symbolOf?_indented (depth : Nat) (text : String) :
    symbolOf? (indented depth text) = symbolOf? text := by
  have hblanks : (indented depth text).toList.dropWhile (· = ' ') =
      text.toList.dropWhile (· = ' ') := by
    rw [indented, String.toList_append, String.toList_ofList]
    exact List.dropWhile_append_of_pos (by simp)
  rw [symbolOf?, hblanks, symbolOf?]

/-- The first line of a style that is drawn with a symbol names the symbol. -/
@[simp] theorem Entry.symbolOf?_symbol (name : String) :
    symbolOf? ("SYMBOL '" ++ name ++ "'") = some name := by
  simp [symbolOf?]

/-- An entry none of whose lines could be the first one of a style with a symbol. -/
def Entry.Silent (entry : Entry) : Prop :=
  ∀ depth, (lines depth entry).filterMap symbolOf? = []

/-- Lines that stand together name the symbols that the lines of each entry name. -/
theorem Entry.filterMap_linesOfAll (depth : Nat) (entries : List Entry) :
    (linesOfAll depth entries).filterMap symbolOf? =
      entries.flatMap fun entry => (lines depth entry).filterMap symbolOf? := by
  induction entries with
  | nil => rfl
  | cons entry rest ih => rw [linesOfAll, List.filterMap_append, ih, List.flatMap_cons]

/-- Entries that are silent one by one. -/
def AllSilent (entries : List Entry) : Prop :=
  ∀ entry ∈ entries, entry.Silent

/-- An empty list of entries is silent. -/
@[simp] theorem allSilent_nil : AllSilent [] :=
  fun _ h => nomatch h

/-- Entries are silent when the first one and the rest are. -/
@[simp] theorem allSilent_cons {entry : Entry} {entries : List Entry} :
    AllSilent (entry :: entries) ↔ entry.Silent ∧ AllSilent entries :=
  List.forall_mem_cons

/-- Entries that stand together are silent when each part is. -/
@[simp] theorem allSilent_append {first second : List Entry} :
    AllSilent (first ++ second) ↔ AllSilent first ∧ AllSilent second :=
  List.forall_mem_append

/-- The lines of silent entries name no symbol. -/
theorem AllSilent.linesOfAll {entries : List Entry} (h : AllSilent entries) (depth : Nat) :
    (Entry.linesOfAll depth entries).filterMap Entry.symbolOf? = [] := by
  rw [Entry.filterMap_linesOfAll, List.flatMap_eq_nil_iff]
  exact fun entry hentry => h entry hentry depth

/-- An empty line is silent. -/
theorem Entry.Silent.blank : Entry.blank.Silent :=
  fun _ => rfl

/-- A directive is silent when its text does not name a symbol. -/
theorem Entry.Silent.ofText {words : List Word}
    (h : symbolOf? (" ".intercalate (words.map Word.written)) = none) :
    (Entry.directive words).Silent := by
  intro depth
  simp [lines, h]

/-- A block is silent when its keyword and the entries in it are. -/
theorem Entry.Silent.ofBody {keyword : String} {body : List Entry}
    (hkeyword : symbolOf? keyword = none) (hbody : AllSilent body) :
    (Entry.block keyword body).Silent := by
  intro depth
  have hend : symbolOf? "END" = none := by decide
  simp [lines, hkeyword, hbody.linesOfAll, hend]

/-- The directive for a value that may be absent is silent when it is for every value. -/
theorem AllSilent.optional {entry : String → Entry} (h : ∀ value, (entry value).Silent)
    (value : Option String) : AllSilent (Entry.optional entry value) := by
  cases value <;> simp [Entry.optional, h]

/-- Whether a keyword tells a line from the first one of a style, whatever follows it. -/
def isOtherKeyword (keyword : String) : Bool :=
  !keyword.toList.isPrefixOf "SYMBOL".toList && !"SYMBOL".toList.isPrefixOf keyword.toList &&
    keyword.toList.head? != some ' '

/-- A text that begins with a keyword other than `SYMBOL` names no symbol. -/
theorem Entry.symbolOf?_of_keyword {keyword : String} (h : isOtherKeyword keyword = true)
    (rest : String) : symbolOf? (keyword ++ rest) = none := by
  simp only [isOtherKeyword, Bool.and_eq_true, Bool.not_eq_true', bne_iff_ne, ← Bool.not_eq_true,
    List.isPrefixOf_iff_prefix] at h
  obtain ⟨⟨hshorter, hlonger⟩, hblank⟩ := h
  have hstart : (keyword ++ rest).toList.dropWhile (· = ' ') = keyword.toList ++ rest.toList := by
    cases hkeyword : keyword.toList with
    | nil => exact absurd (hkeyword ▸ List.nil_prefix) hshorter
    | cons c cs =>
      have hc : c ≠ ' ' := by simpa [hkeyword] using hblank
      rw [String.toList_append, hkeyword, List.cons_append,
        List.dropWhile_cons_of_neg (by simpa using hc)]
  rw [symbolOf?, hstart, if_neg]
  intro hsymbol
  have hsymbolPrefix : "SYMBOL".toList <+: keyword.toList ++ rest.toList :=
    List.IsPrefix.trans ⟨" '".toList, by rw [hsymbol]; rfl⟩ (List.take_prefix 8 _)
  rcases List.prefix_or_prefix_of_prefix hsymbolPrefix (List.prefix_append _ _) with hword | hword
  · exact hlonger hword
  · exact hshorter hword

/-- A directive is silent when its first word begins with a keyword other than `SYMBOL`. -/
theorem Entry.Silent.ofStart {keyword rest : String} {word : Word} {words : List Word}
    (h : isOtherKeyword keyword = true) (hword : word.written = keyword ++ rest) :
    (Entry.directive (word :: words)).Silent := by
  apply ofText
  cases words with
  | nil =>
    rw [List.map_singleton, String.intercalate_singleton, hword]
    exact symbolOf?_of_keyword h rest
  | cons next words =>
    rw [List.map_cons, List.map_cons, String.intercalate_cons_cons, hword, String.append_assoc,
      String.append_assoc]
    exact symbolOf?_of_keyword h _

/-- A directive with a keyword other than `SYMBOL` is silent. -/
theorem Entry.Silent.ofKeyword {keyword : String} {words : List Word}
    (h : isOtherKeyword keyword = true) : (Entry.directive (.bare keyword :: words)).Silent :=
  ofStart h String.append_empty.symm

/-- A directive that begins with a quoted text is silent. -/
theorem Entry.Silent.ofQuoted {text : String} {words : List Word} :
    (Entry.directive (.quoted text :: words)).Silent := by
  have hmark : isOtherKeyword "'" = true := by decide
  exact ofStart hmark String.append_assoc

/-- The text of the directive that refers to a symbol. -/
theorem Entry.written_symbol (name : String) :
    " ".intercalate ([Word.bare "SYMBOL", .quoted name].map Word.written) =
      "SYMBOL '" ++ name ++ "'" := by
  apply String.toList_inj.mp
  simp [Word.written]

/-- A directive that refers to a symbol names it in its line. -/
theorem Entry.mem_lines_of_reference? {entry : Entry} {name : String}
    (h : entry.reference? = some name) (depth : Nat) :
    name ∈ (lines depth entry).filterMap symbolOf? := by
  unfold reference? at h
  split at h
  · rw [lines, written_symbol, Option.some.inj h]
    simp
  · cases h

mutual

/-- What the styles in an entry refer to is named in its lines. -/
theorem Entry.mem_lines_of_mem_references {name : String} :
    ∀ (entry : Entry) (depth : Nat), name ∈ references entry →
      name ∈ (lines depth entry).filterMap symbolOf?
  | .blank, _, h => by simp [references] at h
  | .comment _, _, h => by simp [references] at h
  | .directive _, _, h => by simp [references] at h
  | .block keyword body, depth, h => by
    have hbody : name ∈ (linesOfAll (depth + 1) body).filterMap symbolOf? := by
      rw [references, List.mem_append] at h
      rcases h with h | h
      · split at h
        · obtain ⟨entry, hentry, hreference⟩ := List.mem_filterMap.mp h
          rw [filterMap_linesOfAll, List.mem_flatMap]
          exact ⟨entry, hentry, mem_lines_of_reference? hreference (depth + 1)⟩
        · cases h
      · exact mem_linesOfAll_of_mem_references body (depth + 1) h
    rw [lines, List.filterMap_cons, List.filterMap_append]
    split
    · exact List.mem_append_left _ hbody
    · exact List.mem_cons_of_mem _ (List.mem_append_left _ hbody)

/-- What the styles in entries refer to is named in their lines. -/
theorem Entry.mem_linesOfAll_of_mem_references {name : String} :
    ∀ (entries : List Entry) (depth : Nat), name ∈ referencesOfAll entries →
      name ∈ (linesOfAll depth entries).filterMap symbolOf?
  | [], _, h => by simp [referencesOfAll] at h
  | entry :: rest, depth, h => by
    rw [referencesOfAll, List.mem_append] at h
    rw [linesOfAll, List.filterMap_append, List.mem_append]
    exact h.imp (mem_lines_of_mem_references entry depth)
      (mem_linesOfAll_of_mem_references rest depth)

end

/-- Entries that stand together refer to what each of them refers to. -/
theorem Entry.referencesOfAll_append (first second : List Entry) :
    referencesOfAll (first ++ second) = referencesOfAll first ++ referencesOfAll second := by
  induction first with
  | nil => simp [referencesOfAll]
  | cons entry rest ih => simp [referencesOfAll, ih]

/-- Entries refer to the symbols with the names, in this order and no others, whether the references
are read off the styles among them or off their lines. -/
structure Refer (entries : List Entry) (names : List String) : Prop where
  /-- The styles refer to the names. -/
  references : Entry.referencesOfAll entries = names
  /-- Only lines that refer to the names could be the first ones of styles. -/
  named : ∀ depth, (Entry.linesOfAll depth entries).filterMap Entry.symbolOf? = names
  /-- The lines that refer to the names are the first ones of styles. -/
  drawn : ∀ depth, ∀ name ∈ names, DrawWith (Entry.linesOfAll depth entries) name

/-- The lines of entries draw with the symbols that their styles refer to, and with no others. -/
theorem Refer.drawWith_iff {entries : List Entry} {names : List String} (h : Refer entries names)
    (depth : Nat) (name : String) :
    name ∈ Entry.referencesOfAll entries ↔ DrawWith (Entry.linesOfAll depth entries) name := by
  rw [h.references]
  constructor
  · exact h.drawn depth name
  · rintro ⟨outer, hlines⟩
    have hline := hlines.subset (List.mem_cons_of_mem _ (List.mem_singleton_self _))
    rw [← h.named depth, List.mem_filterMap]
    exact ⟨_, hline, by simp⟩

/-- Lines draw with a symbol when some of them do. -/
theorem DrawWith.mono {lines more : List String} {name : String} (h : DrawWith lines name)
    (hlines : lines <:+: more) : DrawWith more name := by
  obtain ⟨depth, hinside⟩ := h
  exact ⟨depth, hinside.trans hlines⟩

/-- Silent entries refer to nothing. -/
theorem Refer.of_silent {entries : List Entry} (h : AllSilent entries) : Refer entries [] := by
  refine ⟨?_, h.linesOfAll, fun _ _ hname => nomatch hname⟩
  rw [List.eq_nil_iff_forall_not_mem]
  intro name hname
  have hmem := Entry.mem_linesOfAll_of_mem_references entries 0 hname
  rw [h.linesOfAll] at hmem
  cases hmem

/-- Entries that stand together refer to the symbols of each, one after the other. -/
theorem Refer.append {first second : List Entry} {names others : List String}
    (hfirst : Refer first names) (hsecond : Refer second others) :
    Refer (first ++ second) (names ++ others) where
  references := by rw [Entry.referencesOfAll_append, hfirst.references, hsecond.references]
  named depth := by
    rw [Entry.linesOfAll_append, List.filterMap_append, hfirst.named, hsecond.named]
  drawn depth name hname := by
    rw [Entry.linesOfAll_append]
    rcases List.mem_append.mp hname with hname | hname
    · exact (hfirst.drawn depth name hname).mono (List.prefix_append _ _).isInfix
    · exact (hsecond.drawn depth name hname).mono (List.suffix_append _ _).isInfix

/-- Entries after a silent one refer to what they refer to without it. -/
theorem Refer.cons {entry : Entry} {rest : List Entry} {names : List String} (hentry : entry.Silent)
    (hrest : Refer rest names) : Refer (entry :: rest) names :=
  (Refer.of_silent (allSilent_cons.mpr ⟨hentry, allSilent_nil⟩)).append hrest

/-- A block that is no style refers to what is in it. -/
theorem Refer.block {keyword : String} {body : List Entry} {names : List String}
    (hstyle : keyword ≠ "STYLE") (hkeyword : Entry.symbolOf? keyword = none)
    (hbody : Refer body names) : Refer [.block keyword body] names where
  references := by
    simp [Entry.referencesOfAll, Entry.references, hstyle, hbody.references]
  named depth := by
    have hend : Entry.symbolOf? "END" = none := by decide
    simp [Entry.linesOfAll, Entry.lines, hkeyword, hend, hbody.named]
  drawn depth name hname := by
    refine (hbody.drawn (depth + 1) name hname).mono ⟨[Entry.indented depth keyword],
      [Entry.indented depth "END"], ?_⟩
    simp [Entry.linesOfAll, Entry.lines]

/-- A style refers to the symbol in its first line, when its other lines are silent. -/
theorem Refer.style {rest : List Entry} (name : String) (hrest : AllSilent rest) :
    Refer [.block "STYLE" (.directive [.bare "SYMBOL", .quoted name] :: rest)] [name] := by
  have hsilent := Refer.of_silent hrest
  have hlines (depth : Nat) : Entry.linesOfAll depth
      [.block "STYLE" (.directive [.bare "SYMBOL", .quoted name] :: rest)] =
        [Entry.indented depth "STYLE", Entry.indented (depth + 1) ("SYMBOL '" ++ name ++ "'")] ++
          (Entry.linesOfAll (depth + 1) rest ++ [Entry.indented depth "END"]) := by
    simp only [Entry.linesOfAll, Entry.lines, Entry.written_symbol, List.append_nil, List.cons_append,
      List.nil_append]
  constructor
  · have hnone : rest.filterMap Entry.reference? = [] := by
      rw [List.filterMap_eq_nil_iff]
      intro entry hentry
      by_contra hsome
      obtain ⟨other, hother⟩ := Option.ne_none_iff_exists'.mp hsome
      have hmem := Entry.mem_lines_of_reference? hother 0
      rw [hrest entry hentry 0] at hmem
      cases hmem
    simp [Entry.referencesOfAll, Entry.references, Entry.reference?, hnone, hsilent.references]
  · intro depth
    have hends : Entry.symbolOf? "STYLE" = none ∧ Entry.symbolOf? "END" = none := by
      decide
    rw [hlines, List.filterMap_append, List.filterMap_append, hsilent.named]
    simp [hends.1, hends.2]
  · intro depth other hother
    obtain rfl := List.mem_singleton.mp hother
    rw [hlines]
    exact ⟨depth, (List.prefix_append _ _).isInfix⟩

/-- The labels of a class refer to nothing. -/
theorem allSilent_labelEntries (labelling : Option Labelling) :
    AllSilent (labelEntries labelling) := by
  cases labelling with
  | none => exact allSilent_nil
  | some labelling =>
    rw [labelEntries, allSilent_cons]
    refine ⟨.ofBody rfl ?_, allSilent_nil⟩
    simp only [allSilent_append, allSilent_cons, allSilent_nil, and_true]
    exact ⟨⟨⟨.ofKeyword rfl, .ofKeyword rfl, .ofKeyword rfl⟩,
      .optional (fun _ => .ofKeyword rfl) _⟩, .optional (fun _ => .ofKeyword rfl) _⟩

/-- A style refers to the symbol that it is drawn with. -/
theorem refer_of_styleBlock {geometry : Option Geometry} {style : Style} {set : SymbolSet}
    {written : Entry × SymbolSet} (h : styleBlock geometry style set = .ok written) :
    Refer [written.1] ((styleSymbols geometry style).map PointSymbol.name) := by
  unfold styleBlock at h
  obtain ⟨size, hsize, h⟩ := bind_eq_ok_iff.mp h
  obtain ⟨outline, _, h⟩ := bind_eq_ok_iff.mp h
  obtain ⟨fill, _, h⟩ := bind_eq_ok_iff.mp h
  obtain rfl := Except.ok.inj h
  have hsizeSilent : AllSilent size := by
    unfold sizeEntries at hsize
    split at hsize
    next =>
      obtain ⟨value, _, hsize⟩ := bind_eq_ok_iff.mp hsize
      obtain rfl := Except.ok.inj hsize
      rw [allSilent_cons]
      exact ⟨.ofKeyword rfl, allSilent_nil⟩
    next =>
      obtain rfl := Except.ok.inj hsize
      exact allSilent_nil
  have hrest : AllSilent (size ++
      [.setting "OUTLINECOLOR" outline.text, .setting "COLOR" fill.text]) := by
    simp only [allSilent_append, allSilent_cons, allSilent_nil, and_true]
    exact ⟨hsizeSilent, .ofKeyword rfl, .ofKeyword rfl⟩
  have hzero : (Entry.directive [.bare "SYMBOL", .bare "0"]).Silent := .ofText (by decide)
  rcases geometry with _ | (_ | _ | _)
  case some.point => exact .style (PointSymbol.ofStyle style).name hrest
  all_goals
    refine .of_silent (allSilent_cons.mpr ⟨.ofBody rfl ?_, allSilent_nil⟩)
    exact allSilent_cons.mpr ⟨hzero, hrest⟩

/-- A class refers to the symbol of its style. -/
theorem refer_of_classBlock {geometry : Option Geometry} {labelling : Option Labelling}
    {opening : List Entry} {style : Style} {set : SymbolSet} {written : Entry × SymbolSet}
    (hopening : AllSilent opening)
    (h : classBlock geometry labelling opening style set = .ok written) :
    Refer [written.1] ((styleSymbols geometry style).map PointSymbol.name) := by
  unfold classBlock at h
  obtain ⟨⟨block, after⟩, hblock, h⟩ := bind_eq_ok_iff.mp h
  obtain rfl := Except.ok.inj h
  have hbody := ((Refer.of_silent hopening).append (refer_of_styleBlock hblock)).append
    (.of_silent (allSilent_labelEntries labelling))
  rw [List.nil_append, List.append_nil] at hbody
  exact hbody.block (by decide) rfl

/-- Classes refer to the symbols of their styles, one after the other. -/
theorem refer_of_classBlocks {geometry : Option Geometry} {labelling : Option Labelling}
    {opening : StyledClass → Except Error (List Entry)} {classes : List StyledClass} {set : SymbolSet}
    {written : List Entry × SymbolSet}
    (hopening : ∀ styledClass entries, opening styledClass = .ok entries → AllSilent entries)
    (h : classBlocks geometry labelling opening classes set = .ok written) :
    Refer written.1
      (((classes.map (·.style)).flatMap (styleSymbols geometry)).map PointSymbol.name) := by
  induction classes generalizing set written with
  | nil =>
    obtain rfl := Except.ok.inj h
    exact .of_silent allSilent_nil
  | cons styledClass rest ih =>
    obtain ⟨entries, hentries, h⟩ := bind_eq_ok_iff.mp h
    obtain ⟨⟨block, after⟩, hblock, h⟩ := bind_eq_ok_iff.mp h
    obtain ⟨⟨blocks, last⟩, hblocks, h⟩ := bind_eq_ok_iff.mp h
    obtain rfl := Except.ok.inj h
    have hhead := refer_of_classBlock (hopening styledClass entries hentries) hblock
    rw [List.map_cons, List.flatMap_cons, List.map_append]
    exact hhead.append (ih hblocks)

/-- What begins a class of a graduation refers to nothing. -/
theorem allSilent_of_rangeOpening {field : String} {styledClass : StyledClass}
    {entries : List Entry} (h : rangeOpening field styledClass = .ok entries) :
    AllSilent entries := by
  obtain ⟨lower, _, h⟩ := bind_eq_ok_iff.mp h
  obtain ⟨upper, _, h⟩ := bind_eq_ok_iff.mp h
  obtain rfl := Except.ok.inj h
  simp only [allSilent_cons, allSilent_nil, and_true]
  exact ⟨.ofKeyword rfl, .ofKeyword rfl⟩

/-- What begins a class of unique values refers to nothing. -/
theorem allSilent_of_valueOpening {field : String} {styledClass : StyledClass}
    {entries : List Entry} (h : valueOpening field styledClass = .ok entries) :
    AllSilent entries := by
  obtain ⟨value, _, h⟩ := bind_eq_ok_iff.mp h
  obtain rfl := Except.ok.inj h
  simp only [allSilent_cons, allSilent_nil, and_true]
  exact ⟨.ofKeyword rfl, .ofKeyword rfl⟩

/-- A ramp refers to no symbol. -/
theorem silent_of_rampBlock {field : String} {lowest highest : StyledClass}
    {labelling : Option Labelling} {block : Entry}
    (h : rampBlock field lowest highest labelling = .ok block) : block.Silent := by
  unfold rampBlock at h
  simp only [bind_eq_ok_iff] at h
  obtain ⟨lowestFill, _, highestFill, _, lower, _, upper, _, outline, _, h⟩ := h
  obtain rfl := Except.ok.inj h
  refine .ofBody rfl ?_
  simp only [allSilent_append, allSilent_cons, allSilent_nil, and_true]
  refine ⟨⟨.ofBody rfl ?_, .ofBody rfl ?_⟩, allSilent_labelEntries labelling⟩ <;>
    simp only [allSilent_cons, allSilent_nil, and_true]
  · exact ⟨.ofKeyword rfl, .ofKeyword rfl, .ofKeyword rfl⟩
  · exact .ofKeyword rfl

/-- A renderer refers to the symbols of its styles. -/
theorem refer_of_rendererEntries {name : String} {geometry : Option Geometry}
    {labelling : Option Labelling} {renderer : Renderer} {set : SymbolSet}
    {written : List Entry × SymbolSet}
    (h : rendererEntries name geometry labelling renderer set = .ok written) :
    Refer written.1 ((renderer.styles.flatMap (styleSymbols geometry)).map PointSymbol.name) := by
  cases renderer with
  | single style =>
    obtain ⟨⟨block, after⟩, hblock, h⟩ := bind_eq_ok_iff.mp h
    obtain rfl := Except.ok.inj h
    have hname : AllSilent [.quotedSetting "NAME" name] :=
      allSilent_cons.mpr ⟨.ofKeyword rfl, allSilent_nil⟩
    simpa [Renderer.styles] using refer_of_classBlock hname hblock
  | graduated field classes =>
    obtain ⟨⟨blocks, after⟩, hblocks, h⟩ := bind_eq_ok_iff.mp h
    obtain rfl := Except.ok.inj h
    exact .cons (.ofKeyword rfl)
      (refer_of_classBlocks (fun _ _ => allSilent_of_rangeOpening) hblocks)
  | continuous field lowest highest =>
    obtain ⟨block, hblock, h⟩ := bind_eq_ok_iff.mp h
    obtain rfl := Except.ok.inj h
    exact .of_silent (allSilent_cons.mpr ⟨silent_of_rampBlock hblock, allSilent_nil⟩)
  | unique field classes =>
    obtain ⟨⟨blocks, after⟩, hblocks, h⟩ := bind_eq_ok_iff.mp h
    obtain rfl := Except.ok.inj h
    exact .cons (.ofKeyword rfl)
      (refer_of_classBlocks (fun _ _ => allSilent_of_valueOpening) hblocks)
  | absent =>
    obtain rfl := Except.ok.inj h
    exact .of_silent allSilent_nil

/-- What a connection is written as refers to nothing. -/
theorem allSilent_connectionEntries (connection : Connection) :
    AllSilent (connectionEntries connection) := by
  cases connection <;> simp only [connectionEntries, allSilent_cons, allSilent_nil, and_true]
  case postgis => exact ⟨.ofKeyword rfl, .ofKeyword rfl, .ofKeyword rfl⟩
  case wms =>
    refine ⟨.ofKeyword rfl, .ofKeyword rfl, .ofBody rfl ?_⟩
    simp only [allSilent_cons, allSilent_nil, and_true]
    exact ⟨.ofQuoted, .ofQuoted, .ofQuoted, .ofQuoted, .ofQuoted⟩
  case data => exact .ofKeyword rfl

/-- What a layer says before its classes refers to no symbol. -/
theorem allSilent_layerOpening (layer : Layer) : AllSilent (layerOpening layer) := by
  have hscale : AllSilent (scaleEntries layer.scaleRange) := by
    cases layer.scaleRange with
    | none => exact allSilent_nil
    | some range =>
      rw [scaleEntries, allSilent_append]
      exact ⟨.optional (fun _ => .ofKeyword rfl) _, .optional (fun _ => .ofKeyword rfl) _⟩
  have hlabelItem : AllSilent (labelItemEntries layer) := by
    unfold labelItemEntries
    split
    · split
      · exact allSilent_cons.mpr ⟨.ofKeyword rfl, allSilent_nil⟩
      · exact allSilent_nil
    · exact allSilent_nil
  have htitle : AllSilent [.pair "wms_title" layer.name] :=
    allSilent_cons.mpr ⟨.ofQuoted, allSilent_nil⟩
  have hprojection : (Projection.block layer.proj4).Silent := by
    refine .ofBody rfl ?_
    rw [AllSilent, List.forall_mem_map]
    exact fun _ _ => .ofQuoted
  simp only [layerOpening, allSilent_append, allSilent_cons, allSilent_nil, and_true]
  exact ⟨⟨⟨⟨⟨.ofKeyword rfl, .ofKeyword rfl⟩, hscale⟩, allSilent_connectionEntries layer.connection⟩,
    .ofBody rfl htitle, .ofKeyword rfl, .ofKeyword rfl, hprojection⟩, hlabelItem⟩

/-- A layer's block refers to the symbols of the layer's styles, in their order. -/
theorem refer_of_layerAlone {layer : Layer} {block : List Entry} (h : layerAlone layer = .ok block) :
    Refer block ((layerSymbols layer).map PointSymbol.name) := by
  obtain ⟨written, hwritten, rfl⟩ := map_eq_ok_iff.mp h
  obtain ⟨⟨entries, after⟩, hentries, hwritten⟩ := bind_eq_ok_iff.mp hwritten
  obtain rfl := Except.ok.inj hwritten
  have hbody := (Refer.of_silent (allSilent_layerOpening layer)).append
    (refer_of_rendererEntries hentries)
  have hblank : Refer [Entry.blank] [] := .of_silent (allSilent_cons.mpr ⟨.blank, allSilent_nil⟩)
  have hlayer : Refer [.block "LAYER" (layerOpening layer ++ entries)]
      ([] ++ (layerSymbols layer).map PointSymbol.name) := hbody.block (by decide) rfl
  simpa using hlayer.append hblank

end Carta.Mapfile
