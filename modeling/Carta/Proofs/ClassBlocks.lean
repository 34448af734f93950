import Carta.Proofs.Descriptors
import Carta.Proofs.LayerNeeds

/-!
# Classes are written one for one

A classification becomes the directive with its field and one block for each symbol child of its
descriptor, in the order of the children. What a block says is what its own child says: its bounds,
its label or the name made of its bounds, its colours, its symbol, and its size where the geometry
has one. Whether classes have labels is told by the label field of the layer alone, and the flag of
the layer decides about the directive with the field.
-/

namespace Carta

open Carta.Project (Colour DescriptorKind Geometry Labelling Layer Renderer Style StyledClass)
open Carta.Xml (Element)

namespace Mapfile

namespace Entry

/-- What a directive that begins with a keyword says. -/
def setting? (keyword : String) : Entry → Option String
  | .directive (.bare first :: words) =>
    if first = keyword then some (" ".intercalate (words.map Word.written)) else none
  | _ => none

/-- What is in a block with a keyword. -/
def body? (keyword : String) : Entry → Option (List Entry)
  | .block own body => if own = keyword then some body else none
  | _ => none

/-- What the directives with a keyword say, in order. -/
def settingsOf (keyword : String) (entries : List Entry) : List String :=
  entries.filterMap (setting? keyword)

/-- What is in the blocks with a keyword, in order. -/
def bodiesOf (keyword : String) (entries : List Entry) : List (List Entry) :=
  entries.filterMap (body? keyword)

section

variable (keyword own : String) (first second rest body : List Entry) (value : String)

/-- Entries that stand together have the settings of each. -/
@[simp] theorem settingsOf_append :
    settingsOf keyword (first ++ second) = settingsOf keyword first ++ settingsOf keyword second :=
  List.filterMap_append

/-- Entries that stand together have the blocks of each. -/
@[simp] theorem bodiesOf_append :
    bodiesOf keyword (first ++ second) = bodiesOf keyword first ++ bodiesOf keyword second :=
  List.filterMap_append

/-- There is no setting in an empty list of entries. -/
@[simp] theorem settingsOf_nil : settingsOf keyword [] = [] := rfl

/-- There is no block in an empty list of entries. -/
@[simp] theorem bodiesOf_nil : bodiesOf keyword [] = [] := rfl

/-- A block is no setting, whatever is in it. -/
@[simp] theorem settingsOf_block :
    settingsOf keyword (.block own body :: rest) = settingsOf keyword rest := rfl

/-- A block counts when it has the keyword. -/
@[simp] theorem bodiesOf_block : bodiesOf keyword (.block own body :: rest) =
    if own = keyword then body :: bodiesOf keyword rest else bodiesOf keyword rest := by
  by_cases h : own = keyword <;> simp [bodiesOf, body?, h]

/-- A setting counts when it has the keyword. -/
@[simp] theorem settingsOf_setting : settingsOf keyword (setting own value :: rest) =
    if own = keyword then value :: settingsOf keyword rest else settingsOf keyword rest := by
  by_cases h : own = keyword <;> simp [settingsOf, setting?, setting, Word.written, h]

/-- A quoted setting counts with its quotes when it has the keyword. -/
@[simp] theorem settingsOf_quotedSetting : settingsOf keyword (quotedSetting own value :: rest) =
    if own = keyword then ("'" ++ value ++ "'") :: settingsOf keyword rest
    else settingsOf keyword rest := by
  by_cases h : own = keyword <;> simp [settingsOf, setting?, quotedSetting, Word.written, h]

/-- A directive is no block. -/
@[simp] theorem bodiesOf_directive (words : List Word) :
    bodiesOf keyword (.directive words :: rest) = bodiesOf keyword rest := rfl

/-- A comment is no block. -/
@[simp] theorem bodiesOf_comment (text : String) :
    bodiesOf keyword (.comment text :: rest) = bodiesOf keyword rest := rfl

/-- An empty line is no block. -/
@[simp] theorem bodiesOf_blank : bodiesOf keyword (.blank :: rest) = bodiesOf keyword rest := rfl

/-- A setting is no block. -/
@[simp] theorem bodiesOf_setting :
    bodiesOf keyword (setting own value :: rest) = bodiesOf keyword rest := rfl

/-- A quoted setting is no block. -/
@[simp] theorem bodiesOf_quotedSetting :
    bodiesOf keyword (quotedSetting own value :: rest) = bodiesOf keyword rest := rfl

/-- A directive for a value that may be absent says that value. -/
@[simp] theorem settingsOf_optional (value : Option String) :
    settingsOf keyword (optional (setting own) value) =
      if own = keyword then value.toList else [] := by
  cases value <;> simp [optional]

/-- A setting that may be absent is no block. -/
@[simp] theorem bodiesOf_optional (value : Option String) :
    bodiesOf keyword (optional (setting own) value) = [] := by
  cases value <;> simp [optional]

/-- Blocks are no settings. -/
@[simp] theorem settingsOf_map_block (bodies : List (List Entry)) :
    settingsOf keyword (bodies.map (.block own)) = [] := by
  induction bodies with
  | nil => rfl
  | cons first rest ih => rw [List.map_cons, settingsOf_block, ih]

/-- What is put into blocks with a keyword is in them. -/
@[simp] theorem bodiesOf_map_block (bodies : List (List Entry)) :
    bodiesOf keyword (bodies.map (.block keyword)) = bodies := by
  induction bodies with
  | nil => rfl
  | cons first rest ih => rw [List.map_cons, bodiesOf_block, if_pos rfl, ih]

end

end Entry

/-- The label field that a layer names, if it is not blank. -/
def labelField? (layer : Element) : Option String :=
  ((((layer.find? "labelattributes").bind (·.find? "label")).bind (·.attribute? "field")).map
    Text.trim).filter (!·.isEmpty)

/-- Whether the flag of a layer asks for labels. -/
def asksForLabels (layer : Element) : Bool :=
  (layer.child? "label").bind Element.content? = some "1"

/-- The point symbol that a symbol element means: a circle where none is known by its identifier. -/
def meantSymbol (symbol : Element) : PointSymbol :=
  ((symbol.findContent? "pointsymbol").bind PointSymbol.ofIdentifier?).getD .circle

/-- A style block says what its symbol element says: its symbol if it is a point, its size if it is a
point or a line, and its colours. -/
structure IsStyleOf (geometry : Option Geometry) (symbol : Element) (style : List Entry) : Prop where
  reference : Entry.settingsOf "SYMBOL" style =
    [if geometry = some .point then "'" ++ (meantSymbol symbol).name ++ "'" else "0"]
  size : geometry = some .point ∨ geometry = some .line →
    ∃ size, symbol.findContent? "pointsize" = some size ∧ Entry.settingsOf "SIZE" style = [size]
  noSize : ¬ (geometry = some .point ∨ geometry = some .line) → Entry.settingsOf "SIZE" style = []
  outline : ∃ colour, Colour.within? "outlinecolor" symbol = .ok (some colour) ∧
    Entry.settingsOf "OUTLINECOLOR" style = [colour.text]
  fill : ∃ colour, Colour.within? "fillcolor" symbol = .ok (some colour) ∧
    Entry.settingsOf "COLOR" style = [colour.text]

/-- A class block has a name, a condition, the style of its symbol element, and labels exactly when
the layer has a label field. -/
structure HasParts (layer : Element) (geometry : Option Geometry) (symbol : Element)
    (name condition : String) (body : List Entry) : Prop where
  name : Entry.settingsOf "NAME" body = ["'" ++ name ++ "'"]
  condition : Entry.settingsOf "EXPRESSION" body = [condition]
  style : ∃ style, Entry.bodiesOf "STYLE" body = [style] ∧ IsStyleOf geometry symbol style
  label : (Entry.bodiesOf "LABEL" body).length = if (labelField? layer).isSome then 1 else 0

/-- A class block of a layer is that of its symbol element, in a classification by a field. -/
inductive IsClassOf (layer : Element) (geometry : Option Geometry) (field : String) :
    DescriptorKind → Element → List Entry → Prop
  | graduated {symbol : Element} {body : List Entry} {lower upper : String}
      (hlower : symbol.findContent? "lowervalue" = some lower)
      (hupper : symbol.findContent? "uppervalue" = some upper)
      (hparts : HasParts layer geometry symbol
        ((symbol.findContent? "label").getD (lower ++ " < " ++ field ++ " < " ++ upper))
        ("( ([" ++ field ++ "] >= " ++ lower ++ ") AND ([" ++ field ++ "] <= " ++ upper ++ ") )")
        body) : IsClassOf layer geometry field .graduated symbol body
  | unique {symbol : Element} {body : List Entry} {value : String}
      (hvalue : symbol.findContent? "lowervalue" = some value)
      (hparts : HasParts layer geometry symbol
        ((symbol.findContent? "label").getD (field ++ " = " ++ value)) ("'" ++ value ++ "'") body) :
      IsClassOf layer geometry field .unique symbol body

section Writers

variable {geometry : Option Geometry} {labelling : Option Labelling} {symbol : Element}
  {style : Style} {set : SymbolSet}

/-- The size of a style is written where the geometry has one. -/
theorem sizeEntries_eq_ok {entries : List Entry} (h : sizeEntries geometry style = .ok entries) :
    ((geometry = some .point ∨ geometry = some .line) ∧
      ∃ size, style.size = some size ∧ entries = [.setting "SIZE" size]) ∨
    (¬ (geometry = some .point ∨ geometry = some .line) ∧ entries = []) := by
  rw [sizeEntries, ← Geometry.any_hasSize_iff] at *
  split at h
  next hgeometry =>
    obtain ⟨size, hsize, h⟩ := bind_eq_ok_iff.mp h
    obtain rfl := Except.ok.inj h
    exact .inl ⟨hgeometry, size, require_eq_ok_iff.mp hsize, rfl⟩
  next hgeometry =>
    obtain rfl := Except.ok.inj h
    exact .inr ⟨hgeometry, rfl⟩

/-- A directive with one word after its keyword says that word. -/
theorem settingsOf_word (keyword own : String) (word : Word) (rest : List Entry) :
    Entry.settingsOf keyword (.directive [.bare own, word] :: rest) =
      if own = keyword then word.written :: Entry.settingsOf keyword rest
      else Entry.settingsOf keyword rest := by
  by_cases h : own = keyword <;> simp [Entry.settingsOf, Entry.setting?, h]

/-- The style of a symbol element is written as a block that says what the element says. -/
theorem isStyleOf_of_styleBlock {written : Entry × SymbolSet}
    (hstyle : Style.ofElement symbol = .ok style) (h : styleBlock geometry style set = .ok written) :
    ∃ body, written.1 = .block "STYLE" body ∧ IsStyleOf geometry symbol body := by
  obtain ⟨outline, houtline, hstyle⟩ := bind_eq_ok_iff.mp hstyle
  obtain ⟨fill, hfill, hstyle⟩ := bind_eq_ok_iff.mp hstyle
  obtain rfl := Except.ok.inj hstyle
  obtain ⟨size, hsize, h⟩ := bind_eq_ok_iff.mp h
  obtain ⟨outline', houtline', h⟩ := bind_eq_ok_iff.mp h
  obtain ⟨fill', hfill', h⟩ := bind_eq_ok_iff.mp h
  obtain rfl := Except.ok.inj h
  obtain rfl := require_eq_ok_iff.mp houtline'
  obtain rfl := require_eq_ok_iff.mp hfill'
  have hnone : ∀ keyword ≠ "SIZE", Entry.settingsOf keyword size = [] := by
    intro keyword hkeyword
    rcases sizeEntries_eq_ok hsize with ⟨-, value, -, rfl⟩ | ⟨-, rfl⟩
    · rw [Entry.settingsOf_setting, if_neg hkeyword.symm, Entry.settingsOf_nil]
    · rfl
  refine ⟨_, rfl, ?reference, ?size, ?noSize, ⟨outline', houtline, ?outline⟩, ⟨fill', hfill, ?fill⟩⟩
  case reference =>
    rcases geometry with _ | (_ | _ | _) <;>
      simp [settingsOf_word, hnone, Word.written, PointSymbol.ofStyle, meantSymbol]
  case size =>
    intro hgeometry
    rcases sizeEntries_eq_ok hsize with ⟨-, value, hvalue, rfl⟩ | ⟨hno, -⟩
    · exact ⟨value, hvalue, by simp [settingsOf_word]⟩
    · exact absurd hgeometry hno
  case noSize =>
    intro hgeometry
    rcases sizeEntries_eq_ok hsize with ⟨hyes, -⟩ | ⟨-, rfl⟩
    · exact absurd hyes hgeometry
    · simp [settingsOf_word]
  case outline => simp [settingsOf_word, hnone]
  case fill => simp [settingsOf_word, hnone]

/-- What begins a class: its name and its condition. -/
structure Begins (name condition : String) (opening : List Entry) : Prop where
  name : Entry.settingsOf "NAME" opening = ["'" ++ name ++ "'"]
  condition : Entry.settingsOf "EXPRESSION" opening = [condition]
  noBlock : ∀ keyword, Entry.bodiesOf keyword opening = []

/-- A layer is labelled by its label field, if it has one, and its flag is kept. -/
theorem labelling_ofLayer? (layer : Element) :
    (Labelling.ofLayer? layer).map (fun labelling => (labelling.field, labelling.enabled)) =
      (labelField? layer).map fun field => (field, asksForLabels layer) := by
  unfold Labelling.ofLayer? labelField?
  cases layer.find? "labelattributes" with
  | none => rfl
  | some attributes =>
    simp only [Option.bind_eq_bind, Option.bind_some]
    cases attributes.find? "label" with
    | none => rfl
    | some label =>
      simp only [Option.bind_some]
      cases label.attribute? "field" with
      | none => rfl
      | some field =>
        by_cases hempty : Text.trim field = "" <;>
          simp [Option.filter_some, hempty, asksForLabels]

/-- The labels of a class are a block. -/
theorem bodiesOf_labelEntries (keyword : String) (labelling : Option Labelling) :
    (Entry.bodiesOf keyword (labelEntries labelling)).length =
      if keyword = "LABEL" ∧ labelling.isSome then 1 else 0 := by
  cases labelling with
  | none => simp [labelEntries]
  | some labelling =>
    by_cases h : keyword = "LABEL"
    · simp [labelEntries, h]
    · simp [labelEntries, h, Ne.symm h]

/-- The block of labels is no setting. -/
theorem settingsOf_labelEntries (keyword : String) (labelling : Option Labelling) :
    Entry.settingsOf keyword (labelEntries labelling) = [] := by
  cases labelling <;> simp [labelEntries]

/-- A class of a symbol element is written as a block with all its parts. -/
theorem hasParts_of_classBlock {layer : Element} {name condition : String} {opening : List Entry}
    {written : Entry × SymbolSet} (hopening : Begins name condition opening)
    (hstyle : Style.ofElement symbol = .ok style)
    (h : classBlock geometry (Labelling.ofLayer? layer) opening style set = .ok written) :
    ∃ body, written.1 = .block "CLASS" body ∧ HasParts layer geometry symbol name condition body := by
  obtain ⟨⟨block, after⟩, hblock, h⟩ := bind_eq_ok_iff.mp h
  obtain rfl := Except.ok.inj h
  obtain ⟨style', hwritten, hsays⟩ := isStyleOf_of_styleBlock hstyle hblock
  dsimp only at hwritten
  obtain rfl := hwritten
  have hnoStyle : Entry.bodiesOf "STYLE" (labelEntries (Labelling.ofLayer? layer)) = [] :=
    List.length_eq_zero_iff.mp (by simp [bodiesOf_labelEntries])
  have hlabelled : (Labelling.ofLayer? layer).isSome = (labelField? layer).isSome := by
    simpa using congrArg Option.isSome (labelling_ofLayer? layer)
  refine ⟨_, rfl, ?name, ?condition, ⟨style', ?style, hsays⟩, ?label⟩
  case name => simp [hopening.name, settingsOf_labelEntries]
  case condition => simp [hopening.condition, settingsOf_labelEntries]
  case style => simp [hopening.noBlock, hnoStyle]
  case label => simp [hopening.noBlock, bodiesOf_labelEntries, hlabelled]

/-- Classes that are read of symbol elements are written as blocks, one for each, in order. -/
theorem forall₂_of_classBlocks {opening : StyledClass → Except Error (List Entry)}
    {Written : Element → List Entry → Prop}
    (hclass : ∀ symbol styledClass entries before written,
      StyledClass.ofElement symbol = .ok styledClass → opening styledClass = .ok entries →
      classBlock geometry labelling entries styledClass.style before = .ok written →
      ∃ body, written.1 = .block "CLASS" body ∧ Written symbol body)
    {symbols : List Element} {classes : List StyledClass} {written : List Entry × SymbolSet}
    (hread : List.Forall₂ (fun symbol styledClass => StyledClass.ofElement symbol = .ok styledClass)
      symbols classes)
    (h : classBlocks geometry labelling opening classes set = .ok written) :
    ∃ bodies, written.1 = bodies.map (.block "CLASS") ∧ List.Forall₂ Written symbols bodies := by
  induction hread generalizing set written with
  | nil =>
    obtain rfl := Except.ok.inj h
    exact ⟨[], rfl, .nil⟩
  | @cons symbol styledClass _ rest hfirst _ ih =>
    obtain ⟨entries, hentries, h⟩ := bind_eq_ok_iff.mp h
    obtain ⟨⟨block, between⟩, hblock, h⟩ := bind_eq_ok_iff.mp h
    obtain ⟨⟨blocks, after⟩, hblocks, h⟩ := bind_eq_ok_iff.mp h
    obtain rfl := Except.ok.inj h
    obtain ⟨body, hbody, hwritten⟩ := hclass symbol styledClass entries set _ hfirst hentries hblock
    obtain ⟨bodies, hbodies, hrest⟩ := ih hblocks
    dsimp only at hbody hbodies
    refine ⟨body :: bodies, ?_, .cons hwritten hrest⟩
    rw [hbody, hbodies, List.map_cons]

end Writers

section Openings

variable (name field lower upper value : String)

/-- A class of a graduation begins with its name and its range. -/
theorem begins_range : Begins name
    ("( ([" ++ field ++ "] >= " ++ lower ++ ") AND ([" ++ field ++ "] <= " ++ upper ++ ") )")
    [.quotedSetting "NAME" name, rangeExpression field lower upper] where
  name := by simp [rangeExpression, Entry.settingsOf, Entry.setting?, Entry.quotedSetting, Word.written]
  condition := by
    rw [Entry.settingsOf_quotedSetting, if_neg (by decide), rangeExpression]
    -- the line is the same text, divided into words at other places
    refine congrArg (fun text => [text]) (String.toList_injective ?_)
    simp [Word.written]
  noBlock keyword := by simp [rangeExpression]

/-- A class of unique values begins with its name and its value. -/
theorem begins_value : Begins name ("'" ++ value ++ "'")
    [.quotedSetting "NAME" name, .quotedSetting "EXPRESSION" value] where
  name := by simp
  condition := by simp
  noBlock keyword := by simp

end Openings

section Classification

variable {layer : Element} {geometry : Option Geometry} {field : String} {set : SymbolSet}
  {symbol : Element} {styledClass : StyledClass} {entries : List Entry} {written : Entry × SymbolSet}

/-- A class is read of its symbol element. -/
theorem styledClass_ofElement (h : StyledClass.ofElement symbol = .ok styledClass) :
    styledClass.lower = symbol.findContent? "lowervalue" ∧
    styledClass.upper = symbol.findContent? "uppervalue" ∧
    styledClass.label = symbol.findContent? "label" ∧
    Style.ofElement symbol = .ok styledClass.style := by
  obtain ⟨style, hstyle, h⟩ := bind_eq_ok_iff.mp h
  obtain rfl := Except.ok.inj h
  exact ⟨rfl, rfl, rfl, hstyle⟩

/-- A class of a graduation is that of its symbol element. -/
theorem isClassOf_graduated (hread : StyledClass.ofElement symbol = .ok styledClass)
    (hentries : rangeOpening field styledClass = .ok entries)
    (h : classBlock geometry (Labelling.ofLayer? layer) entries styledClass.style set =
      .ok written) :
    ∃ body, written.1 = .block "CLASS" body ∧
      IsClassOf layer geometry field .graduated symbol body := by
  obtain ⟨hlower, hupper, hlabel, hstyle⟩ := styledClass_ofElement hread
  obtain ⟨lower, hlower', hentries⟩ := bind_eq_ok_iff.mp hentries
  obtain ⟨upper, hupper', hentries⟩ := bind_eq_ok_iff.mp hentries
  obtain rfl := Except.ok.inj hentries
  have hopening := begins_range
    (styledClass.label.getD (lower ++ " < " ++ field ++ " < " ++ upper)) field lower upper
  obtain ⟨body, hbody, hparts⟩ := hasParts_of_classBlock hopening hstyle h
  rw [hlabel] at hparts
  exact ⟨body, hbody, .graduated (hlower ▸ require_eq_ok_iff.mp hlower')
    (hupper ▸ require_eq_ok_iff.mp hupper') hparts⟩

/-- A class of unique values is that of its symbol element. -/
theorem isClassOf_unique (hread : StyledClass.ofElement symbol = .ok styledClass)
    (hentries : valueOpening field styledClass = .ok entries)
    (h : classBlock geometry (Labelling.ofLayer? layer) entries styledClass.style set =
      .ok written) :
    ∃ body, written.1 = .block "CLASS" body ∧
      IsClassOf layer geometry field .unique symbol body := by
  obtain ⟨hlower, -, hlabel, hstyle⟩ := styledClass_ofElement hread
  obtain ⟨value, hvalue, hentries⟩ := bind_eq_ok_iff.mp hentries
  obtain rfl := Except.ok.inj hentries
  have hopening := begins_value (styledClass.label.getD (field ++ " = " ++ value)) value
  obtain ⟨body, hbody, hparts⟩ := hasParts_of_classBlock hopening hstyle h
  rw [hlabel] at hparts
  exact ⟨body, hbody, .unique (hlower ▸ require_eq_ok_iff.mp hvalue) hparts⟩

end Classification

/-- The directive with the label field is there when the labelling asks for labels. -/
theorem settingsOf_labelItemEntries {layer : Layer} {element : Element}
    (h : layer.labelling = Labelling.ofLayer? element) :
    Entry.settingsOf "LABELITEM" (labelItemEntries layer) =
      if asksForLabels element then
        (labelField? element).toList.map fun field => "'" ++ field ++ "'"
      else [] := by
  have hsame := labelling_ofLayer? element
  rw [labelItemEntries, h]
  cases hlabelling : Labelling.ofLayer? element with
  | none =>
    rw [hlabelling, Option.map_none, eq_comm, Option.map_eq_none_iff] at hsame
    simp [hsame]
  | some labelling =>
    rw [hlabelling, Option.map_some, eq_comm, Option.map_eq_some_iff] at hsame
    obtain ⟨field, hfield, hpair⟩ := hsame
    obtain ⟨rfl, hflag⟩ := Prod.mk.inj hpair
    rw [hfield, hflag]
    cases henabled : labelling.enabled <;> simp [henabled]

/-- The blocks before the entries of the renderer are those of metadata and that of the projection. -/
theorem bodiesOf_layerOpening {keyword : String} (h : keyword ≠ "METADATA") (layer : Layer) :
    Entry.bodiesOf keyword (layerOpening layer) =
      Entry.bodiesOf keyword [Projection.block layer.proj4] := by
  have hscale : Entry.bodiesOf keyword (scaleEntries layer.scaleRange) = [] := by
    cases layer.scaleRange <;> simp [scaleEntries]
  have hconnection : Entry.bodiesOf keyword (connectionEntries layer.connection) = [] := by
    cases layer.connection <;> simp [connectionEntries, h.symm]
  have hlabelItem : Entry.bodiesOf keyword (labelItemEntries layer) = [] := by
    rw [labelItemEntries]
    split
    next => split <;> simp
    next => simp
  simp [layerOpening, Projection.block, hscale, hconnection, hlabelItem, h.symm]

/-- The entries before those of the renderer hold no class and no field of a classification, and the
label field only where labels are asked for. -/
theorem layerOpening_parts (layer : Layer) :
    Entry.bodiesOf "CLASS" (layerOpening layer) = [] ∧
    Entry.settingsOf "CLASSITEM" (layerOpening layer) = [] ∧
    Entry.settingsOf "LABELITEM" (layerOpening layer) =
      Entry.settingsOf "LABELITEM" (labelItemEntries layer) := by
  have hclass : Entry.bodiesOf "CLASS" (layerOpening layer) = [] := by
    rw [bodiesOf_layerOpening (by decide)]
    simp [Projection.block]
  have hscale : Entry.settingsOf "CLASSITEM" (scaleEntries layer.scaleRange) = [] ∧
      Entry.settingsOf "LABELITEM" (scaleEntries layer.scaleRange) = [] := by
    cases layer.scaleRange <;> simp [scaleEntries]
  have hconnection : Entry.settingsOf "CLASSITEM" (connectionEntries layer.connection) = [] ∧
      Entry.settingsOf "LABELITEM" (connectionEntries layer.connection) = [] := by
    cases layer.connection <;> simp [connectionEntries]
  have hlabelItem : Entry.settingsOf "CLASSITEM" (labelItemEntries layer) = [] := by
    rw [labelItemEntries]
    split
    next => split <;> simp
    next => simp
  refine ⟨hclass, ?_⟩
  simp [layerOpening, Projection.block, hscale, hconnection, hlabelItem]

/-- What a layer's element tells about its renderer and its labels. -/
theorem layer_ofElement {element : Element} {index : Nat} {layer : Layer}
    (h : Layer.ofElement element index = .ok layer) :
    Renderer.ofLayer element = .ok layer.renderer ∧ layer.labelling = Labelling.ofLayer? element := by
  obtain ⟨name, -, h⟩ := bind_eq_ok_iff.mp h
  obtain ⟨kind, -, h⟩ := bind_eq_ok_iff.mp (inLayer_eq_ok_iff.mp h)
  obtain ⟨dataSource, -, h⟩ := bind_eq_ok_iff.mp h
  obtain ⟨connection, -, h⟩ := bind_eq_ok_iff.mp h
  obtain ⟨proj4, -, h⟩ := bind_eq_ok_iff.mp h
  obtain ⟨transparency, -, h⟩ := bind_eq_ok_iff.mp h
  obtain ⟨renderer, hrenderer, h⟩ := bind_eq_ok_iff.mp h
  obtain rfl := Except.ok.inj h
  exact ⟨hrenderer, rfl⟩

/-- The classification of a layer is written as the directive with its field and a block for each
symbol child of its descriptor, in order. -/
theorem forall₂_of_rendererEntries {element descriptor : Element} {kind : DescriptorKind}
    {renderer : Renderer} {name : String} {geometry : Option Geometry} {set : SymbolSet}
    {written : List Entry × SymbolSet} (hkind : kind = .graduated ∨ kind = .unique)
    (hread : Renderer.ofDescriptor element kind descriptor = .ok renderer)
    (h : rendererEntries name geometry (Labelling.ofLayer? element) renderer set = .ok written) :
    ∃ field bodies, renderer.field? = some field ∧
      written.1 = .quotedSetting "CLASSITEM" field :: bodies.map (.block "CLASS") ∧
      List.Forall₂ (IsClassOf element geometry field kind) (descriptor.childrenNamed "symbol")
        bodies := by
  rcases hkind with rfl | rfl
  · obtain ⟨field, -, hread⟩ := bind_eq_ok_iff.mp hread
    obtain ⟨classes, hclasses, hread⟩ := bind_eq_ok_iff.mp hread
    obtain rfl := Except.ok.inj hread
    obtain ⟨⟨blocks, after⟩, hblocks, h⟩ := bind_eq_ok_iff.mp h
    obtain rfl := Except.ok.inj h
    obtain ⟨bodies, rfl, hall⟩ := forall₂_of_classBlocks
      (fun _ _ _ _ _ => isClassOf_graduated) (mapM_eq_ok_iff.mp hclasses) hblocks
    exact ⟨field, bodies, rfl, rfl, hall⟩
  · obtain ⟨field, -, hread⟩ := bind_eq_ok_iff.mp hread
    obtain ⟨classes, hclasses, hread⟩ := bind_eq_ok_iff.mp hread
    obtain rfl := Except.ok.inj hread
    obtain ⟨⟨blocks, after⟩, hblocks, h⟩ := bind_eq_ok_iff.mp h
    obtain rfl := Except.ok.inj h
    obtain ⟨bodies, rfl, hall⟩ := forall₂_of_classBlocks
      (fun _ _ _ _ _ => isClassOf_unique) (mapM_eq_ok_iff.mp hclasses) hblocks
    exact ⟨field, bodies, rfl, rfl, hall⟩

/-- The text of a block is that of what is in it, between the lines that begin and end it. -/
theorem Entry.text_block (depth : Nat) (keyword : String) (body : List Entry) :
    text depth [.block keyword body] = textOfLines [indented depth keyword] ++
      text (depth + 1) body ++ textOfLines [indented depth "END"] := by
  rw [text, linesOfAll, linesOfAll, lines, List.append_nil, ← List.singleton_append,
    textOfLines_append, textOfLines_append, text, String.append_assoc]

/-- The text of blocks with a keyword is that of each of them, in order. -/
theorem Entry.text_blocks (depth : Nat) (keyword : String) (bodies : List (List Entry)) :
    text depth (bodies.map (.block keyword)) = String.join (bodies.map fun body =>
      textOfLines [indented depth keyword] ++ text (depth + 1) body ++
        textOfLines [indented depth "END"]) := by
  have hgroups : bodies.map (Entry.block keyword) =
      (bodies.map fun body => [Entry.block keyword body]).flatten := by
    induction bodies with
    | nil => rfl
    | cons first rest ih => rw [List.map_cons, List.map_cons, List.flatten_cons, ih]; rfl
  rw [hgroups, text_flatten, List.map_map]
  exact congrArg String.join (List.map_congr_left fun body _ => text_block depth keyword body)

/-- The text of a layer with a classification. -/
theorem text_layer (opening : List Entry) (field : String) (classes : List (List Entry)) :
    Entry.text 1 [.block "LAYER" (opening ++
        .quotedSetting "CLASSITEM" field :: classes.map (.block "CLASS")), .blank] =
      Entry.textOfLines ["  LAYER"] ++ Entry.text 2 opening ++
        Entry.textOfLines ["    CLASSITEM '" ++ field ++ "'"] ++
        String.join (classes.map fun body =>
          Entry.textOfLines ["    CLASS"] ++ Entry.text 3 body ++ Entry.textOfLines ["    END"]) ++
        Entry.textOfLines ["  END", ""] := by
  have hfield : Entry.text 2 [.quotedSetting "CLASSITEM" field] =
      Entry.textOfLines ["    CLASSITEM '" ++ field ++ "'"] := by
    refine congrArg (fun line => Entry.textOfLines [line]) (String.toList_injective ?_)
    simp [Entry.indented, Word.written]
  have hbody : Entry.text 2 (opening ++
      .quotedSetting "CLASSITEM" field :: classes.map (.block "CLASS")) =
      Entry.text 2 opening ++ (Entry.textOfLines ["    CLASSITEM '" ++ field ++ "'"] ++
        String.join (classes.map fun body =>
          Entry.textOfLines ["    CLASS"] ++ Entry.text 3 body ++
            Entry.textOfLines ["    END"])) := by
    rw [Entry.text_append, ← List.singleton_append, Entry.text_append, hfield,
      Entry.text_blocks 2 "CLASS" classes]
    rfl
  have hend : Entry.textOfLines ["  END"] ++ Entry.text 1 [.blank] =
      Entry.textOfLines ["  END", ""] := rfl
  rw [← List.singleton_append, Entry.text_append, Entry.text_block, hbody, ← hend]
  simp only [← String.append_assoc]
  rfl

/-- Classes are written one for one. Where the selected descriptor of a layer is a graduation or one
of unique values and the layer can be written, its block is the entries before those of the renderer,
the directive with the classification field and one class for each symbol child of the descriptor, in
the order of the children, each of them a class of its own child. The directive with the label field
is there exactly when the flag of the layer asks for labels and the layer has a label field. -/
theorem layerEntries_classes {element descriptor : Element} {index : Nat} {layer : Layer}
    {kind : DescriptorKind} {set : SymbolSet} {written : List Entry × SymbolSet}
    (hlayer : Layer.ofElement element index = .ok layer)
    (hselected : Renderer.IsSelected element kind descriptor)
    (hkind : kind = .graduated ∨ kind = .unique) (hwritten : layerEntries layer set = .ok written) :
    ∃ field body,
      (descriptor.findContent? "classificationattribute").or
        (element.findContent? "classificationattribute") = some field ∧
      written.1 = [.block "LAYER" body, .blank] ∧
      Entry.text 1 written.1 =
        Entry.textOfLines ["  LAYER"] ++ Entry.text 2 (layerOpening layer) ++
          Entry.textOfLines ["    CLASSITEM '" ++ field ++ "'"] ++
          String.join ((Entry.bodiesOf "CLASS" body).map fun body =>
            Entry.textOfLines ["    CLASS"] ++ Entry.text 3 body ++
              Entry.textOfLines ["    END"]) ++
          Entry.textOfLines ["  END", ""] ∧
      Entry.settingsOf "CLASSITEM" body = ["'" ++ field ++ "'"] ∧
      List.Forall₂ (IsClassOf element layer.geometry? field kind)
        (descriptor.childrenNamed "symbol") (Entry.bodiesOf "CLASS" body) ∧
      Entry.settingsOf "LABELITEM" body =
        if asksForLabels element then
          (labelField? element).toList.map fun field => "'" ++ field ++ "'"
        else [] := by
  obtain ⟨hrenderer, hlabelling⟩ := layer_ofElement hlayer
  rw [hselected.ofLayer_eq] at hrenderer
  obtain ⟨⟨entries, after⟩, hentries, hwritten⟩ := bind_eq_ok_iff.mp hwritten
  obtain rfl := Except.ok.inj hwritten
  rw [hlabelling] at hentries
  obtain ⟨field, bodies, hfield, hwritten, hclasses⟩ :=
    forall₂_of_rendererEntries hkind hrenderer hentries
  dsimp only at hwritten
  obtain rfl := hwritten
  obtain ⟨hnoClass, hnoField, hlabelItem⟩ := layerOpening_parts layer
  have hne : kind ≠ .single := by rcases hkind with rfl | rfl <;> decide
  have hsource := (Renderer.kind?_of_ofDescriptor hrenderer).2 hne
  have hbodies : Entry.bodiesOf "CLASS" (layerOpening layer ++
      .quotedSetting "CLASSITEM" field :: bodies.map (.block "CLASS")) = bodies := by
    simp [hnoClass]
  refine ⟨field, _, hsource.symm.trans hfield, rfl, ?text, ?field, ?classes, ?labelItem⟩
  case text =>
    rw [hbodies]
    exact text_layer (layerOpening layer) field bodies
  case field => simp [hnoField]
  case classes => rwa [hbodies]
  case labelItem => simp [hlabelItem, settingsOf_labelItemEntries hlabelling]

/-- A graduation by the flow of a spring, in two classes. -/
def springGraduation : Element where
  name := "graduatedsymbol"
  children :=
    [textElement "classificationattribute" "flow", symbolElement "hard:star" "0" "5",
      symbolElement "hard:triangle" "5" "9"]

/-- A layer of springs with a label field, whose flag does not ask for labels. -/
def labelledSprings : Element :=
  let springs := pointLayerElement "springs" springGraduation
  let labels : Element := { name := "label", attributes := [("field", "name")] }
  { springs with
    children := textElement "label" "0" :: { name := "labelattributes", children := [labels] } ::
      springs.children }

/-- The springs are written with their two classes and without their label field. -/
theorem labelledSprings_classes :
    ∃ layer written body, Layer.ofElement labelledSprings 0 = .ok layer ∧
      layerEntries layer {} = .ok written ∧ written.1 = [.block "LAYER" body, .blank] ∧
      Entry.settingsOf "CLASSITEM" body = ["'flow'"] ∧
      List.Forall₂ (IsClassOf labelledSprings (some .point) "flow" .graduated)
        [symbolElement "hard:star" "0" "5", symbolElement "hard:triangle" "5" "9"]
        (Entry.bodiesOf "CLASS" body) ∧
      Entry.settingsOf "LABELITEM" body = [] := by
  have hok : (Layer.ofElement labelledSprings 0 >>= fun layer => layerEntries layer {}).isOk = true := by
    decide
  obtain ⟨written, h⟩ := exists_eq_ok_of_isOk hok
  obtain ⟨layer, hlayer, hwritten⟩ := bind_eq_ok_iff.mp h
  have hgeometry : layer.geometry? = some .point := by
    have hsame : (Layer.ofElement labelledSprings 0).map Layer.geometry? = .ok (some .point) := by decide
    rw [hlayer] at hsame
    exact Except.ok.inj hsame
  obtain ⟨field, body, hfield, hbody, -, hitem, hclasses, hlabelItem⟩ :=
    layerEntries_classes hlayer (Renderer.descriptor?_eq_some_iff.mp (by rfl)) (.inl rfl) hwritten
  obtain rfl : "flow" = field := Option.some.inj ((by decide : _ = some "flow").symm.trans hfield)
  rw [hgeometry] at hclasses
  exact ⟨layer, written, body, hlayer, hwritten, hbody, hitem, hclasses, hlabelItem⟩

end Mapfile

end Carta
