import Carta.Mapfile.Layer
import Carta.Proofs.Outcome

/-!
# The symbols in use are only added to

The symbols in use are handed through layers, classes and styles. Nothing that is written depends on
them: each writer gives the same entries whatever symbols were in use before, and adds symbols that
only its own styles decide. So the blocks of layers can be written apart from one another, and the
symbols in use after them are those of all their styles.
-/

namespace Carta

open Carta.Project (Geometry Labelling Layer Renderer Style StyledClass)

/-- The styles of the classes of a renderer. A ramp has colours but no style of its own. -/
def Project.Renderer.styles : Renderer → List Style
  | .single style => [style]
  | .graduated _ classes => classes.map (·.style)
  | .continuous _ _ _ => []
  | .unique _ classes => classes.map (·.style)
  | .absent => []

namespace Mapfile

variable {A : Type}

/-- The symbols that a style is drawn with: one for a point, none for any other geometry. -/
def styleSymbols (geometry : Option Geometry) (style : Style) : List PointSymbol :=
  if geometry = some .point then [PointSymbol.ofStyle style] else []

/-- The symbols of a layer's styles, one for each style of a point layer. -/
def layerSymbols (layer : Layer) : List PointSymbol :=
  layer.renderer.styles.flatMap (styleSymbols layer.geometry?)

namespace SymbolSet

/-- The set with all symbols of a list in it. -/
def insertAll (set : SymbolSet) (symbols : List PointSymbol) : SymbolSet :=
  symbols.foldl insert set

/-- Adding no symbols changes nothing. -/
@[simp] theorem insertAll_nil (set : SymbolSet) : set.insertAll [] = set := rfl

/-- Adding two lists is adding the one after the other. -/
theorem insertAll_append (set : SymbolSet) (first second : List PointSymbol) :
    set.insertAll (first ++ second) = (set.insertAll first).insertAll second :=
  List.foldl_append

/-- The symbols in use are those that were added, in the order of all symbols. -/
theorem symbols_insertAll_empty (added : List PointSymbol) :
    (insertAll {} added).symbols = PointSymbol.all.filter (· ∈ added) := by
  -- the induction is on what is still to be added, for a set that holds what was seen before
  suffices hset : ∀ (set : SymbolSet) (seen : List PointSymbol),
      set.symbols = PointSymbol.all.filter (· ∈ seen) →
      (set.insertAll added).symbols = PointSymbol.all.filter (· ∈ seen ++ added) from
    hset {} [] (by simp)
  induction added with
  | nil =>
    intro set seen h
    simpa using h
  | cons first rest ih =>
    intro set seen h
    have hfirst : (set.insert first).symbols = PointSymbol.all.filter (· ∈ seen ++ [first]) := by
      simp only [insert, h]
      apply List.filter_congr
      intro symbol hsymbol
      simp [hsymbol]
    have hrest := ih (set.insert first) (seen ++ [first]) hfirst
    rwa [List.append_assoc] at hrest

end SymbolSet

/-- A writer gives the same whatever symbols are in use, and puts certain symbols into use. -/
def Adds (write : SymbolSet → Except Error (A × SymbolSet)) (added : List PointSymbol) : Prop :=
  ∀ set, write set = (write {}).map fun written => (written.1, set.insertAll added)

/-- A style refers to its symbol in the same way whatever symbols are in use, and uses it. -/
theorem refer_eq (set : SymbolSet) (geometry : Option Geometry) (style : Style) :
    set.refer geometry style =
      ((({} : SymbolSet).refer geometry style).1, set.insertAll (styleSymbols geometry style)) := by
  rcases geometry with _ | (_ | _ | _) <;> rfl

/-- A writer that is followed by another adds the symbols of both. -/
theorem Adds.andThen {B : Type} {write : SymbolSet → Except Error (A × SymbolSet)}
    {next : A → SymbolSet → Except Error (B × SymbolSet)} {first second : List PointSymbol}
    (h : Adds write first) (hnext : ∀ a, Adds (next a) second) :
    Adds (fun set => write set >>= fun written => next written.1 written.2) (first ++ second) := by
  intro set
  simp only [SymbolSet.insertAll_append]
  rw [h set]
  cases hwrite : write {} with
  | error e => rfl
  | ok written =>
    change next written.1 (set.insertAll first) = (next written.1 written.2).map _
    rw [hnext written.1 (set.insertAll first), hnext written.1 written.2, map_map_outcome]
    rfl

/-- Changing what a writer gives adds no symbol. -/
theorem Adds.map {B : Type} {write : SymbolSet → Except Error (A × SymbolSet)}
    {added : List PointSymbol} (h : Adds write added) (f : A → B) :
    Adds (fun set => write set >>= fun written => pure (f written.1, written.2)) added := by
  intro set
  change (write set >>= _) = Except.map _ (write {} >>= _)
  rw [h set]
  cases write {} <;> rfl

/-- A check before a writer adds no symbol. -/
theorem Adds.after {B : Type} {write : B → SymbolSet → Except Error (A × SymbolSet)}
    {added : List PointSymbol} (check : Except Error B) (h : ∀ b, Adds (write b) added) :
    Adds (fun set => check >>= fun b => write b set) added := by
  intro set
  cases check with
  | error e => rfl
  | ok b => exact h b set

/-- The block of a style adds the symbol of the style. -/
theorem styleBlock_adds (geometry : Option Geometry) (style : Style) :
    Adds (styleBlock geometry style) (styleSymbols geometry style) := by
  intro set
  unfold styleBlock
  rw [refer_eq set]
  -- the checks that follow read the style alone, so they end in the same way on both sides
  cases sizeEntries geometry style with
  | error e => rfl
  | ok size =>
    cases style.requireOutline with
    | error e => rfl
    | ok outline => cases style.requireFill <;> rfl

/-- The block of a class adds the symbol of its style. -/
theorem classBlock_adds (geometry : Option Geometry) (labelling : Option Labelling)
    (opening : List Entry) (style : Style) :
    Adds (classBlock geometry labelling opening style) (styleSymbols geometry style) := by
  intro set
  unfold classBlock
  rw [styleBlock_adds geometry style set]
  cases styleBlock geometry style {} <;> rfl

/-- The blocks of classes add the symbols of their styles. -/
theorem classBlocks_adds (geometry : Option Geometry) (labelling : Option Labelling)
    (opening : StyledClass → Except Error (List Entry)) (classes : List StyledClass) :
    Adds (classBlocks geometry labelling opening classes)
      ((classes.map (·.style)).flatMap (styleSymbols geometry)) := by
  induction classes with
  | nil => exact fun set => rfl
  | cons styledClass rest ih =>
    exact Adds.after (opening styledClass) fun entries =>
      (classBlock_adds geometry labelling entries styledClass.style).andThen fun block =>
        ih.map (block :: ·)

/-- The entries of a renderer add the symbols of its styles. -/
theorem rendererEntries_adds (name : String) (geometry : Option Geometry)
    (labelling : Option Labelling) (renderer : Renderer) :
    Adds (rendererEntries name geometry labelling renderer)
      (renderer.styles.flatMap (styleSymbols geometry)) := by
  cases renderer with
  | single style =>
    rw [Renderer.styles, List.flatMap_singleton]
    exact (classBlock_adds geometry labelling [.quotedSetting "NAME" name] style).map ([·])
  | graduated field classes =>
    exact (classBlocks_adds geometry labelling (rangeOpening field) classes).map
      (Entry.quotedSetting "CLASSITEM" field :: ·)
  | continuous field lowest highest =>
    exact Adds.after (rampBlock field lowest highest labelling) fun block set => rfl
  | unique field classes =>
    exact (classBlocks_adds geometry labelling (valueOpening field) classes).map
      (Entry.quotedSetting "CLASSITEM" field :: ·)
  | absent => exact fun set => rfl

/-- The block of a layer is the same whatever symbols are in use. -/
theorem layerEntries_adds (layer : Layer) : Adds (layerEntries layer) (layerSymbols layer) := by
  intro set
  unfold layerEntries
  rw [rendererEntries_adds layer.name layer.geometry? layer.labelling layer.renderer set]
  cases rendererEntries layer.name layer.geometry? layer.labelling layer.renderer {} <;> rfl

/-- The entries that a layer becomes with no symbols in use before it. -/
def layerAlone (layer : Layer) : Except Error (List Entry) :=
  (layerEntries layer {}).map Prod.fst

/-- Layers become what each of them becomes alone, and use the symbols of all their styles. -/
theorem layersEntries_eq_mapM (layers : List Layer) (set : SymbolSet) :
    layersEntries layers set =
      (layers.mapM fun layer => inLayer layer.name (layerAlone layer)).map fun blocks =>
        (blocks.flatten, set.insertAll (layers.flatMap layerSymbols)) := by
  induction layers generalizing set with
  | nil => rfl
  | cons layer rest ih =>
    simp only [layersEntries, List.mapM_cons, List.flatMap_cons, SymbolSet.insertAll_append]
    rw [layerEntries_adds layer set, layerAlone]
    cases layerEntries layer {} with
    | error e => rfl
    | ok written =>
      change (layersEntries rest (set.insertAll (layerSymbols layer)) >>= _) = _
      rw [ih]
      cases hrest : rest.mapM fun layer => inLayer layer.name (layerAlone layer) with
      | error e => rfl
      | ok blocks => rfl

end Mapfile

end Carta
