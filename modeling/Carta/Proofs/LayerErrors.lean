import Carta.Proofs.MapfileParts

/-!
# Errors name the layer they are found in

What is read of a layer element fails only for a field of it, and knows no layer when it does. The
layer is put into the error where its name is known, which is by its name, or by its number when the
name itself is what is missing. So every error of a layer names that layer and no other one.
-/

namespace Carta

variable {A B : Type}

/-- An error about a field of a layer, or of no layer yet. -/
inductive Error.Placed (layer : Option String) : Error → Prop
  | missingField (field : String) : Placed layer (.missingField field layer)
  | invalidValue (field value : String) : Placed layer (.invalidValue field value layer)

/-- An error that knows no layer is given the one it is found in. -/
theorem Error.Placed.inLayer {e : Error} (h : e.Placed none) (name : String) :
    (e.inLayer name).Placed (some name) := by
  cases h with
  | missingField field => exact .missingField field
  | invalidValue field value => exact .invalidValue field value

/-- A reader that fails only for fields and knows no layer. -/
def FailsUnplaced (result : Except Error A) : Prop :=
  ∀ e, result = .error e → e.Placed none

namespace FailsUnplaced

/-- A success is no failure. -/
theorem ofOk (a : A) : FailsUnplaced (.ok a) :=
  fun _ h => nomatch h

/-- A missing field is a failure for that field. -/
theorem ofMissing (field : String) : FailsUnplaced (.error (.missing field) : Except Error A) := by
  rintro _ ⟨⟩
  exact .missingField field

/-- An invalid value is a failure for its field. -/
theorem ofInvalid (field value : String) :
    FailsUnplaced (.error (.invalid field value) : Except Error A) := by
  rintro _ ⟨⟩
  exact .invalidValue field value

/-- Requiring a field fails for that field. -/
theorem ofRequire (field : String) (value : Option A) : FailsUnplaced (require field value) := by
  cases value with
  | none => exact ofMissing field
  | some a => exact ofOk a

/-- Two steps fail as one of them does. -/
theorem andThen {first : Except Error A} {next : A → Except Error B} (hfirst : FailsUnplaced first)
    (hnext : ∀ a, FailsUnplaced (next a)) : FailsUnplaced (first >>= next) := by
  intro e h
  rcases bind_eq_error_iff.mp h with h | ⟨a, _, h⟩
  · exact hfirst e h
  · exact hnext a e h

/-- What cannot fail may follow a reader. -/
theorem thenOk {first : Except Error A} (hfirst : FailsUnplaced first) (f : A → B) :
    FailsUnplaced (first >>= fun a => .ok (f a)) :=
  hfirst.andThen fun a => ofOk (f a)

/-- What is read may be changed. -/
theorem map {result : Except Error A} (h : FailsUnplaced result) (f : A → B) :
    FailsUnplaced (result.map f) :=
  fun e herror => h e (map_eq_error_iff.mp herror)

/-- A traversal fails as one of its items does. -/
theorem mapM {f : A → Except Error B} (h : ∀ a, FailsUnplaced (f a)) (items : List A) :
    FailsUnplaced (items.mapM f) := by
  intro e herror
  obtain ⟨_, item, _, _, _, hitem⟩ := mapM_eq_error_iff.mp herror
  exact h item e hitem

end FailsUnplaced

namespace Project

open Carta.Xml (Element)

/-- A channel fails only for its attribute. -/
theorem Colour.channel_failsUnplaced (element : Element) (name : String) :
    FailsUnplaced (Colour.channel element name) := by
  refine (FailsUnplaced.ofRequire _ _).andThen fun value => ?_
  split
  · exact FailsUnplaced.ofOk _
  · exact FailsUnplaced.ofInvalid _ _

/-- A colour that may be absent fails only for its channels. -/
theorem Colour.within?_failsUnplaced (name : String) (element : Element) :
    FailsUnplaced (Colour.within? name element) := by
  unfold Colour.within?
  split
  · exact FailsUnplaced.ofOk _
  · apply FailsUnplaced.map
    exact (Colour.channel_failsUnplaced _ "red").andThen fun _ =>
      (Colour.channel_failsUnplaced _ "green").andThen fun _ =>
        (Colour.channel_failsUnplaced _ "blue").thenOk _

/-- A style fails only for fields of its symbol. -/
theorem Style.ofElement_failsUnplaced (symbol : Element) : FailsUnplaced (Style.ofElement symbol) :=
  (Colour.within?_failsUnplaced "outlinecolor" symbol).andThen fun _ =>
    (Colour.within?_failsUnplaced "fillcolor" symbol).thenOk _

/-- A class fails only for fields of its symbol. -/
theorem StyledClass.ofElement_failsUnplaced (symbol : Element) :
    FailsUnplaced (StyledClass.ofElement symbol) :=
  (Style.ofElement_failsUnplaced symbol).thenOk _

/-- A renderer fails only for fields of its layer. -/
theorem Renderer.ofLayer_failsUnplaced (layer : Element) : FailsUnplaced (Renderer.ofLayer layer) := by
  have hfield (descriptor : Element) : FailsUnplaced (classificationField descriptor layer) :=
    FailsUnplaced.ofRequire _ _
  have hclasses (descriptor : Element) : FailsUnplaced (classes descriptor) :=
    FailsUnplaced.mapM StyledClass.ofElement_failsUnplaced _
  have hendpoint (descriptor : Element) (name : String) : FailsUnplaced (endpoint descriptor name) :=
    (FailsUnplaced.ofRequire _ _).andThen StyledClass.ofElement_failsUnplaced
  unfold Renderer.ofLayer
  split
  next => exact FailsUnplaced.ofOk _
  next kind descriptor _ =>
    cases kind with
    | single =>
      exact (FailsUnplaced.ofRequire _ _).andThen fun symbol =>
        (Style.ofElement_failsUnplaced symbol).thenOk _
    | graduated => exact (hfield descriptor).andThen fun _ => (hclasses descriptor).thenOk _
    | continuous =>
      exact (hfield descriptor).andThen fun _ => (hendpoint descriptor _).andThen fun _ =>
        (hendpoint descriptor _).thenOk _
    | unique => exact (hfield descriptor).andThen fun _ => (hclasses descriptor).thenOk _

namespace Layer

/-- The kind of a layer fails only for its field. -/
theorem kindOf_failsUnplaced (element : Element) : FailsUnplaced (kindOf element) := by
  unfold kindOf
  split
  · refine (FailsUnplaced.ofRequire _ _).andThen fun geometry => ?_
    split
    · exact FailsUnplaced.ofOk _
    · exact FailsUnplaced.ofInvalid _ _
  · exact FailsUnplaced.ofOk _
  · exact FailsUnplaced.ofInvalid _ _
  · exact FailsUnplaced.ofMissing _

/-- A connection fails only for fields of its layer. -/
theorem connectionOf_failsUnplaced (element : Element) (kind : LayerKind) (provider : Provider)
    (dataSource : String) : FailsUnplaced (connectionOf element kind provider dataSource) := by
  have hsublayer (sublayer : Element) : FailsUnplaced (WmsSublayer.ofElement sublayer) :=
    (FailsUnplaced.ofRequire _ _).thenOk _
  unfold connectionOf
  split
  · exact FailsUnplaced.ofOk _
  · apply FailsUnplaced.map
    exact (FailsUnplaced.ofRequire _ _).andThen fun _ =>
      (FailsUnplaced.mapM hsublayer _).andThen fun _ =>
        (FailsUnplaced.ofRequire _ _).andThen fun _ => (FailsUnplaced.ofRequire _ _).thenOk _
  · exact FailsUnplaced.ofOk _

/-- The transparency of a layer fails only for its field. -/
theorem transparencyOf_failsUnplaced (element : Element) : FailsUnplaced (transparencyOf element) := by
  refine (FailsUnplaced.ofRequire _ _).andThen fun text => ?_
  split
  · exact FailsUnplaced.ofOk _
  · exact FailsUnplaced.ofInvalid _ _

/-- A layer that has a name fails only for its fields. -/
theorem ofNamedElement_failsUnplaced (element : Element) (name : String) :
    FailsUnplaced (ofNamedElement element name) :=
  (kindOf_failsUnplaced element).andThen fun kind =>
    (FailsUnplaced.ofRequire _ _).andThen fun dataSource =>
      (connectionOf_failsUnplaced element kind _ dataSource).andThen fun _ =>
        (FailsUnplaced.ofRequire _ _).andThen fun _ =>
          (transparencyOf_failsUnplaced element).andThen fun _ =>
            (Renderer.ofLayer_failsUnplaced element).thenOk _

/-- What the layer of an element is called in an error: its name, or its number where it has none. -/
def calledAt (element : Element) (index : Nat) : String :=
  (element.findContent? "layername").getD ("#" ++ toString (index + 1))

/-- A layer that cannot be read fails by a field of it, and the error names the layer. -/
theorem placed_of_ofElement {element : Element} {index : Nat} {e : Error}
    (h : ofElement element index = .error e) : e.Placed (some (calledAt element index)) := by
  rcases bind_eq_error_iff.mp h with h | ⟨name, hname, h⟩
  · obtain ⟨cause, hcause, rfl⟩ := inLayer_eq_error_iff.mp h
    obtain ⟨hnone, rfl⟩ := require_eq_error_iff.mp hcause
    rw [calledAt, hnone]
    exact .missingField "layername"
  · have hsome := require_eq_ok_iff.mp (inLayer_eq_ok_iff.mp hname)
    obtain ⟨cause, hcause, rfl⟩ := inLayer_eq_error_iff.mp h
    rw [calledAt, hsome]
    exact (ofNamedElement_failsUnplaced element name cause hcause).inLayer name

end Layer

end Project

end Carta
