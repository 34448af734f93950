import Carta.Proofs.WrittenMarkup
import Mathlib.Data.List.TakeWhile

/-!
# A document is read back from any way of writing it

A tree leaves much open in how it is written: the quotes, the spaces inside of tags, the form of an
element that is empty, the spelling of each character, and what stands between the markups. None of
it matters to the reader. An element, wherever it is written, comes to the same as adding it to the
tree that was read before; a tree that can be written at all is read back from everything that
spells it.
-/

namespace Carta.Xml

open Carta.Text.Utf8 (encode encodeChars decodeLenient_encode)

/-- A text without the character that no reference can spell. -/
def IsSpellable (s : String) : Prop :=
  ∀ c ∈ s.toList, c.toNat ≠ 0

section Attributes

/-- A value is read up to the quote that it began with. -/
theorem quotedValue_append (size : Nat) {value : String} {written : List UInt8}
    (h : WrittenValue value written) (rest : List UInt8) :
    ∃ spelling, Spells value.toList spelling ∧
      quotedValue size (written ++ rest) = .ok (encodeChars spelling, rest) := by
  cases h with
  | @quoted q spelling hq hspelling =>
    refine ⟨spelling, hspelling, ?_⟩
    have hsplit : (Extent.upTo q).split? () (encodeChars spelling ++ q :: rest) =
        some (encodeChars spelling, rest) :=
      Extent.split?_append _ (not_mem_spelling hspelling (.inl hq)) rfl rest
    rw [List.cons_append, List.cons_append, List.append_assoc, List.singleton_append, quotedValue,
      if_pos hq, hsplit]

/-- The key and the value of a written attribute are read, and what follows the value is left. -/
theorem RawAttribute.next?_append (size : Nat) {earlier : List RawAttribute}
    {key value : String} {spaces written : List UInt8} (hkey : IsName key) (hspaces : Spaces spaces)
    (hvalue : WrittenValue value written) (hnew : ∀ raw ∈ earlier, raw.key ≠ encode key)
    (rest : List UInt8) :
    ∃ position spelling, Spells value.toList spelling ∧
      RawAttribute.next? size earlier
        (spaces ++ encode key ++ Byte.equals :: written ++ rest) =
        .ok (some (⟨encode key, position, encodeChars spelling⟩, rest)) := by
  obtain ⟨spelling, hspelling, hread⟩ := quotedValue_append size hvalue rest
  obtain ⟨first, more, hbytes⟩ := List.exists_cons_of_ne_nil hkey.encode_ne_nil
  have hplain : ∀ b ∈ encode key, Byte.isSpace b = false ∧ isKeyByte b = true := by
    intro b hb
    have hname := hkey.bytes b hb
    have hne : b ≠ Byte.equals := by
      rintro rfl
      exact absurd hname (by decide)
    simp only [isNameByte, Bool.and_eq_true, Bool.not_eq_true'] at hname
    simp [isKeyByte, hne, hname.1]
  rw [hbytes, List.forall_mem_cons] at hplain
  have hquote : (written ++ rest).dropWhile Byte.isSpace = written ++ rest := by
    cases hvalue with
    | @quoted q _ hq _ =>
      refine List.dropWhile_cons_of_neg ?_
      simp only [Byte.isQuote, Bool.or_eq_true, beq_iff_eq] at hq
      rcases hq with rfl | rfl <;> decide
  have hstop : (Byte.equals :: (written ++ rest)).takeWhile isKeyByte = [] ∧
      (Byte.equals :: (written ++ rest)).dropWhile isKeyByte = Byte.equals :: (written ++ rest) ∧
      (Byte.equals :: (written ++ rest)).dropWhile Byte.isSpace = Byte.equals :: (written ++ rest) :=
    ⟨rfl, rfl, rfl⟩
  have hmore : ∀ b ∈ more, isKeyByte b = true := fun b hb => (hplain.2 b hb).2
  have hfind : earlier.find? (·.key = encode key) = none := by
    simpa using hnew
  refine ⟨size - ((more ++ Byte.equals :: (written ++ rest)).length + 1), spelling, hspelling, ?_⟩
  rw [hbytes] at hfind ⊢
  rw [List.append_assoc, List.append_assoc, List.cons_append, List.cons_append, RawAttribute.next?,
    List.dropWhile_append_of_pos hspaces, List.dropWhile_cons_of_neg (by simp [hplain.1.1])]
  dsimp only
  rw [List.takeWhile_append_of_pos hmore, List.dropWhile_append_of_pos hmore, hstop.1, hstop.2.1,
    hstop.2.2, afterEquals, if_pos rfl, List.append_nil]
  simp only [bind, Except.bind, hfind, hquote, hread, pure, Except.pure]

/-- A written attribute is decoded to its key and its value. -/
theorem RawAttribute.decode_spelled {key value : String} {spelling : List Char} (position : Nat)
    (hspelling : Spells value.toList spelling) (hvalue : IsSpellable value) :
    RawAttribute.decode ⟨encode key, position, encodeChars spelling⟩ = .ok (key, value) := by
  rw [RawAttribute.decode, Text.Utf8.decode_encodeChars]
  simp only [Except.mapError, bind, Except.bind, resolve_of_spells hspelling hvalue,
    decodeLenient_encode, pure, Except.pure]

/-- Written attributes with different keys are read in their order. -/
theorem attributesFrom_written {attributes : List (String × String)} {written spaces : List UInt8}
    (h : WrittenAttributes attributes written) (hspaces : Spaces spaces)
    (hentries : ∀ entry ∈ attributes, IsName entry.1 ∧ IsSpellable entry.2)
    (hkeys : (attributes.map (·.1)).Nodup) (size : Nat) {earlier : List RawAttribute}
    (hnew : ∀ raw ∈ earlier, ∀ key ∈ attributes.map (·.1), raw.key ≠ encode key) :
    attributesFrom size earlier (written ++ spaces) = .ok attributes := by
  induction h generalizing earlier with
  | nil =>
    have hnone : RawAttribute.next? size earlier spaces = .ok none := by
      rw [RawAttribute.next?, List.dropWhile_eq_nil_iff.mpr hspaces]
    rw [List.nil_append, attributesFrom, hnone]
  | @cons key value between written more rest _ hbetween hvalue _ ih =>
    rw [List.forall_mem_cons] at hentries
    rw [List.map_cons, List.nodup_cons] at hkeys
    simp only [List.map_cons, List.forall_mem_cons] at hnew
    obtain ⟨position, spelling, hspelling, hnext⟩ :=
      RawAttribute.next?_append size hentries.1.1 hbetween hvalue
        (fun raw hraw => (hnew raw hraw).1) (more ++ spaces)
    have hlater : ∀ raw ∈ earlier ++ [⟨encode key, position, encodeChars spelling⟩],
        ∀ other ∈ rest.map (·.1), raw.key ≠ encode other := by
      intro raw hraw other hother
      rcases List.mem_append.mp hraw with hraw | hraw
      · exact (hnew raw hraw).2 other hother
      · obtain rfl := List.mem_singleton.mp hraw
        intro hsame
        exact hkeys.1 (Text.Utf8.encode_injective hsame ▸ hother)
    rw [List.append_assoc, attributesFrom, hnext]
    simp only [RawAttribute.decode_spelled position hspelling hentries.1.2, Except.mapError, bind,
      Except.bind, ih hentries.2 hkeys.2 hlater, pure, Except.pure]

/-- The element that a written tag begins has the name and the attributes that are written. -/
theorem Tag.element_written {name : String} {attributes : List (String × String)}
    {written spaces : List UInt8} (h : WrittenAttributes attributes written)
    (hspaces : Spaces spaces)
    (hentries : ∀ entry ∈ attributes, IsName entry.1 ∧ IsSpellable entry.2)
    (hkeys : (attributes.map (·.1)).Nodup) :
    Tag.element ⟨encode name, written ++ spaces⟩ = .ok { name, attributes } := by
  rw [Tag.element, Tag.attributes,
    attributesFrom_written h hspaces hentries hkeys _ (fun _ hraw => absurd hraw List.not_mem_nil)]
  simp only [bind, Except.bind, decodeLenient_encode, pure, Except.pure]

end Attributes

mutual

/-- Whether an element can be written: its names are names, it has no key twice, and the characters
of its texts can be spelled. -/
def Element.Writable : Element → Prop
  | ⟨name, attributes, children, text⟩ =>
    IsName name ∧ (∀ entry ∈ attributes, IsName entry.1 ∧ IsSpellable entry.2) ∧
      (attributes.map (·.1)).Nodup ∧ IsSpellable text ∧ Element.AllWritable children

/-- Whether all elements can be written. -/
def Element.AllWritable : List Element → Prop
  | [] => True
  | element :: rest => Element.Writable element ∧ Element.AllWritable rest

end

instance : DecidablePred IsName := fun s =>
  decidable_of_iff (s ≠ "" ∧ s.toList.all isNameCharacter = true) (by simp [IsName])

instance : DecidablePred IsSpellable := fun s =>
  decidable_of_iff (s.toList.all (·.toNat != 0) = true) (by simp [IsSpellable])

mutual

/-- Whether an element can be written is decided part by part. -/
def Element.decidableWritable : (element : Element) → Decidable element.Writable
  | ⟨name, attributes, children, text⟩ =>
    have := Element.decidableAllWritable children
    inferInstanceAs (Decidable (IsName name ∧
      (∀ entry ∈ attributes, IsName entry.1 ∧ IsSpellable entry.2) ∧
      (attributes.map (·.1)).Nodup ∧ IsSpellable text ∧ Element.AllWritable children))

/-- Whether elements can be written is decided one by one. -/
def Element.decidableAllWritable :
    (elements : List Element) → Decidable (Element.AllWritable elements)
  | [] => inferInstanceAs (Decidable True)
  | element :: rest =>
    have := Element.decidableWritable element
    have := Element.decidableAllWritable rest
    inferInstanceAs (Decidable (element.Writable ∧ Element.AllWritable rest))

end

instance : DecidablePred Element.Writable := Element.decidableWritable

mutual

/-- What spells an element: an empty-element tag, or two tags with its text and its children
between them. -/
inductive WrittenElement : Element → List UInt8 → Prop
  | emptyElement {name : String} {attributes : List (String × String)}
      {written spaces : List UInt8} (hattributes : WrittenAttributes attributes written)
      (hspaces : Spaces spaces) :
      WrittenElement { name, attributes }
        (Byte.less :: encode name ++ (written ++ spaces) ++ [Byte.slash, Byte.greater])
  | tags {name : String} {attributes : List (String × String)} {children : List Element}
      {text : String} {written spaces run content closing : List UInt8}
      (hattributes : WrittenAttributes attributes written) (hspaces : Spaces spaces)
      (htext : WrittenText text run) (hchildren : WrittenChildren children content)
      (hclosing : Spaces closing) :
      WrittenElement ⟨name, attributes, children, text⟩
        (Byte.less :: encode name ++ (written ++ spaces) ++ Byte.greater ::
          (run ++ content ++
            (Byte.less :: Byte.slash :: encode name ++ closing ++ [Byte.greater])))

/-- What spells elements in a row, with gaps around each. -/
inductive WrittenChildren : List Element → List UInt8 → Prop
  | nil {gap : List UInt8} (hgap : Gap gap) : WrittenChildren [] gap
  | cons {element : Element} {rest : List Element} {gap written more : List UInt8}
      (hgap : Gap gap) (helement : WrittenElement element written)
      (hrest : WrittenChildren rest more) :
      WrittenChildren (element :: rest) (gap ++ written ++ more)

end

/-- What spells a document with the given root. -/
inductive WrittenDocument : Element → List UInt8 → Prop
  | root {root : Element} {before written after : List UInt8} (hbefore : Gap before)
      (hroot : WrittenElement root written) (hafter : Gap after) :
      WrittenDocument root (before ++ written ++ after)

section Reading

variable (source : Source)

/-- Reading goes on after a markup with what it comes to. -/
theorem readFrom_of_next? {progress after : Progress} {markup : Markup} {bytes rest : List UInt8}
    (hnext : Markup.next? source bytes = .ok (some (markup, rest)))
    (hread : progress.read markup = .ok after) :
    readFrom source progress bytes = readFrom source after rest := by
  rw [readFrom, hnext]
  dsimp only
  rw [hread]
  rfl

/-- Reading only depends on the markup that comes next. -/
theorem readFrom_congr (progress : Progress) {first second : List UInt8}
    (h : Markup.next? source first = Markup.next? source second) :
    readFrom source progress first = readFrom source progress second := by
  rw [readFrom, readFrom, h]

/-- Spaces before a markup do not matter. -/
theorem readFrom_spaces (progress : Progress) {spaces : List UInt8} (h : Spaces spaces)
    (rest : List UInt8) :
    readFrom source progress (spaces ++ rest) = readFrom source progress rest := by
  induction spaces with
  | nil => rfl
  | cons b spaces ih =>
    rw [Spaces, List.forall_mem_cons] at h
    exact (readFrom_congr source progress (next?_space source h.1 _)).trans (ih h.2)

/-- A gap between markups does not matter. -/
theorem readFrom_gap (progress : Progress) {gap : List UInt8} (h : Gap gap) (rest : List UInt8) :
    readFrom source progress (gap ++ rest) = readFrom source progress rest := by
  induction h with
  | nil => rfl
  | space hb _ ih => exact (readFrom_congr source progress (next?_space source hb _)).trans ih
  | comment hbody _ ih =>
    rw [List.append_assoc]
    refine (readFrom_of_next? source (next?_comment source (fun hend => ?_) _) rfl).trans ih
    exact (hbody Byte.greater (hend.subset (by simp))).2 rfl
  | @instruction body _ hbody _ ih =>
    rw [List.append_assoc]
    refine (readFrom_of_next? source (next?_instruction source (fun hend => ?_) _) rfl).trans ih
    rcases List.mem_cons.mp (hend.subset (List.mem_cons_of_mem _ List.mem_cons_self)) with h | h
    · exact absurd h (by decide)
    · exact (hbody Byte.greater h).2 rfl

/-- What a written element begins with. -/
theorem WrittenElement.exists_less {element : Element} {written : List UInt8}
    (h : WrittenElement element written) : ∃ more, written = Byte.less :: more := by
  cases h with
  | emptyElement => exact ⟨_, rfl⟩
  | tags => exact ⟨_, rfl⟩

/-- Before the next markup, a gap has spaces only. -/
theorem Gap.exists_less {gap : List UInt8} (h : Gap gap) (rest : List UInt8) :
    ∃ spaces more, Spaces spaces ∧ gap ++ Byte.less :: rest = spaces ++ Byte.less :: more := by
  induction h with
  | nil => exact ⟨[], rest, by simp [Spaces], rfl⟩
  | space hb _ ih =>
    obtain ⟨spaces, more, hspaces, hbytes⟩ := ih
    refine ⟨_ :: spaces, more, ?_, congrArg _ hbytes⟩
    rw [Spaces, List.forall_mem_cons]
    exact ⟨hb, hspaces⟩
  | comment => exact ⟨[], _, by simp [Spaces], rfl⟩
  | instruction => exact ⟨[], _, by simp [Spaces], rfl⟩

/-- Before the first child, or the closing tag, there are spaces only. -/
theorem WrittenChildren.exists_less {children : List Element} {content : List UInt8}
    (h : WrittenChildren children content) (rest : List UInt8) :
    ∃ spaces more, Spaces spaces ∧ content ++ Byte.less :: rest = spaces ++ Byte.less :: more := by
  cases h with
  | nil hgap => exact hgap.exists_less rest
  | cons hgap helement _ =>
    obtain ⟨more, rfl⟩ := helement.exists_less
    rw [List.append_assoc, List.append_assoc]
    exact hgap.exists_less _

/-- The text directly after an opening tag is added to the element that the tag begins. -/
theorem readFrom_text {text : String} {run content : List UInt8} {children : List Element}
    (htext : WrittenText text run) (hspellable : IsSpellable text)
    (hcontent : WrittenChildren children content) (names : List (List UInt8)) (element : Element)
    (outer : List Element) (root : Option Element) (rest : List UInt8) :
    readFrom source ⟨names, ⟨element :: outer, root⟩⟩ (run ++ content ++ Byte.less :: rest) =
      readFrom source ⟨names, ⟨{ element with text := element.text ++ text } :: outer, root⟩⟩
        (content ++ Byte.less :: rest) := by
  obtain ⟨spaces, more, hspaces, hbytes⟩ := hcontent.exists_less rest
  rw [List.append_assoc, hbytes]
  cases htext with
  | @spelled spelling hspelling hfirst hlast =>
    cases spelling with
    | nil =>
      cases hs : text.toList with
      | nil =>
        obtain rfl : text = "" := String.toList_eq_nil_iff.mp hs
        cases element
        rw [String.append_empty]
        rfl
      | cons c cs =>
        rw [hs] at hspelling
        cases hspelling
    | cons c cs =>
      have hne : encodeChars (c :: cs) ≠ [] := by
        rw [encodeChars, List.flatMap_cons]
        exact fun hnil => String.utf8EncodeChar_ne_nil (List.append_eq_nil_iff.mp hnil).1
      have hnext := next?_text source (.spelled hspelling hfirst hlast) hne hspaces more
      have hrun : textOfRun (encodeChars (c :: cs)) = .ok text := by
        rw [textOfRun, Text.Utf8.decode_encodeChars]
        simp only [Except.mapError, bind, Except.bind, resolve_of_spells hspelling hspellable]
      rw [← List.append_assoc, readFrom_spaces source _ hspaces]
      refine readFrom_of_next? source hnext ?_
      rw [Progress.read, hrun]
      rfl

mutual

/-- Reading a written element comes to adding it to the tree. -/
theorem readFrom_element (names : List (List UInt8)) (builder : Builder) :
    ∀ {element : Element} {written : List UInt8}, element.Writable →
      WrittenElement element written → ∀ rest,
        readFrom source ⟨names, builder⟩ (written ++ rest) =
          readFrom source ⟨names, builder.add element⟩ rest
  | ⟨name, attributes, children, text⟩, _, hwritable, hwritten, rest => by
    rw [Element.Writable] at hwritable
    obtain ⟨hname, hentries, hkeys, htext, hchildren⟩ := hwritable
    have hinner {inside spaces : List UInt8} (hinside : WrittenAttributes attributes inside)
        (hspaces : Spaces spaces) : Inner (inside ++ spaces) :=
      (Inner.of_attributes hinside fun entry hentry => (hentries entry hentry).1).append
        (.of_spaces hspaces)
    cases hwritten with
    | @emptyElement _ _ inside spaces hinside hspaces =>
      have hnext := next?_emptyElement source hname (hinner hinside hspaces)
        (hinside.afterName hspaces) rest
      have hbytes : Byte.less :: encode name ++ (inside ++ spaces) ++ [Byte.slash, Byte.greater] ++
          rest = Byte.less :: encode name ++ (inside ++ spaces) ++
            Byte.slash :: Byte.greater :: rest := by simp
      rw [hbytes]
      refine readFrom_of_next? source hnext ?_
      rw [Progress.read, Tag.element_written hinside hspaces hentries hkeys]
      rfl
    | @tags _ _ _ _ inside spaces run content closing hinside hspaces hrun hcontent hclosing =>
      have hbegin : Progress.read ⟨names, builder⟩ (.opening ⟨encode name, inside ++ spaces⟩) =
          .ok ⟨encode name :: names, ⟨{ name, attributes } :: builder.opened, builder.root⟩⟩ := by
        rw [Progress.read, Tag.element_written hinside hspaces hentries hkeys]
        rfl
      have hend : Progress.read ⟨encode name :: names,
          ⟨⟨name, attributes, [] ++ children, "" ++ text⟩ :: builder.opened, builder.root⟩⟩
          (.closing (encode name)) =
            .ok ⟨names, builder.add ⟨name, attributes, children, text⟩⟩ := by
        rw [List.nil_append, String.empty_append, Progress.read]
        exact if_pos rfl
      have hbytes : Byte.less :: encode name ++ (inside ++ spaces) ++ Byte.greater ::
          (run ++ content ++ (Byte.less :: Byte.slash :: encode name ++ closing ++ [Byte.greater])) ++
          rest = Byte.less :: encode name ++ (inside ++ spaces) ++ Byte.greater :: (run ++ content ++
            Byte.less :: (Byte.slash :: encode name ++ closing ++ Byte.greater :: rest)) := by simp
      rw [hbytes]
      calc
        _ = _ := readFrom_of_next? source (next?_opening source hname (hinner hinside hspaces)
          (hinside.afterName hspaces) _) hbegin
        _ = _ := readFrom_text source hrun htext hcontent _ _ _ _ _
        _ = _ := readFrom_children _ _ _ _ hchildren hcontent _
        _ = _ := readFrom_of_next? source (next?_closing source hname hclosing rest) hend

/-- Reading written elements in a row comes to adding them to the innermost open one. -/
theorem readFrom_children (names : List (List UInt8)) (parent : Element) (outer : List Element)
    (root : Option Element) :
    ∀ {children : List Element} {content : List UInt8}, Element.AllWritable children →
      WrittenChildren children content → ∀ rest,
        readFrom source ⟨names, ⟨parent :: outer, root⟩⟩ (content ++ rest) =
          readFrom source
            ⟨names, ⟨{ parent with children := parent.children ++ children } :: outer, root⟩⟩ rest
  | [], _, _, hwritten, rest => by
    cases hwritten with
    | nil hgap =>
      cases parent
      rw [readFrom_gap source _ hgap, List.append_nil]
  | element :: more, _, hwritable, hwritten, rest => by
    rw [Element.AllWritable] at hwritable
    cases hwritten with
    | cons hgap helement hmore =>
      rw [List.append_assoc, List.append_assoc, readFrom_gap source _ hgap,
        readFrom_element names _ hwritable.1 helement, Builder.add,
        readFrom_children names _ outer root hwritable.2 hmore]
      simp

end

end Reading

section Serializer

/-- A character as it may be written in every place. -/
def spellCharacter (c : Char) : List Char :=
  if isReserved c || c.isWhitespace then '&' :: '#' :: Nat.toDigits 10 c.toNat ++ [';'] else [c]

/-- A text as it may be written in every place. -/
def spell (s : String) : List Char :=
  s.toList.flatMap spellCharacter

/-- Attributes, each after one space and in double quotes. -/
def serializeAttributes (attributes : List (String × String)) : List UInt8 :=
  attributes.flatMap fun (key, value) =>
    0x20 :: encode key ++ Byte.equals :: Byte.quote :: encodeChars (spell value) ++ [Byte.quote]

mutual

/-- An element without any spaces between its parts. -/
def Element.serialize : Element → List UInt8
  | ⟨name, attributes, children, text⟩ =>
    Byte.less :: encode name ++ serializeAttributes attributes ++ Byte.greater ::
      (encodeChars (spell text) ++ Element.serializeAll children ++
        (Byte.less :: Byte.slash :: encode name ++ [Byte.greater]))

/-- Elements directly after each other. -/
def Element.serializeAll : List Element → List UInt8
  | [] => []
  | element :: rest => element.serialize ++ Element.serializeAll rest

end

/-- Characters are spelled by what may be written for each in every place. -/
theorem spells_flatMap (cs : List Char) : Spells cs (cs.flatMap spellCharacter) := by
  induction cs with
  | nil => exact .nil
  | cons c cs ih =>
    rw [List.flatMap_cons, spellCharacter]
    split
    next =>
      have href := Spells.reference (Designates.decimal c 0) ih
      simpa using href
    next h =>
      rw [Bool.or_eq_true, not_or, Bool.not_eq_true] at h
      exact .plain h.1 ih

/-- There is no blank in a text that is written as it may be everywhere. -/
theorem isWhitespace_of_mem_spell {s : String} {c : Char} (h : c ∈ spell s) :
    c.isWhitespace = false := by
  obtain ⟨d, -, hd⟩ := List.mem_flatMap.mp h
  rw [spellCharacter] at hd
  split at hd
  next =>
    simp only [List.cons_append, List.mem_cons, List.mem_append, List.not_mem_nil, or_false] at hd
    rcases hd with rfl | rfl | hd | rfl
    · decide
    · decide
    · have hdigit := Nat.isDigit_of_mem_toDigits (by decide) (by decide) hd
      cases hblank : c.isWhitespace with
      | false => rfl
      | true =>
        simp only [Char.isWhitespace, Bool.or_eq_true, decide_eq_true_eq] at hblank
        rcases hblank with ((rfl | rfl) | rfl) | rfl <;> exact absurd hdigit (by decide)
    · decide
  next hplain =>
    rw [Bool.or_eq_true, not_or, Bool.not_eq_true, Bool.not_eq_true] at hplain
    rw [List.mem_singleton.mp hd]
    exact hplain.2

/-- There is no space among its bytes. -/
theorem isSpace_of_mem_spell {s : String} {b : UInt8} (h : b ∈ encodeChars (spell s)) :
    Byte.isSpace b = false := by
  cases hspace : Byte.isSpace b with
  | false => rfl
  | true =>
    have hblank : b.toNat < 0x80 ∧ (Char.ofNat b.toNat).isWhitespace = true := by
      simp only [Byte.isSpace, Bool.or_eq_true, beq_iff_eq] at hspace
      rcases hspace with ((rfl | rfl) | rfl) | rfl <;> decide
    obtain ⟨c, hc, hcb⟩ := Text.Utf8.exists_of_mem_encodeChars h hblank.1
    rw [← hcb, Char.ofNat_toNat, isWhitespace_of_mem_spell hc] at hblank
    cases hblank.2

/-- Any text can be written. -/
theorem writtenText_spell (s : String) : WrittenText s (encodeChars (spell s)) :=
  .spelled (spells_flatMap _) (fun _ hb => isSpace_of_mem_spell (List.mem_of_mem_head? hb))
    (fun _ hb => isSpace_of_mem_spell (List.mem_of_mem_getLast? hb))

/-- Any attributes can be written. -/
theorem writtenAttributes_serialize (attributes : List (String × String)) :
    WrittenAttributes attributes (serializeAttributes attributes) := by
  induction attributes with
  | nil => exact .nil
  | cons entry rest ih =>
    obtain ⟨key, value⟩ := entry
    have hspaces : Spaces [0x20] := by simp [Spaces, Byte.isSpace]
    have hvalue : WrittenValue value (Byte.quote :: encodeChars (spell value) ++ [Byte.quote]) :=
      .quoted rfl (spells_flatMap _)
    have hcons : WrittenAttributes ((key, value) :: rest) _ :=
      .cons (List.cons_ne_nil _ _) hspaces hvalue ih
    simpa [serializeAttributes] using hcons

mutual

/-- An element can be written. -/
theorem writtenElement_serialize : ∀ element : Element, WrittenElement element element.serialize
  | ⟨name, attributes, children, text⟩ => by
    have hspaces : Spaces [] := by simp [Spaces]
    have htags := @WrittenElement.tags name _ _ _ _ _ _ _ _ (writtenAttributes_serialize attributes)
      hspaces (writtenText_spell text) (writtenChildren_serialize children) hspaces
    simpa [Element.serialize] using htags

/-- Elements in a row can be written. -/
theorem writtenChildren_serialize :
    ∀ children : List Element, WrittenChildren children (Element.serializeAll children)
  | [] => .nil .nil
  | element :: rest =>
    .cons .nil (writtenElement_serialize element) (writtenChildren_serialize rest)

end

end Serializer

/-- A document can be written with its root alone. -/
theorem writtenDocument_serialize (root : Element) : WrittenDocument root root.serialize := by
  have hdocument := WrittenDocument.root .nil (writtenElement_serialize root) .nil
  simpa using hdocument

/-- The mark of UTF-8 is no space and no markup. -/
theorem withoutMark_of_head {b : UInt8} (hb : b ≠ 0xEF) (bytes : List UInt8) :
    withoutMark (b :: bytes) = b :: bytes := by
  unfold withoutMark
  split
  next h => exact absurd (List.cons.inj h).1 hb
  next => rfl

/-- A document has no mark before its first markup. -/
theorem withoutMark_gap {gap : List UInt8} (h : Gap gap) (more : List UInt8) :
    withoutMark (gap ++ Byte.less :: more) = gap ++ Byte.less :: more := by
  obtain ⟨spaces, rest, hspaces, hbytes⟩ := h.exists_less more
  rw [hbytes]
  cases spaces with
  | nil => exact withoutMark_of_head (by decide) _
  | cons b spaces =>
    refine withoutMark_of_head ?_ _
    rintro rfl
    exact absurd (hspaces 0xEF List.mem_cons_self) (by decide)

/-- Reading ends where the bytes do. -/
theorem readFrom_nil {source : Source} (hsource : source.failure = none) (progress : Progress) :
    readFrom source progress [] = .ok progress := by
  have hnext : Markup.next? source [] = .ok none := by
    rw [Markup.next?, List.dropWhile_nil, hsource]
  rw [readFrom, hnext]

/-- A document has the root that comes of its markup between gaps. -/
theorem parse_gaps {before markup after : List UInt8} {root : Element} (hbefore : Gap before)
    (hafter : Gap after) (hmarkup : markup.head? = some Byte.less)
    (hread : ∀ source rest, readFrom source {} (markup ++ rest) =
      readFrom source ⟨[], Builder.add {} root⟩ rest) :
    parse (before ++ markup ++ after) = .ok root := by
  have hmark : withoutMark (before ++ markup ++ after) = before ++ markup ++ after := by
    obtain ⟨more, rfl⟩ := List.head?_eq_some_iff.mp hmarkup
    rw [List.append_assoc, List.cons_append]
    exact withoutMark_gap hbefore _
  rw [parse, Source.read, hmark, List.append_assoc, readFrom_gap _ _ hbefore, hread,
    ← List.append_nil after, readFrom_gap _ _ hafter, readFrom_nil rfl]
  rfl

/-- The root of a written document is read back. -/
theorem parse_written {root : Element} (hroot : root.Writable) {bytes : List UInt8}
    (h : WrittenDocument root bytes) : parse bytes = .ok root := by
  cases h with
  | root hbefore hwritten hafter =>
    obtain ⟨more, hmore⟩ := hwritten.exists_less
    exact parse_gaps hbefore hafter (by rw [hmore]; rfl) fun source rest =>
      readFrom_element source [] {} hroot hwritten rest

/-- Every tree that can be written is written in some way, and read back from every document that is
written for it. -/
theorem parse_serialization {root : Element} (hroot : root.Writable) :
    WrittenDocument root root.serialize ∧
      ∀ bytes, WrittenDocument root bytes → parse bytes = .ok root :=
  ⟨writtenDocument_serialize root, fun _ h => parse_written hroot h⟩

/-- A plot with a label and a site in it. -/
def plotElement : Element where
  name := "plot"
  attributes := [("label", "a<b")]
  children := [{ name := "site" }]
  text := " 5"

/-- The plot as a person might write it. -/
def plotDocument : String :=
  "<?x?>\n<plot  label='a&lt;b' >&#032;5<!--n--> <site/>\n</plot\n>\n"

/-- The plot can be written. -/
theorem writable_plotElement : plotElement.Writable := by decide +kernel

/-- The document is a written form of the plot. -/
theorem writtenDocument_plotDocument : WrittenDocument plotElement (encode plotDocument) := by
  have hspaces (bytes : List UInt8) (h : bytes.all Byte.isSpace = true) : Spaces bytes :=
    List.all_eq_true.mp h
  have hline : Gap [0x0A] := .space rfl .nil
  have hlabel : WrittenValue "a<b" _ :=
    @WrittenValue.quoted _ Byte.apostrophe _ rfl
      (.plain rfl (.reference (@Designates.name "lt" '<' List.mem_cons_self) (.plain rfl .nil)))
  have hattributes : WrittenAttributes plotElement.attributes _ :=
    .cons (List.cons_ne_nil 0x20 [0x20]) (hspaces _ rfl) hlabel .nil
  have htext : WrittenText plotElement.text _ :=
    .spelled (.reference (.decimal ' ' 1) (.plain rfl .nil)) (by rintro _ ⟨⟩; rfl)
      (by rintro _ ⟨⟩; rfl)
  have hsite : WrittenElement { name := "site" } _ := .emptyElement .nil (hspaces [] rfl)
  have hbody {c : UInt8} (hc : c ≠ Byte.greater) {d : UInt8} (hd : c ≠ d) :
      ∀ b ∈ [c], b ≠ d ∧ b ≠ Byte.greater := by simp [hc, hd]
  have hgap : Gap _ := @Gap.comment (encode "n") [0x20] (hbody (by decide) (by decide)) (.space rfl .nil)
  have hplot : WrittenElement plotElement _ :=
    .tags hattributes (hspaces [0x20] rfl) htext (.cons hgap hsite (.nil hline)) (hspaces [0x0A] rfl)
  have hdocument : WrittenDocument plotElement _ :=
    .root (@Gap.instruction (encode "x") _ (hbody (by decide) (by decide)) hline) hplot hline
  refine Eq.mp (congrArg _ ?_) hdocument
  decide +kernel

/-- The plot is read back from what the person wrote. -/
theorem parse_plotDocument : plotElement.Writable ∧
    WrittenDocument plotElement (encode plotDocument) ∧
    parse (encode plotDocument) = .ok plotElement :=
  ⟨writable_plotElement, writtenDocument_plotDocument,
    (parse_serialization writable_plotElement).2 _ writtenDocument_plotDocument⟩

end Carta.Xml
