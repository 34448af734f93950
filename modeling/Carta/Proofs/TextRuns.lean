import Carta.Proofs.ExactDecoding
import Carta.Proofs.LostBlanks
import Carta.Proofs.MarkupSequence
import Carta.Proofs.Serialization
import Mathlib.Data.List.DropRight

/-!
# Runs of text

A run of text stands between two markups. The spaces at its ends, as they are written, are taken off
before anything else is done with it: a space that is written as a reference stays, and so does a
blank of any other kind. What is resolved without them is what the whole run resolves to, without
them.
-/

namespace Carta.Xml

open Carta.Text.Utf8 (encodeChars)

/-- How characters are resolved: what is no reference stands for itself. -/
inductive Resolves : List Char → List Char → Prop
  | nil : Resolves [] []
  | plain {c : Char} {written cs : List Char} (hc : c ≠ '&') (hrest : Resolves written cs) :
      Resolves (c :: written) (c :: cs)
  | reference {name written cs : List Char} {c : Char} (hname : ∀ d ∈ name, d ≠ '&' ∧ d ≠ ';')
      (hc : ∀ start stop, referencedCharacter start stop name = .ok c)
      (hrest : Resolves written cs) : Resolves ('&' :: name ++ ';' :: written) (c :: cs)

/-- Which character a reference stands for does not depend on where it is. -/
theorem referencedCharacter_anywhere {start stop : Nat} {name : List Char} {c : Char}
    (h : referencedCharacter start stop name = .ok c) (start' stop' : Nat) :
    referencedCharacter start' stop' name = .ok c := by
  unfold referencedCharacter at h ⊢
  split at h
  next => exact h
  next =>
    split at h
    next => exact h
    next => cases h

/-- What is resolved without a fault, at first and within a reference. -/
theorem resolves_of_resolveFrom {size : Nat} (written : List Char) :
    (∀ {offset cs}, resolveFrom size offset none written = .ok cs → Resolves written cs) ∧
    ∀ {offset start read cs}, resolveFrom size offset (some ⟨start, read⟩) written = .ok cs →
      ∃ name rest c more, written = name ++ ';' :: rest ∧ cs = c :: more ∧
        (∀ d ∈ name, d ≠ '&' ∧ d ≠ ';') ∧
        (∀ start stop, referencedCharacter start stop (read ++ name) = .ok c) ∧
        Resolves rest more := by
  induction written with
  | nil =>
    refine ⟨fun h => ?_, fun h => nomatch h⟩
    rw [← Except.ok.inj h]
    exact .nil
  | cons c written ih =>
    constructor
    · intro offset cs h
      rw [resolveFrom] at h
      split at h
      next hamp =>
        obtain ⟨name, rest, d, more, rfl, rfl, hname, hd, hrest⟩ := ih.2 h
        exact hamp ▸ .reference hname hd hrest
      next hamp =>
        obtain ⟨more, hmore, rfl⟩ := map_eq_ok_iff.mp h
        exact .plain hamp (ih.1 hmore)
    · intro offset start read cs h
      rw [resolveFrom] at h
      split at h
      next => cases h
      next hamp =>
        split at h
        next hend =>
          obtain ⟨d, hd, h⟩ := bind_eq_ok_iff.mp h
          obtain ⟨more, hmore, h⟩ := bind_eq_ok_iff.mp h
          refine ⟨[], written, d, more, by simp [hend], (Except.ok.inj h).symm, by simp, ?_,
            ih.1 hmore⟩
          rw [List.append_nil]
          exact referencedCharacter_anywhere hd
        next hend =>
          obtain ⟨name, rest, d, more, rfl, rfl, hname, hd, hrest⟩ := ih.2 h
          refine ⟨c :: name, rest, d, more, rfl, rfl, ?_, by simpa using hd, hrest⟩
          exact List.forall_mem_cons.mpr ⟨⟨hamp, hend⟩, hname⟩

/-- What resolves to characters is resolved to them. -/
theorem resolveFrom_of_resolves {written cs : List Char} (h : Resolves written cs)
    (size offset : Nat) : resolveFrom size offset none written = .ok cs := by
  induction h generalizing offset with
  | nil => rfl
  | plain hc _ ih =>
    rw [resolveFrom, if_neg hc, ih]
    rfl
  | @reference name written cs c hname hc _ ih =>
    obtain ⟨stop, hread⟩ := resolveFrom_reference size (offset + 1) offset [] hname written
    rw [List.cons_append, resolveFrom, if_pos rfl, hread, List.nil_append, hc, ih]
    rfl

/-- A text is resolved when its characters are. -/
theorem resolve_eq_ok_iff {s t : String} : resolve s = .ok t ↔ Resolves s.toList t.toList := by
  constructor
  · intro h
    obtain ⟨cs, hcs, rfl⟩ := map_eq_ok_iff.mp h
    rw [String.toList_ofList]
    exact (resolves_of_resolveFrom _).1 hcs
  · intro h
    rw [resolve, resolveFrom_of_resolves h]
    simp [Except.map]

/-- Characters without a reference resolve to themselves. -/
theorem resolves_self {cs : List Char} (h : '&' ∉ cs) : Resolves cs cs := by
  induction cs with
  | nil => exact .nil
  | cons c cs ih =>
    rw [List.mem_cons, not_or] at h
    exact .plain (Ne.symm h.1) (ih h.2)

/-- Characters without a meaning in references at the beginning stand for themselves. -/
theorem exists_of_resolves_append_left {lead written cs : List Char} (hlead : '&' ∉ lead)
    (h : Resolves (lead ++ written) cs) : ∃ rest, Resolves written rest ∧ cs = lead ++ rest := by
  induction lead generalizing cs with
  | nil => exact ⟨cs, h, rfl⟩
  | cons c lead ih =>
    rw [List.mem_cons, not_or] at hlead
    generalize hall : c :: lead ++ written = all at h
    cases h with
    | nil => cases hall
    | plain _ hrest =>
      obtain ⟨rfl, rfl⟩ := List.cons.inj hall
      obtain ⟨rest, hwritten, rfl⟩ := ih hlead.2 hrest
      exact ⟨rest, hwritten, rfl⟩
    | reference => exact absurd (List.cons.inj hall).1.symm hlead.1

/-- A character without a meaning in references at the end stands for itself. -/
theorem exists_of_resolves_concat {c : Char} (hend : c ≠ ';') {written cs : List Char}
    (h : Resolves (written ++ [c]) cs) :
    ∃ first, Resolves written first ∧ cs = first ++ [c] := by
  generalize hall : written ++ [c] = all at h
  induction h generalizing written with
  | nil => simp at hall
  | @plain d rest cs hd hrest ih =>
    cases written with
    | nil =>
      obtain ⟨rfl, rfl⟩ : c = d ∧ [] = rest := by simpa using hall
      cases hrest
      exact ⟨[], .nil, rfl⟩
    | cons e written =>
      obtain ⟨rfl, hwritten⟩ : e = d ∧ written ++ [c] = rest := by simpa using hall
      obtain ⟨first, hfirst, rfl⟩ := ih hwritten
      exact ⟨e :: first, .plain hd hfirst, rfl⟩
  | @reference name rest cs d hname hd hrest ih =>
    -- The last character is none of the reference, for that ends in another one.
    rcases List.eq_nil_or_concat rest with rfl | ⟨before, last, rfl⟩
    · obtain ⟨-, hlast⟩ := List.append_inj' hall rfl
      exact absurd (List.cons.inj hlast).1 hend
    · have hparts : written ++ [c] = ('&' :: name ++ ';' :: before) ++ [last] := by simpa using hall
      obtain ⟨rfl, hlast⟩ := List.append_inj' hparts rfl
      obtain ⟨first, hfirst, rfl⟩ := ih (show before ++ [c] = before.concat last by simpa using hlast)
      exact ⟨d :: first, .reference hname hd hfirst, rfl⟩

/-- Characters without a meaning in references at the end stand for themselves. -/
theorem exists_of_resolves_append_right {written trail cs : List Char}
    (htrail : ';' ∉ trail) (h : Resolves (written ++ trail) cs) :
    ∃ first, Resolves written first ∧ cs = first ++ trail := by
  induction trail generalizing written cs with
  | nil => exact ⟨cs, by simpa using h, by simp⟩
  | cons c trail ih =>
    rw [List.mem_cons, not_or] at htrail
    rw [List.append_cons] at h
    obtain ⟨more, hmore, rfl⟩ := ih htrail.2 h
    obtain ⟨first, hfirst, rfl⟩ := exists_of_resolves_concat (Ne.symm htrail.1) hmore
    exact ⟨first, hfirst, by simp⟩

section Ends

variable {A : Type} (test : A → Bool) (items : List A)

/-- The items that pass a test at the beginning of a list. -/
def leadingOf : List A :=
  items.takeWhile test

/-- A list without the items at its ends that pass a test. -/
def coreOf : List A :=
  (items.dropWhile test).rdropWhile test

/-- The items that pass a test at the end of a list, unless all do. -/
def trailingOf : List A :=
  (items.dropWhile test).rtakeWhile test

/-- What is at the ends of a list and what is between them make up the list. -/
theorem ends_eq : leadingOf test items ++ coreOf test items ++ trailingOf test items = items := by
  rw [List.append_assoc, coreOf, trailingOf, List.rdropWhile_append_rtakeWhile, leadingOf,
    List.takeWhile_append_dropWhile]

variable {test items}

/-- What is in the core of items is among them. -/
theorem mem_of_mem_coreOf {a : A} (h : a ∈ coreOf test items) : a ∈ items := by
  rw [← ends_eq test items]
  exact List.mem_append_left _ (List.mem_append_right _ h)

/-- The leading items pass the test. -/
theorem of_mem_leadingOf : ∀ a ∈ leadingOf test items, test a = true :=
  fun _ ha => List.mem_takeWhile_imp ha

/-- The trailing items pass the test. -/
theorem of_mem_trailingOf : ∀ a ∈ trailingOf test items, test a = true :=
  fun _ ha => List.mem_rtakeWhile_imp ha

/-- Between its ends a list does not begin with an item that passes the test. -/
theorem eq_false_of_mem_head_coreOf : ∀ a ∈ (coreOf test items).head?, test a = false := by
  intro a ha
  obtain ⟨more, hmore⟩ := List.rdropWhile_prefix test (items.dropWhile test)
  have hhead : (items.dropWhile test).head? = some a := by
    rw [← hmore, List.head?_append]
    exact Option.or_eq_some_iff.mpr (.inl ha)
  have hnot := List.head?_dropWhile_not test items
  rw [hhead] at hnot
  exact hnot

/-- Between its ends a list does not end in an item that passes the test. -/
theorem eq_false_of_mem_getLast_coreOf : ∀ a ∈ (coreOf test items).getLast?, test a = false := by
  intro a ha
  obtain ⟨hne, rfl⟩ := List.mem_getLast?_eq_getLast ha
  exact Bool.eq_false_iff.mpr (List.rdropWhile_last_not test _ hne)

/-- What stands between items that pass the test, and has none at its ends, is the list without the
items at its ends. -/
theorem coreOf_append {leading core trailing : List A} (hleading : ∀ a ∈ leading, test a = true)
    (htrailing : ∀ a ∈ trailing, test a = true) (hfirst : ∀ a ∈ core.head?, test a = false)
    (hlast : ∀ a ∈ core.getLast?, test a = false) :
    coreOf test (leading ++ core ++ trailing) = core := by
  have hfront : (core ++ trailing).dropWhile test = if core = [] then [] else core ++ trailing := by
    cases core with
    | nil => exact List.dropWhile_eq_nil_iff.mpr htrailing
    | cons a core => exact List.dropWhile_cons_of_neg (by simp [hfirst a rfl])
  have hback : (core ++ trailing).rdropWhile test = core := by
    have hself : core.rdropWhile test = core := List.rdropWhile_eq_self_iff.mpr fun hne => by
      rw [hlast _ (List.getLast?_eq_some_getLast hne)]
      exact Bool.false_ne_true
    rw [List.rdropWhile, List.reverse_append, List.dropWhile_append_of_pos fun a ha =>
      htrailing a (List.mem_reverse.mp ha)]
    exact hself
  rw [coreOf, List.append_assoc, List.dropWhile_append_of_pos hleading, hfront]
  split
  next hnil => rw [hnil, List.rdropWhile_nil]
  next => exact hback

end Ends

/-- Whether a character is one of those that are taken off the ends of a run. -/
def isRunSpace (c : Char) : Bool :=
  c ∈ [' ', '\t', '\n', '\r']

/-- What characters resolve to, and nothing when there is a fault in them. -/
def resolved (written : List Char) : List Char :=
  match resolve (String.ofList written) with
  | .ok s => s.toList
  | .error _ => []

/-- A text that resolves to characters is resolved to these. -/
theorem resolved_eq {written cs : List Char} (h : Resolves written cs) : resolved written = cs := by
  have hresolve : resolve (String.ofList written) = .ok (String.ofList cs) :=
    resolve_eq_ok_iff.mpr (by simpa using h)
  rw [resolved, hresolve]
  exact String.toList_ofList

/-- What a run resolves to is what it resolves to without the spaces at its ends, and these. -/
theorem exists_resolves_core {written cs : List Char} (h : Resolves written cs) :
    ∃ core, Resolves (coreOf isRunSpace written) core ∧
      cs = leadingOf isRunSpace written ++ core ++ trailingOf isRunSpace written := by
  rw [← ends_eq isRunSpace written, List.append_assoc] at h
  obtain ⟨rest, hrest, rfl⟩ := exists_of_resolves_append_left
    (fun hamp => absurd (of_mem_leadingOf _ hamp) (by decide)) h
  obtain ⟨core, hcore, rfl⟩ := exists_of_resolves_append_right
    (fun hend => absurd (of_mem_trailingOf _ hend) (by decide)) hrest
  exact ⟨core, hcore, by rw [List.append_assoc]⟩

/-- Spaces of a run are blanks. -/
theorem isBlank_of_isRunSpace {c : Char} (h : isRunSpace c = true) : Text.isBlank c = true := by
  simp only [isRunSpace, List.mem_cons, List.not_mem_nil, or_false, decide_eq_true_eq] at h
  rcases h with rfl | rfl | rfl | rfl <;> decide

/-- A run that is trimmed anyway may lose the spaces at its ends. -/
theorem trimChars_core (written : List Char) :
    Text.trimChars (coreOf isRunSpace written) = Text.trimChars written := by
  conv_rhs => rw [← ends_eq isRunSpace written]
  rw [Text.trimChars_append_of_blank fun c hc =>
      isBlank_of_isRunSpace (of_mem_trailingOf c hc),
    Text.trimChars, Text.trimChars, List.dropWhile_append_of_pos fun c hc =>
      isBlank_of_isRunSpace (of_mem_leadingOf c hc)]

section Bytes

/-- A space among the bytes of a character is that character. -/
theorem isRunSpace_of_mem_encodeChar {c : Char} {b : UInt8} (hb : b ∈ String.utf8EncodeChar c)
    (hspace : Byte.isSpace b = true) : isRunSpace c = true := by
  have hascii : b.toNat < 0x80 ∧ isRunSpace (Char.ofNat b.toNat) = true := by
    simp only [Byte.isSpace, Bool.or_eq_true, beq_iff_eq] at hspace
    rcases hspace with ((rfl | rfl) | rfl) | rfl <;> decide
  rw [← Char.ofNat_toNat c, Text.Utf8.eq_of_mem_encodeChar hb hascii.1]
  exact hascii.2

/-- The bytes of spaces are spaces. -/
theorem spaces_encodeChars {cs : List Char} (h : ∀ c ∈ cs, isRunSpace c = true) :
    Spaces (encodeChars cs) := by
  intro b hb
  obtain ⟨c, hc, hbc⟩ := List.mem_flatMap.mp hb
  have hspace := h c hc
  simp only [isRunSpace, List.mem_cons, List.not_mem_nil, or_false, decide_eq_true_eq] at hspace
  rcases hspace with rfl | rfl | rfl | rfl <;> (obtain rfl := List.mem_singleton.mp hbc; rfl)

/-- No space is the first byte of characters that begin with none. -/
theorem isSpace_head_encodeChars {cs : List Char} (h : ∀ c ∈ cs.head?, isRunSpace c = false) :
    ∀ b ∈ (encodeChars cs).head?, Byte.isSpace b = false := by
  intro b hb
  cases cs with
  | nil => cases hb
  | cons c cs =>
    rw [encodeChars, List.flatMap_cons, List.head?_append_of_ne_nil _ String.utf8EncodeChar_ne_nil] at hb
    have hspace := h c rfl
    rw [← Bool.not_eq_true] at hspace ⊢
    exact fun hb' => hspace (isRunSpace_of_mem_encodeChar (List.mem_of_mem_head? hb) hb')

/-- No space is the last byte of characters that end with none. -/
theorem isSpace_getLast_encodeChars {cs : List Char} (h : ∀ c ∈ cs.getLast?, isRunSpace c = false) :
    ∀ b ∈ (encodeChars cs).getLast?, Byte.isSpace b = false := by
  intro b hb
  rcases List.eq_nil_or_concat cs with rfl | ⟨cs, c, rfl⟩
  · cases hb
  · rw [List.concat_eq_append] at h hb
    rw [encodeChars, List.flatMap_append, List.flatMap_singleton,
      List.getLast?_append_of_ne_nil _ String.utf8EncodeChar_ne_nil] at hb
    have hspace := h c List.getLast?_concat
    rw [← Bool.not_eq_true] at hspace ⊢
    exact fun hb' => hspace (isRunSpace_of_mem_encodeChar (List.mem_of_mem_getLast? hb) hb')

/-- No byte begins a markup where no character does. -/
theorem less_not_mem_encodeChars {cs : List Char} (h : '<' ∉ cs) : Byte.less ∉ encodeChars cs := by
  intro hmem
  obtain ⟨c, hc, hcb⟩ := Text.Utf8.exists_of_mem_encodeChars hmem (by decide)
  have heq : c = '<' := by
    rw [← Char.ofNat_toNat c, hcb]
    rfl
  exact h (heq ▸ hc)

/-- The bytes of a run without the spaces at its ends are those of its characters without them. -/
theorem coreOf_encodeChars (written : List Char) :
    coreOf Byte.isSpace (encodeChars written) = encodeChars (coreOf isRunSpace written) := by
  have hbytes : encodeChars written = encodeChars (leadingOf isRunSpace written) ++
      encodeChars (coreOf isRunSpace written) ++ encodeChars (trailingOf isRunSpace written) := by
    conv_lhs => rw [← ends_eq isRunSpace written]
    simp [encodeChars]
  rw [hbytes]
  exact coreOf_append (spaces_encodeChars of_mem_leadingOf) (spaces_encodeChars of_mem_trailingOf)
    (isSpace_head_encodeChars eq_false_of_mem_head_coreOf)
    (isSpace_getLast_encodeChars eq_false_of_mem_getLast_coreOf)

/-- The bytes of spaces are those of characters. -/
theorem exists_encodeChars_of_spaces {bytes : List UInt8} (h : Spaces bytes) :
    ∃ cs, bytes = encodeChars cs := by
  induction bytes with
  | nil => exact ⟨[], rfl⟩
  | cons b bytes ih =>
    rw [Spaces, List.forall_mem_cons] at h
    obtain ⟨cs, rfl⟩ := ih h.2
    refine ⟨Char.ofNat b.toNat :: cs, ?_⟩
    have hb : String.utf8EncodeChar (Char.ofNat b.toNat) = [b] := by
      have hspace := h.1
      simp only [Byte.isSpace, Bool.or_eq_true, beq_iff_eq] at hspace
      rcases hspace with ((rfl | rfl) | rfl) | rfl <;> decide
    rw [encodeChars, encodeChars, List.flatMap_cons, hb]
    rfl

end Bytes

section Reading

variable (source : Source)

/-- The spaces at the ends of a run are passed over. -/
theorem readFrom_bytes {bytes : List UInt8} (hless : Byte.less ∉ bytes) (progress : Progress)
    (rest : List UInt8) :
    readFrom source progress (bytes ++ Byte.less :: rest) =
      (if coreOf Byte.isSpace bytes = [] then .ok progress
        else progress.read (.text (coreOf Byte.isSpace bytes))) >>= fun next =>
        readFrom source next (Byte.less :: rest) := by
  have hbytes := ends_eq Byte.isSpace bytes
  have hbefore : Spaces (leadingOf Byte.isSpace bytes) := of_mem_leadingOf
  have hafter : Spaces (trailingOf Byte.isSpace bytes) := of_mem_trailingOf
  have hcore : Byte.less ∉ coreOf Byte.isSpace bytes := fun hmem => hless (mem_of_mem_coreOf hmem)
  conv_lhs => rw [← hbytes]
  rw [List.append_assoc, List.append_assoc, readFrom_spaces source progress hbefore]
  split
  next hnil =>
    rw [hnil, List.nil_append, readFrom_spaces source progress hafter]
    rfl
  next hne =>
    rw [← List.append_assoc]
    exact readFrom_of_some (next?_bytes source hne hcore eq_false_of_mem_head_coreOf
      eq_false_of_mem_getLast_coreOf hafter rest)

/-- The text of a run is what it resolves to. -/
theorem textOfRun_of_resolves {written cs : List Char} (h : Resolves written cs) :
    textOfRun (encodeChars written) = .ok (String.ofList cs) := by
  have hresolve : resolve (String.ofList written) = .ok (String.ofList cs) :=
    resolve_eq_ok_iff.mpr (by simpa using h)
  rw [textOfRun, Text.Utf8.decode_encodeChars]
  simp only [Except.mapError, bind, Except.bind, hresolve]

/-- Characters take no bytes only when there are none. -/
theorem encodeChars_eq_nil_iff {cs : List Char} : encodeChars cs = [] ↔ cs = [] := by
  rw [encodeChars, List.flatMap_eq_nil_iff]
  constructor
  · intro h
    exact List.eq_nil_iff_forall_not_mem.mpr fun c hc => String.utf8EncodeChar_ne_nil (h c hc)
  · rintro rfl c hc
    exact absurd hc List.not_mem_nil

/-- A run inside of an element adds to its text what it resolves to without the spaces at its
ends. -/
theorem readFrom_run {written cs : List Char} (hless : '<' ∉ written)
    (hresolves : Resolves written cs) (names : List (List UInt8)) (element : Element)
    (outer : List Element) (root : Option Element) (rest : List UInt8) :
    readFrom source ⟨names, ⟨element :: outer, root⟩⟩ (encodeChars written ++ Byte.less :: rest) =
      readFrom source ⟨names,
        ⟨{ element with
            text := element.text ++ String.ofList (resolved (coreOf isRunSpace written)) } ::
          outer, root⟩⟩ (Byte.less :: rest) := by
  obtain ⟨core, hcore, -⟩ := exists_resolves_core hresolves
  rw [readFrom_bytes source (less_not_mem_encodeChars hless), coreOf_encodeChars, resolved_eq hcore]
  split
  next hnil =>
    rw [encodeChars_eq_nil_iff.mp hnil] at hcore
    cases hcore
    cases element
    simp [bind, Except.bind]
  next =>
    have hread : Progress.read ⟨names, ⟨element :: outer, root⟩⟩
        (.text (encodeChars (coreOf isRunSpace written))) =
          .ok ⟨names, ⟨{ element with text := element.text ++ String.ofList core } :: outer,
            root⟩⟩ := by
      rw [Progress.read, textOfRun_of_resolves hcore]
      rfl
    rw [hread]
    rfl

/-- A run inside of an element is rejected when its bytes are those of no text. -/
theorem readFrom_run_of_not_text {bytes : List UInt8} (hless : Byte.less ∉ bytes)
    (hnone : ∀ cs, bytes ≠ encodeChars cs) (names : List (List UInt8)) (element : Element)
    (outer : List Element) (root : Option Element) (rest : List UInt8) :
    ∃ error, readFrom source ⟨names, ⟨element :: outer, root⟩⟩ (bytes ++ Byte.less :: rest) =
      .error error := by
  have hcore : ∀ cs, coreOf Byte.isSpace bytes ≠ encodeChars cs := by
    intro cs hcs
    have hleading : Spaces (leadingOf Byte.isSpace bytes) := of_mem_leadingOf
    have htrailing : Spaces (trailingOf Byte.isSpace bytes) := of_mem_trailingOf
    obtain ⟨before, hbefore⟩ := exists_encodeChars_of_spaces hleading
    obtain ⟨after, hafter⟩ := exists_encodeChars_of_spaces htrailing
    refine hnone (before ++ cs ++ after) ?_
    rw [← ends_eq Byte.isSpace bytes, hbefore, hcs, hafter]
    simp [encodeChars]
  have hne : coreOf Byte.isSpace bytes ≠ [] := hcore []
  rw [readFrom_bytes source hless, if_neg hne]
  cases hdecode : Text.Utf8.decode (coreOf Byte.isSpace bytes) with
  | ok text => exact absurd (Text.Utf8.decode_eq_ok_iff.mp hdecode) (hcore text.toList)
  | error fault =>
    refine ⟨.document (.encoding fault), ?_⟩
    rw [Progress.read, textOfRun, hdecode]
    rfl

/-- A character data section inside of an element adds to its text what it is decoded to. -/
theorem readFrom_cdataSection {content : List UInt8}
    (h : ¬ [Byte.closingBracket, Byte.closingBracket, Byte.greater] <:+: content)
    (names : List (List UInt8)) (element : Element) (outer : List Element) (root : Option Element)
    (rest : List UInt8) :
    readFrom source ⟨names, ⟨element :: outer, root⟩⟩ (cdataSection content ++ rest) =
      readFrom source ⟨names,
        ⟨{ element with text := element.text ++ Text.Utf8.decodeLenient content } :: outer, root⟩⟩
        rest :=
  readFrom_of_next? source (next?_cdataSection source h rest) rfl

/-- What a tag begins has nothing inside. -/
theorem Tag.eq_of_element {tag : Tag} {element : Element} (h : tag.element = .ok element) :
    element.children = [] ∧ element.text = "" := by
  obtain ⟨attributes, -, helement⟩ := bind_eq_ok_iff.mp h
  rw [← Except.ok.inj helement]
  exact ⟨rfl, rfl⟩

end Reading

end Carta.Xml
