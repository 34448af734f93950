import Carta.Proofs.Misreading

/-!
# Entries that differ in their values only

Words that come from a project or from options are written into entries, and other words into other
entries in the same way. Then the entries are alike: each of the words stands in the place of a
value, nothing else decides whether the entries are legible, and the slots are the same but for the
characters of the values as long as all words are confined, that is, each is read as one token.
-/

namespace Carta.Mapfile

open Carta.Project (Colour)
open Carta.Text (words wordsOf wordsOf_append_cons)

/-- Whether a word is read as one token, which is the word itself. -/
def Word.isConfined : Word → Bool
  | .bare text => isToken text.toList
  | .quoted text => isQuotable text.toList
  | .column _ text => isQuotable text.toList

/-- Words that are read as they are meant. -/
def AllLegible (words : List Word) : Prop :=
  ∀ word ∈ words, word.isLegible = true

/-- Words each of which is read as one token. -/
def AllConfined (words : List Word) : Prop :=
  ∀ word ∈ words, word.isConfined = true

instance : DecidablePred AllLegible :=
  fun words => inferInstanceAs (Decidable (∀ word ∈ words, word.isLegible = true))

instance : DecidablePred AllConfined :=
  fun words => inferInstanceAs (Decidable (∀ word ∈ words, word.isConfined = true))

/-- Words that stand together are legible when each of them are. -/
theorem allLegible_append {first second : List Word} :
    AllLegible (first ++ second) ↔ AllLegible first ∧ AllLegible second :=
  List.forall_mem_append

/-- Words that stand together are confined when each of them are. -/
theorem allConfined_append {first second : List Word} :
    AllConfined (first ++ second) ↔ AllConfined first ∧ AllConfined second :=
  List.forall_mem_append

/-- The slots of a value, without its characters. -/
def Word.skeleton (word : Word) : List Slot :=
  word.tokens.map fun token => (Slot.value token).blanked

/-- Words that are written into the values of a directive, and other words that are written into
other values in the same way. -/
structure Fit (words otherWords values others : List Word) : Prop where
  subset : words ⊆ values
  legible : AllLegible words → AllLegible values
  skeleton : AllConfined words → AllConfined otherWords →
    values.flatMap Word.skeleton = others.flatMap Word.skeleton

/-- Words that are written into entries, and other words that are written into other entries in the
same way. -/
structure Alike (words otherWords : List Word) (entries others : List Entry) : Prop where
  subset : words ⊆ Entry.valuesOfAll entries
  comments : Entry.allEndComments entries = true
  legible : AllLegible words → Entry.allLegible entries = true
  skeleton : AllConfined words → AllConfined otherWords →
    (Entry.slotsOfAll entries).map Slot.blanked = (Entry.slotsOfAll others).map Slot.blanked

/-- A confined word is legible. -/
theorem Word.isLegible_of_isConfined {word : Word} (h : word.isConfined = true) :
    word.isLegible = true := by
  cases word with
  | bare => exact isPlain_of_isToken h
  | quoted => exact h
  | column => exact h

/-- Confined words are legible. -/
theorem AllConfined.allLegible {words : List Word} (h : AllConfined words) : AllLegible words :=
  fun word hword => Word.isLegible_of_isConfined (h word hword)

/-- One word outside quotes is one token. -/
theorem tokens_bare {text : String} (h : isToken text.toList = true) :
    (Word.bare text).tokens = [.word text] := by
  rw [Word.tokens, words, wordsOf_of_isToken h, List.map_singleton, String.ofList_toList]
  rfl

/-- The tokens of a text outside quotes are its first word and those behind the blank after it. -/
theorem tokens_bare_append {text : String} (h : isToken text.toList = true) (rest : String) :
    (Word.bare (text ++ " " ++ rest)).tokens = .word text :: (Word.bare rest).tokens := by
  have hwords : wordsOf (text ++ " " ++ rest).toList = text.toList :: wordsOf rest.toList := by
    rw [String.toList_append, String.toList_append, List.append_assoc]
    exact (wordsOf_append_cons rfl _ _).trans (by rw [wordsOf_of_isToken h]; rfl)
  rw [Word.tokens, words, hwords, List.map_cons, List.map_cons, String.ofList_toList]
  rfl

/-- Texts can stand together outside quotes when each of them can. -/
theorem isPlain_append (first second : List Char) :
    isPlain (first ++ second) = (isPlain first && isPlain second) :=
  List.all_append

/-- A digit does not end a word. -/
theorem endsWord_of_isDigit {c : Char} (h : c.isDigit = true) : Reading.endsWord c = false := by
  have hne {d : Char} (hd : d.isDigit = false) : c ≠ d := by
    rintro rfl
    simp [hd] at h
  simp [Reading.endsWord, Text.isBlank_of_isDigit h, hne (show ('#').isDigit = false by decide),
    hne (show quoteMark.isDigit = false by decide)]

/-- The digits of a number are one word. -/
theorem isToken_toString (n : Nat) : isToken (toString n).toList = true := by
  rw [Nat.toString_eq_ofList_toDigits, String.toList_ofList, isToken, Bool.and_eq_true]
  refine ⟨by simp, List.all_eq_true.mpr fun c hc => ?_⟩
  have hdigit := Nat.isDigit_of_mem_toDigits (by decide) (by decide) hc
  simp [endsWord_of_isDigit hdigit]

namespace Fit

variable {words otherWords values others : List Word} {word other : Word}

/-- Where nothing is written, empty lists fit. -/
theorem nil : Fit [] [] [] [] :=
  ⟨List.Subset.refl _, fun h => h, fun _ _ => rfl⟩

/-- One value after another. -/
theorem cons {first otherFirst : List Word} (h : Fit first otherFirst [word] [other])
    (hrest : Fit words otherWords values others) :
    Fit (first ++ words) (otherFirst ++ otherWords) (word :: values) (other :: others) where
  subset := List.append_subset.mpr
    ⟨List.Subset.trans h.subset (by simp),
      List.Subset.trans hrest.subset (List.subset_cons_self _ _)⟩
  legible := fun hlegible => by
    obtain ⟨hfirst, hwords⟩ := allLegible_append.mp hlegible
    exact allLegible_append.mpr ⟨h.legible hfirst, hrest.legible hwords⟩
  skeleton := fun hconfined hother => by
    obtain ⟨hfirst, hwords⟩ := allConfined_append.mp hconfined
    obtain ⟨hotherFirst, hotherWords⟩ := allConfined_append.mp hother
    have hskeleton := h.skeleton hfirst hotherFirst
    rw [List.flatMap_singleton, List.flatMap_singleton] at hskeleton
    rw [List.flatMap_cons, List.flatMap_cons, hskeleton, hrest.skeleton hwords hotherWords]

/-- A value that no word is written into. -/
theorem same (h : word.isLegible = true) : Fit [] [] [word] [word] where
  subset := List.nil_subset _
  legible := fun _ => List.forall_mem_singleton.mpr h
  skeleton := fun _ _ => rfl

/-- Two values that no word is written into, and that are one token each. -/
theorem fixed {text otherText : String} (h : isToken text.toList = true)
    (hother : isToken otherText.toList = true) :
    Fit [] [] [.bare text] [.bare otherText] where
  subset := List.nil_subset _
  legible := fun _ => List.forall_mem_singleton.mpr (isPlain_of_isToken h)
  skeleton := fun _ _ => by
    rw [List.flatMap_singleton, List.flatMap_singleton, Word.skeleton, Word.skeleton, tokens_bare h,
      tokens_bare hother]
    rfl

/-- A value that is a word outside quotes. -/
theorem bare {text otherText : String} :
    Fit [.bare text] [.bare otherText] [.bare text] [.bare otherText] where
  subset := List.Subset.refl _
  legible := fun h => h
  skeleton := fun h hother =>
    (fixed (h _ List.mem_cons_self) (hother _ List.mem_cons_self)).skeleton (by simp [AllConfined])
      (by simp [AllConfined])

/-- A value that is a word between quotes. -/
theorem quoted {text otherText : String} :
    Fit [.quoted text] [.quoted otherText] [.quoted text] [.quoted otherText] where
  subset := List.Subset.refl _
  legible := fun h => h
  skeleton := fun _ _ => rfl

/-- The channels of two colours: three numbers each. -/
theorem colour (colour other : Colour) :
    Fit [] [] [.bare colour.text] [.bare other.text] := by
  have htext (colour : Colour) : colour.text = toString colour.red.toNat ++ " " ++
      (toString colour.green.toNat ++ " " ++ toString colour.blue.toNat) := by
    simp only [Colour.text, String.append_assoc]
  have htokens (colour : Colour) : (Word.bare colour.text).tokens =
      [.word (toString colour.red.toNat), .word (toString colour.green.toNat),
        .word (toString colour.blue.toNat)] := by
    rw [htext, tokens_bare_append (isToken_toString _), tokens_bare_append (isToken_toString _),
      tokens_bare (isToken_toString _)]
  refine ⟨List.nil_subset _, fun _ => ?_, fun _ _ => ?_⟩
  · have hplain (n : Nat) : isPlain (toString n).toList = true :=
      isPlain_of_isToken (isToken_toString n)
    have hspace : isPlain " ".toList = true := rfl
    refine List.forall_mem_singleton.mpr ?_
    simp only [Word.isLegible, htext, String.toList_append, isPlain_append, hplain, hspace,
      Bool.and_true]
  · rw [List.flatMap_singleton, List.flatMap_singleton, Word.skeleton, Word.skeleton,
      htokens colour, htokens other]
    rfl

end Fit

/-- The slots of entries that stand together are those of each. -/
theorem Entry.slotsOfAll_append (first second : List Entry) :
    slotsOfAll (first ++ second) = slotsOfAll first ++ slotsOfAll second := by
  induction first with
  | nil => rfl
  | cons entry rest ih => rw [List.cons_append, slotsOfAll, slotsOfAll, ih, List.append_assoc]

/-- Entries that stand together are legible when each of them is. -/
theorem Entry.allLegible_append (first second : List Entry) :
    allLegible (first ++ second) = (allLegible first && allLegible second) := by
  induction first with
  | nil => rfl
  | cons entry rest ih => rw [List.cons_append, allLegible, allLegible, ih, Bool.and_assoc]

/-- The values of entries that stand together are those of each. -/
theorem Entry.valuesOfAll_append (first second : List Entry) :
    valuesOfAll (first ++ second) = valuesOfAll first ++ valuesOfAll second := by
  induction first with
  | nil => rfl
  | cons entry rest ih => rw [List.cons_append, valuesOfAll, valuesOfAll, ih, List.append_assoc]

/-- Without characters, the slots of a directive of several words are its keyword and the kinds of
its values. -/
theorem map_blanked_directiveSlots (keyword next : Word) (rest : List Word) :
    (directiveSlots (keyword :: next :: rest)).map Slot.blanked =
      keyword.tokens.map .keyword ++ (next :: rest).flatMap Word.skeleton := by
  change (keyword.tokens.map Slot.keyword ++
    ((next :: rest).flatMap Word.tokens).map Slot.value).map Slot.blanked = _
  rw [List.map_append, List.map_map, List.map_map, List.map_flatMap]
  rfl

namespace Alike

variable {words otherWords more otherMore : List Word} {entry otherEntry : Entry}
  {entries others next otherNext : List Entry}

/-- Where nothing is written, empty lists of entries are alike. -/
theorem nil : Alike [] [] [] [] :=
  ⟨List.Subset.refl _, rfl, fun _ => rfl, fun _ _ => rfl⟩

/-- Entries that no word is written into. -/
theorem fixed (hcomments : Entry.allEndComments entries = true)
    (h : Entry.allLegible entries = true) : Alike [] [] entries entries :=
  ⟨List.nil_subset _, hcomments, fun _ => h, fun _ _ => rfl⟩

/-- Entries that stand together are alike when each of them are. -/
theorem append (h : Alike words otherWords entries others)
    (hnext : Alike more otherMore next otherNext) :
    Alike (words ++ more) (otherWords ++ otherMore) (entries ++ next) (others ++ otherNext) where
  subset := by
    rw [Entry.valuesOfAll_append]
    exact List.append_subset.mpr
      ⟨List.Subset.trans h.subset (List.subset_append_left _ _),
        List.Subset.trans hnext.subset (List.subset_append_right _ _)⟩
  comments := by rw [Entry.allEndComments_append, h.comments, hnext.comments]; rfl
  legible := fun hlegible => by
    obtain ⟨hwords, hmore⟩ := allLegible_append.mp hlegible
    rw [Entry.allLegible_append, h.legible hwords, hnext.legible hmore]
    rfl
  skeleton := fun hconfined hother => by
    obtain ⟨hwords, hmore⟩ := allConfined_append.mp hconfined
    obtain ⟨hotherWords, hotherMore⟩ := allConfined_append.mp hother
    rw [Entry.slotsOfAll_append, Entry.slotsOfAll_append, List.map_append, List.map_append,
      h.skeleton hwords hotherWords, hnext.skeleton hmore hotherMore]

/-- Entries stay alike when more entries that no word is written into follow them. -/
theorem append_fixed (h : Alike words otherWords entries others)
    (hnext : Alike [] [] next otherNext) :
    Alike words otherWords (entries ++ next) (others ++ otherNext) := by
  simpa using h.append hnext

/-- Entries are alike when the first ones and the others are. -/
theorem cons (h : Alike words otherWords [entry] [otherEntry])
    (hnext : Alike more otherMore next otherNext) :
    Alike (words ++ more) (otherWords ++ otherMore) (entry :: next) (otherEntry :: otherNext) :=
  h.append hnext

/-- Entries stay alike when entries that no word is written into come before them. -/
theorem fixed_append (h : Alike [] [] entries others)
    (hnext : Alike words otherWords next otherNext) :
    Alike words otherWords (entries ++ next) (others ++ otherNext) :=
  h.append hnext

/-- Entries stay alike when an entry that no word is written into comes before them. -/
theorem fixed_cons (h : Alike [] [] [entry] [otherEntry])
    (hnext : Alike words otherWords next otherNext) :
    Alike words otherWords (entry :: next) (otherEntry :: otherNext) :=
  h.append hnext

/-- An entry stays alike when entries that no word is written into follow it. -/
theorem cons_fixed (h : Alike words otherWords [entry] [otherEntry])
    (hnext : Alike [] [] next otherNext) :
    Alike words otherWords (entry :: next) (otherEntry :: otherNext) :=
  h.append_fixed hnext

/-- Two single entries are alike. -/
theorem single (hvalues : words ⊆ entry.values) (hcomments : entry.endsComments = true)
    (hlegible : AllLegible words → entry.isLegible = true)
    (hskeleton : AllConfined words → AllConfined otherWords →
      entry.slots.map Slot.blanked = otherEntry.slots.map Slot.blanked) :
    Alike words otherWords [entry] [otherEntry] where
  subset := by simpa [Entry.valuesOfAll] using hvalues
  comments := by simpa [Entry.allEndComments] using hcomments
  legible := fun h => by simpa [Entry.allLegible] using hlegible h
  skeleton := fun h hother => by simpa [Entry.slotsOfAll] using hskeleton h hother

/-- Directives with the same keyword are alike when their values fit. -/
theorem directive {keyword value otherValue : Word} {values otherValues : List Word}
    (hkeyword : keyword.isLegible = true)
    (h : Fit words otherWords (value :: values) (otherValue :: otherValues)) :
    Alike words otherWords [.directive (keyword :: value :: values)]
      [.directive (keyword :: otherValue :: otherValues)] := by
  refine single h.subset rfl (fun hlegible => ?_) fun hconfined hother => ?_
  · rw [Entry.isLegible, List.all_cons, hkeyword, Bool.true_and, List.all_eq_true]
    exact h.legible hlegible
  · rw [Entry.slots, Entry.slots, map_blanked_directiveSlots, map_blanked_directiveSlots,
      h.skeleton hconfined hother]

/-- Values that stand alone are alike when they fit. -/
theorem alone {word other : Word} (h : Fit words otherWords [word] [other]) :
    Alike words otherWords [.directive [word]] [.directive [other]] := by
  refine single h.subset rfl (fun hlegible => ?_) fun hconfined hother => ?_
  · simpa [Entry.isLegible, AllLegible] using h.legible hlegible
  · simpa [Entry.slots, directiveSlots, Word.skeleton, Function.comp_def] using
      h.skeleton hconfined hother

/-- Blocks with the same keyword are alike when what is in them is. -/
theorem block {keyword : String} (hkeyword : isToken keyword.toList = true)
    (h : Alike words otherWords entries others) :
    Alike words otherWords [.block keyword entries] [.block keyword others] := by
  refine single h.subset h.comments (fun hlegible => ?_) fun hconfined hother => ?_
  · rw [Entry.isLegible, hkeyword, h.legible hlegible]
    rfl
  · rw [Entry.slots, Entry.slots, List.map_cons, List.map_cons, List.map_append, List.map_append,
      h.skeleton hconfined hother]

/-- Directives with one value outside quotes are alike. -/
theorem setting {keyword value other : String} (hkeyword : (Word.bare keyword).isLegible = true) :
    Alike [.bare value] [.bare other] [.setting keyword value] [.setting keyword other] :=
  directive hkeyword .bare

/-- Directives with one quoted value are alike. -/
theorem quotedSetting {keyword value other : String} (hkeyword : (Word.bare keyword).isLegible = true) :
    Alike [.quoted value] [.quoted other] [.quotedSetting keyword value]
      [.quotedSetting keyword other] :=
  directive hkeyword .quoted

/-- Directives of a quoted key and a quoted value are alike. -/
theorem pair {key value other : String} (hkey : (Word.quoted key).isLegible = true) :
    Alike [.quoted value] [.quoted other] [.pair key value] [.pair key other] :=
  directive hkey .quoted

/-- Directives for values that may be absent are alike when both or neither are there. -/
theorem optional {form : String → Word} {write : String → Entry} {value other : Option String}
    (hsome : value.isSome = other.isSome)
    (h : ∀ text text', Alike [form text] [form text'] [write text] [write text']) :
    Alike (value.toList.map form) (other.toList.map form) (Entry.optional write value)
      (Entry.optional write other) := by
  cases value with
  | none =>
    cases other with
    | none => exact nil
    | some => cases hsome
  | some text =>
    cases other with
    | none => cases hsome
    | some text' => exact h text text'

/-- Directives of one quoted value each are alike when they are as many. -/
theorem quotedLines {values others : List String} (hlength : values.length = others.length) :
    Alike (values.map .quoted) (others.map .quoted)
      (values.map fun value => .directive [.quoted value])
      (others.map fun value => .directive [.quoted value]) := by
  induction values generalizing others with
  | nil =>
    obtain rfl := List.eq_nil_of_length_eq_zero hlength.symm
    exact nil
  | cons value values ih =>
    obtain ⟨other, others, rfl⟩ := List.exists_cons_of_length_eq_add_one hlength.symm
    exact cons (alone .quoted) (ih (Nat.succ.inj hlength))

end Alike

end Carta.Mapfile
