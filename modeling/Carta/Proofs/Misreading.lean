import Carta.Proofs.EntryTokens

/-!
# What is not read as it is meant

A text between quotes that has a quote in it ends too early, or loses a backslash, and one with a
backslash at its end goes on up to the next quote: neither is read as the string that it is meant
as. Outside quotes no word is read that has a quote or a number sign in it. So an entry that is not
legible is never read as the tokens of its slots, whatever follows it, and a mapfile is read as the
tokens of its slots exactly when it is legible.
-/

namespace Carta

namespace Text

/-- A character that does not divide a text is in a part of it. -/
theorem exists_mem_splitWhere {test : Char → Bool} {c : Char} (hc : test c = false)
    {cs : List Char} (h : c ∈ cs) : ∃ part ∈ splitWhere test cs, c ∈ part := by
  induction cs with
  | nil => cases h
  | cons d cs ih =>
    rw [splitWhere]
    split
    next hd =>
      have hne : c ≠ d := by
        rintro rfl
        rw [hc] at hd
        cases hd
      obtain ⟨part, hpart, hmem⟩ := ih ((List.mem_cons.mp h).resolve_left hne)
      exact ⟨part, List.mem_cons_of_mem _ hpart, hmem⟩
    next =>
      split
      next part rest hparts =>
        rcases List.mem_cons.mp h with rfl | h
        · exact ⟨c :: part, List.mem_cons_self, List.mem_cons_self⟩
        · obtain ⟨other, hother, hmem⟩ := ih h
          rw [hparts, List.mem_cons] at hother
          rcases hother with rfl | hother
          · exact ⟨d :: other, List.mem_cons_self, List.mem_cons_of_mem _ hmem⟩
          · exact ⟨other, List.mem_cons_of_mem _ hother, hmem⟩
      next hparts => exact absurd hparts (splitWhere_ne_nil test cs)

/-- A character that is no blank is in a word. -/
theorem exists_mem_wordsOf {c : Char} (hc : isBlank c = false) {cs : List Char} (h : c ∈ cs) :
    ∃ word ∈ wordsOf cs, c ∈ word := by
  obtain ⟨part, hpart, hmem⟩ := exists_mem_splitWhere hc h
  exact ⟨part, List.mem_filter.mpr ⟨hpart, by simpa using List.ne_nil_of_mem hmem⟩, hmem⟩

end Text

namespace Mapfile

open Carta.Text (isBlank exists_mem_wordsOf)

/-- What was read of a word is a word. -/
def Reading.IsSound : Reading → Prop
  | .word read => isToken read = true
  | _ => True

/-- Characters in any order are one word or not. -/
theorem isToken_reverse (cs : List Char) : isToken cs.reverse = isToken cs := by
  rw [isToken, isToken, List.isEmpty_reverse, List.all_reverse]

/-- One more character keeps what was read of a word a word, and completes nothing but words. -/
theorem Reading.IsSound.take {reading : Reading} (h : reading.IsSound) (c : Char) :
    (reading.take c).1.IsSound ∧
      ∀ {text : String}, .word text ∈ (reading.take c).2 → isToken text.toList = true := by
  have hbegin : (Reading.begin c).IsSound := by
    unfold Reading.begin
    split_ifs with hblank hcomment hquote
    · trivial
    · trivial
    · trivial
    · simp [IsSound, isToken, Reading.endsWord, hblank, hcomment, hquote]
  cases reading with
  | between => exact ⟨hbegin, fun hmem => absurd hmem List.not_mem_nil⟩
  | word read =>
    rw [Reading.take]
    split
    next =>
      refine ⟨hbegin, fun hmem => ?_⟩
      obtain rfl := Token.word.inj (List.mem_singleton.mp hmem)
      rw [String.toList_ofList, isToken_reverse]
      exact h
    next hends =>
      refine ⟨?_, fun hmem => absurd hmem List.not_mem_nil⟩
      have hread : isToken read = true := h
      rw [isToken, Bool.and_eq_true] at hread
      simp [IsSound, isToken, hends, hread.2]
  | string read =>
    rw [Reading.take]
    split_ifs <;> exact ⟨trivial, fun hmem => by simp at hmem⟩
  | comment =>
    rw [Reading.take]
    split_ifs <;> exact ⟨trivial, fun hmem => absurd hmem List.not_mem_nil⟩

namespace Reads

variable {first last : Reading} {cs : List Char} {tokens others : List Token}

/-- All words that are read are words. -/
theorem isToken_of_mem (h : Reads first cs tokens last) (hfirst : first.IsSound) {text : String}
    (hmem : .word text ∈ tokens ++ last.finish) : isToken text.toList = true := by
  induction cs generalizing first tokens with
  | nil =>
    obtain ⟨rfl, rfl⟩ := Prod.mk.inj h
    cases first with
    | word read =>
      obtain rfl := Token.word.inj (List.mem_singleton.mp hmem)
      rw [String.toList_ofList, isToken_reverse]
      exact hfirst
    | string read => simp [Reading.finish] at hmem
    | _ => cases hmem
  | cons c cs ih =>
    obtain ⟨others, hrest, rfl⟩ := exists_of_cons h
    rw [List.append_assoc, List.mem_append] at hmem
    rcases hmem with hmem | hmem
    · exact (hfirst.take c).2 hmem
    · exact ih hrest (hfirst.take c).1 hmem

/-- In a string, all characters but a quote are read as they are. -/
theorem within_string (read : List Char) (h : quoteMark ∉ cs) :
    Reads (.string read) cs [] (.string (cs.reverse ++ read)) := by
  induction cs generalizing read with
  | nil => exact nil _
  | cons c cs ih =>
    rw [List.mem_cons, not_or] at h
    have htake : (Reading.string read).take c = (.string (c :: read), []) := by
      rw [Reading.take, if_neg (Ne.symm h.1)]
    rw [List.reverse_cons, List.append_assoc, List.singleton_append]
    exact cons htake (ih _ h.2)

/-- What was read of a string is the beginning of the string, except for a backslash at its end, which
a quote after it replaces. -/
theorem isPrefix_of_string {read : List Char} {text : String}
    (h : Reads (.string read) cs tokens last)
    (htokens : tokens ++ last.finish = .string text :: others) :
    read.tail.reverse <+: text.toList ∧ (read.head? ≠ some '\\' → read.reverse <+: text.toList) := by
  have htail : read.tail.reverse <+: read.reverse :=
    List.reverse_prefix.mpr (List.tail_suffix read)
  induction cs generalizing read tokens with
  | nil =>
    obtain ⟨rfl, rfl⟩ := Prod.mk.inj h
    cases htokens
  | cons c cs ih =>
    obtain ⟨more, hrest, rfl⟩ := exists_of_cons h
    rw [Reading.take] at hrest htokens
    split at hrest
    next hquote =>
      rw [if_pos hquote] at htokens
      split at hrest
      next hhead =>
        rw [if_pos hhead] at htokens
        have hmore := ih hrest htokens (List.reverse_prefix.mpr (List.tail_suffix _))
        exact ⟨hmore.1, fun hne => absurd hhead hne⟩
      next hhead =>
        rw [if_neg hhead] at htokens
        have htext : String.ofList read.reverse = text := Token.string.inj (List.cons.inj htokens).1
        rw [← htext, String.toList_ofList]
        exact ⟨htail, fun _ => List.prefix_rfl⟩
    next hquote =>
      rw [if_neg hquote] at htokens
      have hread := (ih hrest htokens (List.reverse_prefix.mpr (List.tail_suffix _))).1
      exact ⟨htail.trans hread, fun _ => hread⟩

/-- A string is read as what stands before a quote only if that can stand between quotes. -/
theorem isQuotable_of_string {more : List Char}
    (h : Reads (.string []) (cs ++ quoteMark :: more) tokens last)
    (htokens : tokens ++ last.finish = .string (String.ofList cs) :: others) :
    isQuotable cs = true := by
  have hmem : quoteMark ∈ cs ++ [quoteMark] := List.mem_append_right _ List.mem_cons_self
  obtain ⟨before, after, hsplit, hbefore⟩ := List.eq_append_cons_of_mem hmem
  -- reading comes to the first quote with what is before it
  obtain ⟨tokens', last', hrest⟩ := total (.string before.reverse) (quoteMark :: (after ++ more))
  have hinside : Reads (.string []) before [] (.string before.reverse) := by
    simpa using within_string [] hbefore
  have hall : Reads (.string []) (cs ++ quoteMark :: more) tokens' last' := by
    rw [← List.singleton_append, ← List.append_assoc, hsplit]
    simpa using hinside.append hrest
  obtain ⟨rfl, rfl⟩ := h.unique hall
  obtain ⟨tail, hnext, rfl⟩ := exists_of_cons hrest
  rw [Reading.take, if_pos rfl] at hnext htokens
  split at hnext
  next hhead =>
    -- the quote goes into the string in place of a backslash that the text has there
    rw [if_pos hhead] at htokens
    obtain ⟨kept, hkept⟩ : ∃ kept, before.reverse = '\\' :: kept := by
      cases hbackwards : before.reverse with
      | nil => simp [hbackwards] at hhead
      | cons c kept =>
        rw [hbackwards] at hhead
        exact ⟨kept, by rw [Option.some.inj hhead]⟩
    obtain rfl : before = kept.reverse ++ ['\\'] := by
      rw [← List.reverse_reverse before, hkept, List.reverse_cons]
    have hne : quoteMark ≠ '\\' := by decide
    rw [hkept, List.tail_cons] at hnext
    obtain ⟨more', htext⟩ := (hnext.isPrefix_of_string htokens).2 (by simpa using hne)
    rw [String.toList_ofList, List.reverse_cons] at htext
    rw [← htext, List.append_assoc, List.append_assoc, List.append_assoc] at hsplit
    exact absurd (List.cons.inj (List.append_cancel_left hsplit)).1 hne
  next hhead =>
    rw [if_neg hhead, List.reverse_reverse] at htokens
    obtain rfl : before = cs :=
      String.ofList_injective (Token.string.inj (List.cons.inj htokens).1)
    rw [List.head?_reverse] at hhead
    simpa [isQuotable] using ⟨hbefore, hhead⟩

end Reads

/-- Characters that are not read as tokens, whatever follows both. -/
def Diverges (cs : List Char) (tokens : List Token) : Prop :=
  ∀ (more : List Char) (read others : List Token) (last : Reading),
    Reads .between (cs ++ more) read last → read ++ last.finish ≠ tokens ++ others

namespace Diverges

variable {cs : List Char} {tokens : List Token}

/-- What follows does not matter. -/
theorem append (h : Diverges cs tokens) (more : List Char) (others : List Token) :
    Diverges (cs ++ more) (tokens ++ others) := by
  intro after read rest last hread
  rw [List.append_assoc] at hread ⊢
  exact h _ _ _ _ hread

/-- What is read as it is meant before does not matter. -/
theorem after {before : List Char} {first : List Token} (hbefore : Reads .between before first .between)
    (h : Diverges cs tokens) : Diverges (before ++ cs) (first ++ tokens) := by
  intro more read others last hread heq
  obtain ⟨read', last', hrest⟩ := Reads.total .between (cs ++ more)
  have hboth := hbefore.append hrest
  rw [← List.append_assoc] at hboth
  obtain ⟨rfl, rfl⟩ := hread.unique hboth
  rw [List.append_assoc, List.append_assoc] at heq
  exact h _ _ _ _ hrest (List.append_cancel_left heq)

/-- No text is read as a word that is none. -/
theorem of_word {text : String} (h : isToken text.toList = false) (hmem : .word text ∈ tokens) :
    Diverges cs tokens := by
  intro more read others last hread heq
  have hword : .word text ∈ read ++ last.finish := by
    rw [heq]
    exact List.mem_append_left _ hmem
  rw [hread.isToken_of_mem trivial hword] at h
  cases h

/-- Between quotes, a text with a quote in it or a backslash at its end is not read as a string. -/
theorem quoted (h : isQuotable cs = false) :
    Diverges (quoteMark :: cs ++ [quoteMark]) [.string (String.ofList cs)] := by
  intro more read others last hread heq
  rw [List.append_assoc, List.cons_append] at hread
  obtain ⟨tokens, hinside, rfl⟩ := Reads.exists_of_cons hread
  rw [hinside.isQuotable_of_string heq] at h
  cases h

end Diverges

/-- A word that is not legible is not read as its tokens. -/
theorem Word.diverges {word : Word} (h : word.isLegible = false) :
    Diverges word.written.toList word.tokens := by
  have hquoted {text : String} (h : isQuotable text.toList = false) :
      Diverges ("'" ++ text ++ "'").toList [.string text] := by
    rw [toList_quoted]
    simpa only [String.ofList_toList] using Diverges.quoted h
  cases word with
  | bare text =>
    obtain ⟨c, hc, hmark⟩ : ∃ c ∈ text.toList, c = '#' ∨ c = quoteMark := by
      simpa [Word.isLegible, isPlain, or_iff_not_imp_left] using h
    have hends : Reading.endsWord c = true := by
      rcases hmark with rfl | rfl <;> rfl
    have hblank : isBlank c = false := by
      rcases hmark with rfl | rfl <;> rfl
    obtain ⟨word, hword, hmem⟩ := exists_mem_wordsOf hblank hc
    have hnot : isToken (String.ofList word).toList = false := by
      rw [String.toList_ofList, isToken, Bool.and_eq_false_iff]
      exact Or.inr (List.all_eq_false.mpr ⟨c, hmem, by simp [hends]⟩)
    exact Diverges.of_word hnot (List.mem_map_of_mem (List.mem_map_of_mem hword))
  | quoted text => exact hquoted h
  | column width text =>
    rw [Word.written, String.toList_append]
    simpa [Word.tokens] using (hquoted h).append _ []

/-- Words of which one is not legible are not read as their tokens. -/
theorem diverges_words {words : List Word} (h : words.all Word.isLegible = false) :
    Diverges (" ".intercalate (words.map Word.written)).toList (words.flatMap Word.tokens) := by
  induction words with
  | nil => cases h
  | cons word rest ih =>
    rw [List.flatMap_cons]
    cases hword : word.isLegible with
    | false =>
      cases rest with
      | nil => simpa using Word.diverges hword
      | cons next rest =>
        rw [List.map_cons, List.map_cons, String.intercalate_cons_cons, String.toList_append,
          String.toList_append, List.append_assoc]
        exact (Word.diverges hword).append _ _
    | true =>
      rw [List.all_cons, hword, Bool.true_and] at h
      cases rest with
      | nil => cases h
      | cons next rest =>
        have hspace : isBlank ' ' = true := rfl
        rw [List.map_cons, List.map_cons, String.intercalate_cons_cons, String.toList_append,
          String.toList_append]
        exact (ih h).after (Word.reads hword hspace)

namespace Entry

/-- A line at a depth is not read as what the text in it is not read as. -/
theorem diverges_line (depth : Nat) {text : String} {tokens : List Token}
    (h : Diverges text.toList tokens) :
    Diverges (textOfLines [indented depth text]).toList tokens := by
  have hindent : Reads .between (List.replicate (2 * depth) ' ') [] .between :=
    Reads.blanks fun c hc => List.eq_of_mem_replicate hc ▸ rfl
  simpa [textOfLines, indented] using (h.append ['\n'] []).after hindent

mutual

/-- An entry that is not legible is not read as the tokens of its slots. -/
theorem diverges (depth : Nat) : ∀ {entry : Entry}, entry.isLegible = false →
    entry.endsComments = true →
    Diverges (textOfLines (entry.lines depth)).toList (entry.slots.map Slot.token)
  | .blank, h, _ => nomatch h
  | .comment _, h, _ => nomatch h
  | .directive words, h, _ => by
    rw [lines, slots, map_token_directiveSlots]
    exact diverges_line depth (diverges_words h)
  | .block keyword body, h, hends => by
    rw [isLegible] at h
    rw [endsComments] at hends
    cases hkeyword : isToken keyword.toList with
    | false => exact Diverges.of_word hkeyword List.mem_cons_self
    | true =>
      rw [hkeyword, Bool.true_and] at h
      have hbody := (allDiverges (depth + 1) h hends).append
        (textOfLines [indented depth "END"]).toList [.word "END"]
      rw [text] at hbody
      rw [lines, slots, ← List.singleton_append, textOfLines_append, textOfLines_append,
        String.toList_append, String.toList_append]
      simpa [Slot.token] using hbody.after (reads_line depth (Reads.token hkeyword rfl))

/-- Entries that are not all legible are not read as the tokens in their slots. -/
theorem allDiverges (depth : Nat) : ∀ {entries : List Entry}, allLegible entries = false →
    allEndComments entries = true →
    Diverges (text depth entries).toList ((slotsOfAll entries).map Slot.token)
  | [], h, _ => nomatch h
  | entry :: rest, h, hends => by
    rw [allLegible] at h
    rw [allEndComments, Bool.and_eq_true] at hends
    rw [text, linesOfAll, slotsOfAll, textOfLines_append, String.toList_append, List.map_append]
    cases hentry : entry.isLegible with
    | false => exact (diverges depth hentry hends.1).append _ _
    | true =>
      rw [hentry, Bool.true_and] at h
      exact (allDiverges depth h hends.2).after (reads depth hentry hends.1)

end

end Entry

/-- Comments in entries that stand together end with their lines when those in each of them do. -/
theorem Entry.allEndComments_append (first second : List Entry) :
    allEndComments (first ++ second) = (allEndComments first && allEndComments second) := by
  induction first with
  | nil => rfl
  | cons entry rest ih =>
    rw [List.cons_append, allEndComments, allEndComments, ih, Bool.and_assoc]

/-- A mapfile whose comments end with their lines is read as the tokens of its slots exactly when its
words are legible. -/
theorem tokensOf_text_iff {mapfile : Mapfile} (hheader : Entry.allLegible mapfile.header = true)
    (hcomments : Entry.allEndComments (mapfile.header ++ mapfile.body) = true) :
    tokensOf mapfile.text = mapfile.slots.map Slot.token ↔
      Entry.allLegible mapfile.body = true := by
  rw [Entry.allEndComments_append, Bool.and_eq_true] at hcomments
  have hopening : Reads .between (Entry.textOfLines ["MAP"]).toList [.word "MAP"] .between := rfl
  have hclosing : Reads .between "END".toList [] (.word ['D', 'N', 'E']) := rfl
  have hbefore := (Entry.readsAll 0 hheader hcomments.1).append hopening
  constructor
  · intro h
    by_contra hbody
    have hdiverges := ((Entry.allDiverges 1 (Bool.eq_false_iff.mpr hbody) hcomments.2).append
      "END".toList [.word "END"]).after hbefore
    refine hdiverges [] _ [] _ rfl ?_
    simpa [tokensOf, text, slots, Slot.token] using h
  · intro hbody
    have hread := (hbefore.append (Entry.readsAll 1 hbody hcomments.2)).append hclosing
    rw [text, Reads.tokensOf_eq (by simpa using hread)]
    simp [slots, Slot.token, Reading.finish]

end Mapfile

end Carta
