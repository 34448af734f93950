import Carta.Proofs.MapfileParts
import Carta.Proofs.Tokens

/-!
# Entries are read as they are written

An entry is meant as a sequence of slots: keywords, and the values that they take. A directive of
several words begins with its keyword, a word alone is a value, and a block stands between two
keywords. An entry is legible when its words are: what stands outside quotes has no quote and no
number sign in it, and what stands between quotes has no quote in it and no backslash at its end.
Legible entries are read as the tokens of their slots when every comment ends with its line.
-/

namespace Carta

namespace Mapfile

open Carta.Text (isBlank words)

/-- The tokens that a word is meant as. -/
def Word.tokens : Word → List Token
  | .bare text => (words text).map .word
  | .quoted text => [.string text]
  | .column _ text => [.string text]

/-- A place in a mapfile, with the token in it. -/
inductive Slot
  | keyword (token : Token)
  | value (token : Token)
  deriving Repr, DecidableEq

/-- The token in a slot. -/
def Slot.token : Slot → Token
  | .keyword token => token
  | .value token => token

/-- A slot without the characters of its value. -/
def Slot.blanked : Slot → Slot
  | .value (.word _) => .value (.word "")
  | .value (.string _) => .value (.string "")
  | slot => slot

/-- The slots of a directive. -/
def directiveSlots : List Word → List Slot
  | [] => []
  | [word] => word.tokens.map .value
  | keyword :: words => keyword.tokens.map .keyword ++ (words.flatMap Word.tokens).map .value

/-- The words of a directive in the places of values. -/
def directiveValues : List Word → List Word
  | [] => []
  | [word] => [word]
  | _ :: words => words

/-- Whether a word is read as it is meant. -/
def Word.isLegible : Word → Bool
  | .bare text => isPlain text.toList
  | .quoted text => isQuotable text.toList
  | .column _ text => isQuotable text.toList

namespace Entry

mutual

/-- The slots of an entry. -/
def slots : Entry → List Slot
  | .blank => []
  | .comment _ => []
  | .directive words => directiveSlots words
  | .block keyword body =>
    .keyword (.word keyword) :: (slotsOfAll body ++ [.keyword (.word "END")])

/-- The slots of entries. -/
def slotsOfAll : List Entry → List Slot
  | [] => []
  | entry :: rest => slots entry ++ slotsOfAll rest

end

mutual

/-- The words of an entry in the places of values. -/
def values : Entry → List Word
  | .blank => []
  | .comment _ => []
  | .directive words => directiveValues words
  | .block _ body => valuesOfAll body

/-- The words of entries in the places of values. -/
def valuesOfAll : List Entry → List Word
  | [] => []
  | entry :: rest => values entry ++ valuesOfAll rest

end

mutual

/-- Whether the words of an entry are read as they are meant. -/
def isLegible : Entry → Bool
  | .blank => true
  | .comment _ => true
  | .directive words => words.all Word.isLegible
  | .block keyword body => isToken keyword.toList && allLegible body

/-- Whether the words of entries are read as they are meant. -/
def allLegible : List Entry → Bool
  | [] => true
  | entry :: rest => isLegible entry && allLegible rest

end

mutual

/-- Whether every comment in an entry ends with its line. -/
def endsComments : Entry → Bool
  | .blank => true
  | .comment text => !text.toList.contains '\n'
  | .directive _ => true
  | .block _ body => allEndComments body

/-- Whether every comment in entries ends with its line. -/
def allEndComments : List Entry → Bool
  | [] => true
  | entry :: rest => endsComments entry && allEndComments rest

end

end Entry

/-- The slots of a mapfile. -/
def slots (mapfile : Mapfile) : List Slot :=
  Entry.slotsOfAll mapfile.header ++ .keyword (.word "MAP") :: Entry.slotsOfAll mapfile.body ++
    [.keyword (.word "END")]

/-- The values of a directive are words of it. -/
theorem directiveValues_subset (words : List Word) : directiveValues words ⊆ words := by
  match words with
  | [] => exact List.nil_subset _
  | [word] => exact List.Subset.refl _
  | keyword :: next :: rest => exact List.subset_cons_self _ _

/-- The tokens of a value of a directive are in the slots of values. -/
theorem value_mem_directiveSlots {words : List Word} {word : Word} (h : word ∈ directiveValues words)
    {token : Token} (htoken : token ∈ word.tokens) : .value token ∈ directiveSlots words := by
  match words with
  | [] => cases h
  | [single] =>
    obtain rfl := List.mem_singleton.mp h
    exact List.mem_map_of_mem htoken
  | keyword :: next :: rest =>
    exact List.mem_append_right _ (List.mem_map_of_mem (List.mem_flatMap.mpr ⟨word, h, htoken⟩))

namespace Entry

mutual

/-- The values of a legible entry are read as they are meant. -/
theorem isLegible_of_mem_values : ∀ {entry : Entry}, entry.isLegible = true →
    ∀ word ∈ entry.values, word.isLegible = true
  | .blank, _ => fun _ hword => nomatch hword
  | .comment _, _ => fun _ hword => nomatch hword
  | .directive words, h => by
    intro word hword
    rw [isLegible, List.all_eq_true] at h
    exact h word (directiveValues_subset words hword)
  | .block _ _, h => by
    rw [isLegible, Bool.and_eq_true] at h
    exact isLegible_of_mem_valuesOfAll h.2

/-- The values in legible entries are legible. -/
theorem isLegible_of_mem_valuesOfAll : ∀ {entries : List Entry}, allLegible entries = true →
    ∀ word ∈ valuesOfAll entries, word.isLegible = true
  | [], _ => fun _ hword => nomatch hword
  | entry :: rest, h => by
    rw [allLegible, Bool.and_eq_true] at h
    exact List.forall_mem_append.mpr
      ⟨isLegible_of_mem_values h.1, isLegible_of_mem_valuesOfAll h.2⟩

end

mutual

/-- The tokens of a value of an entry are in the slots of values. -/
theorem value_mem_slots {word : Word} {token : Token} (htoken : token ∈ word.tokens) :
    ∀ {entry : Entry}, word ∈ entry.values → .value token ∈ entry.slots
  | .blank, h => nomatch h
  | .comment _, h => nomatch h
  | .directive _, h => value_mem_directiveSlots h htoken
  | .block _ _, h =>
    List.mem_cons_of_mem _ (List.mem_append_left _ (value_mem_slotsOfAll htoken h))

/-- The tokens of a value of entries are in the slots of values. -/
theorem value_mem_slotsOfAll {word : Word} {token : Token} (htoken : token ∈ word.tokens) :
    ∀ {entries : List Entry}, word ∈ valuesOfAll entries → .value token ∈ slotsOfAll entries
  | [], h => nomatch h
  | _ :: _, h => by
    rcases List.mem_append.mp h with hfirst | hrest
    · exact List.mem_append_left _ (value_mem_slots htoken hfirst)
    · exact List.mem_append_right _ (value_mem_slotsOfAll htoken hrest)

end

end Entry

/-- The characters of a quoted text stand between quotes. -/
theorem toList_quoted (text : String) :
    ("'" ++ text ++ "'").toList = quoteMark :: text.toList ++ [quoteMark] := by
  rw [String.toList_append, String.toList_append]
  rfl

/-- A word is read as it is meant, up to a blank after it. -/
theorem Word.reads {word : Word} (h : word.isLegible = true) {c : Char} (hc : isBlank c = true) :
    Reads .between (word.written.toList ++ [c]) word.tokens .between := by
  have hquoted {text : String} (h : isQuotable text.toList = true) :
      Reads .between ("'" ++ text ++ "'").toList [.string text] .between := by
    rw [toList_quoted]
    simpa only [String.ofList_toList] using Reads.quoted h
  cases word with
  | bare text =>
    rw [Word.written, Word.tokens, words, List.map_map]
    exact Reads.plain h hc
  | quoted text => exact (hquoted h).append (Reads.blanks (by simpa using hc))
  | column width text =>
    rw [Word.written, String.toList_append, String.toList_ofList, List.append_assoc]
    refine (hquoted h).append (Reads.blanks fun d hd => ?_)
    rcases List.mem_append.mp hd with hfill | hlast
    · exact List.eq_of_mem_replicate hfill ▸ rfl
    · exact List.mem_singleton.mp hlast ▸ hc

/-- The words of a directive are read one after the other. -/
theorem reads_words {words : List Word} (h : ∀ word ∈ words, word.isLegible = true) {c : Char}
    (hc : isBlank c = true) :
    Reads .between ((" ".intercalate (words.map Word.written)).toList ++ [c])
      (words.flatMap Word.tokens) .between := by
  induction words with
  | nil => exact Reads.blanks (by simpa using hc)
  | cons word rest ih =>
    rw [List.forall_mem_cons] at h
    cases rest with
    | nil => simpa using Word.reads h.1 hc
    | cons next rest =>
      have hspace : isBlank ' ' = true := rfl
      have hboth := (Word.reads h.1 hspace).append (ih h.2)
      rw [List.map_cons, List.map_cons, String.intercalate_cons_cons, List.flatMap_cons]
      simpa using hboth

/-- The tokens in the slots of a directive are those of its words. -/
theorem map_token_directiveSlots (words : List Word) :
    (directiveSlots words).map Slot.token = words.flatMap Word.tokens := by
  have hvalues (tokens : List Token) : (tokens.map Slot.value).map Slot.token = tokens := by
    simp [Function.comp_def, Slot.token]
  have hkeywords (tokens : List Token) : (tokens.map Slot.keyword).map Slot.token = tokens := by
    simp [Function.comp_def, Slot.token]
  match words with
  | [] => rfl
  | [word] => rw [directiveSlots, hvalues, List.flatMap_singleton]
  | keyword :: next :: rest =>
    change (keyword.tokens.map Slot.keyword ++ _).map Slot.token = _
    rw [List.map_append, hkeywords, hvalues]
    exact List.flatMap_cons.symm

namespace Entry

/-- A line at a depth is read from what stands in it. -/
theorem reads_line (depth : Nat) {text : String} {tokens : List Token}
    (h : Reads .between (text.toList ++ ['\n']) tokens .between) :
    Reads .between (textOfLines [indented depth text]).toList tokens .between := by
  have hindent : Reads .between (List.replicate (2 * depth) ' ') [] .between :=
    Reads.blanks fun c hc => List.eq_of_mem_replicate hc ▸ rfl
  simpa [textOfLines, indented] using hindent.append h

mutual

/-- A legible entry is read as the tokens of its slots. -/
theorem reads (depth : Nat) : ∀ {entry : Entry}, entry.isLegible = true → entry.endsComments = true →
    Reads .between (textOfLines (entry.lines depth)).toList (entry.slots.map Slot.token) .between
  | .blank, _, _ => by rw [lines, slots]; rfl
  | .comment text, _, hends => by
    have hline : '\n' ∉ ' ' :: text.toList := by simpa [endsComments] using hends
    rw [lines, slots]
    refine reads_line depth ?_
    rw [String.toList_append]
    exact Reads.comment hline
  | .directive words, h, _ => by
    rw [lines, slots, map_token_directiveSlots]
    exact reads_line depth (reads_words (by simpa [isLegible] using h) rfl)
  | .block keyword body, h, hends => by
    rw [isLegible, Bool.and_eq_true] at h
    rw [endsComments] at hends
    have hopening := reads_line depth (Reads.token h.1 rfl)
    have hclosing : Reads .between (textOfLines [indented depth "END"]).toList [.word "END"]
        .between := reads_line depth rfl
    have hbody := readsAll (depth + 1) h.2 hends
    rw [text] at hbody
    rw [lines, slots, ← List.singleton_append, textOfLines_append, textOfLines_append,
      String.toList_append, String.toList_append]
    simpa [Slot.token] using hopening.append (hbody.append hclosing)

/-- Legible entries are read as the tokens in their slots. -/
theorem readsAll (depth : Nat) : ∀ {entries : List Entry}, allLegible entries = true →
    allEndComments entries = true →
    Reads .between (text depth entries).toList ((slotsOfAll entries).map Slot.token) .between
  | [], _, _ => by
    rw [text, linesOfAll, slotsOfAll]
    rfl
  | entry :: rest, h, hends => by
    rw [allLegible, Bool.and_eq_true] at h
    rw [allEndComments, Bool.and_eq_true] at hends
    rw [text, linesOfAll, slotsOfAll, textOfLines_append, String.toList_append, List.map_append]
    exact (reads depth h.1 hends.1).append (readsAll depth h.2 hends.2)

end

end Entry

end Mapfile

end Carta
