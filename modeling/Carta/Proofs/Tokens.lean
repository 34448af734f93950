import Carta.Proofs.Lines

/-!
# How a mapfile is read

A mapfile is read as a sequence of tokens. Outside quotes, blanks separate words, and a number sign
begins a comment that goes up to the end of the line. Between single quotes stands a string, whatever
else is in it; only a quote with a backslash directly before it does not end the string, but belongs
to it in place of both.

A text is read from left to right, so what a part of it is read as is known from the state before it.
-/

namespace Carta.Mapfile

open Carta.Text (isBlank)

/-- The quote around strings. -/
def quoteMark : Char := Char.ofNat 39

/-- What a mapfile is read as. -/
inductive Token
  | word (text : String)
  | string (text : String)
  /-- The text after a quote that no other quote closes. -/
  | unclosed (text : String)
  deriving Repr, DecidableEq

/-- Where reading is: between tokens, or in a token or a comment. What was read of a token is held
with the latest character first. -/
inductive Reading
  | between
  | word (read : List Char)
  | string (read : List Char)
  | comment
  deriving Repr, DecidableEq

namespace Reading

/-- Reading after a character outside all tokens. -/
def begin (c : Char) : Reading :=
  if isBlank c then .between
  else if c = '#' then .comment
  else if c = quoteMark then .string []
  else .word [c]

/-- Whether a character ends the word before it. -/
def endsWord (c : Char) : Bool :=
  isBlank c || c = '#' || c = quoteMark

/-- Reading after one more character, and the tokens that it completes. -/
def take : Reading → Char → Reading × List Token
  | .between, c => (begin c, [])
  | .word read, c =>
    if endsWord c then (begin c, [.word (String.ofList read.reverse)]) else (.word (c :: read), [])
  | .string read, c =>
    if c = quoteMark then
      if read.head? = some '\\' then (.string (c :: read.tail), [])
      else (.between, [.string (String.ofList read.reverse)])
    else (.string (c :: read), [])
  | .comment, c => (if c = '\n' then .between else .comment, [])

/-- Reading after characters, and the tokens that they complete. -/
def takeAll (reading : Reading) : List Char → Reading × List Token
  | [] => (reading, [])
  | c :: cs =>
    let (next, first) := reading.take c
    let (last, others) := next.takeAll cs
    (last, first ++ others)

/-- The token that the end of the text completes. -/
def finish : Reading → List Token
  | .between => []
  | .word read => [.word (String.ofList read.reverse)]
  | .string read => [.unclosed (String.ofList read.reverse)]
  | .comment => []

end Reading

/-- The tokens of a text. -/
def tokensOf (s : String) : List Token :=
  let (last, tokens) := Reading.between.takeAll s.toList
  tokens ++ last.finish

/-- Characters lead from one place in reading to another and complete tokens on the way. -/
def Reads (first : Reading) (cs : List Char) (tokens : List Token) (last : Reading) : Prop :=
  first.takeAll cs = (last, tokens)

namespace Reads

variable {first second third : Reading} {cs more : List Char} {tokens others : List Token}

/-- An empty list of characters completes no token. -/
theorem nil (reading : Reading) : Reads reading [] [] reading := rfl

/-- Every text is read. -/
theorem total (first : Reading) (cs : List Char) : ∃ tokens last, Reads first cs tokens last :=
  ⟨_, _, rfl⟩

/-- A text is read in one way only. -/
theorem unique {other : Reading} (h : Reads first cs tokens second)
    (hother : Reads first cs others other) : tokens = others ∧ second = other := by
  obtain ⟨hlast, htokens⟩ := Prod.mk.inj (h.symm.trans hother)
  exact ⟨htokens, hlast⟩

/-- One character, and what follows it. -/
theorem cons {c : Char} (hfirst : first.take c = (second, tokens))
    (hrest : Reads second cs others third) : Reads first (c :: cs) (tokens ++ others) third := by
  rw [Reads, Reading.takeAll, hfirst]
  dsimp only
  rw [hrest]

/-- What is read of a character and more is what the character completes, and what is read then. -/
theorem exists_of_cons {c : Char} (h : Reads first (c :: cs) tokens third) :
    ∃ others, Reads (first.take c).1 cs others third ∧ tokens = (first.take c).2 ++ others := by
  obtain ⟨hlast, htokens⟩ := Prod.mk.inj h
  exact ⟨_, Prod.ext hlast rfl, htokens.symm⟩

/-- What is read of two parts is what is read of the first and then of the second. -/
theorem append (hfirst : Reads first cs tokens second) (hsecond : Reads second more others third) :
    Reads first (cs ++ more) (tokens ++ others) third := by
  induction cs generalizing first tokens with
  | nil =>
    obtain ⟨rfl, rfl⟩ := Prod.mk.inj hfirst
    exact hsecond
  | cons c cs ih =>
    obtain ⟨rfl, rfl⟩ := Prod.mk.inj hfirst
    rw [List.cons_append, List.append_assoc]
    exact cons rfl (ih rfl)

/-- What a text is read as. -/
theorem tokensOf_eq {s : String} (h : Reads .between s.toList tokens first) :
    tokensOf s = tokens ++ first.finish := by
  rw [tokensOf, h]

/-- A blank between tokens completes nothing. -/
theorem take_blank {c : Char} (h : isBlank c = true) : Reading.between.take c = (.between, []) := by
  rw [Reading.take, Reading.begin, if_pos h]

/-- Blanks between tokens complete nothing. -/
theorem blanks (h : ∀ c ∈ cs, isBlank c = true) : Reads .between cs [] .between := by
  induction cs with
  | nil => exact nil _
  | cons c cs ih =>
    rw [List.forall_mem_cons] at h
    exact cons (take_blank h.1) (ih h.2)

/-- A comment goes up to the end of its line and completes nothing. -/
theorem comment {cs : List Char} (h : '\n' ∉ cs) :
    Reads .between ('#' :: cs ++ ['\n']) [] .between := by
  have hinside : Reads .comment (cs ++ ['\n']) [] .between := by
    induction cs with
    | nil => rfl
    | cons c cs ih =>
      rw [List.mem_cons, not_or] at h
      have hstay : Reading.comment.take c = (.comment, []) := by
        rw [Reading.take, if_neg (Ne.symm h.1)]
      exact cons hstay (ih h.2)
  exact cons rfl hinside

end Reads

end Carta.Mapfile

namespace Carta.Text

/-- A blank divides the words before it from those after it. -/
theorem wordsOf_append_cons {c : Char} (h : isBlank c = true) (before after : List Char) :
    wordsOf (before ++ c :: after) = wordsOf before ++ wordsOf after := by
  rw [wordsOf, splitWhere_append_cons h, List.filter_append]
  rfl

/-- Characters without a blank are one word. -/
theorem wordsOf_eq_singleton {cs : List Char} (hne : cs ≠ []) (h : ∀ c ∈ cs, isBlank c = false) :
    wordsOf cs = [cs] := by
  rw [wordsOf, splitWhere_eq_singleton h, List.filter_cons_of_pos (by simpa using hne)]
  rfl

end Carta.Text

namespace Carta.Mapfile

open Carta.Text (isBlank wordsOf wordsOf_append_cons wordsOf_eq_singleton)

/-- Whether characters can stand outside quotes: no quote and no number sign is among them. -/
def isPlain (cs : List Char) : Bool :=
  cs.all fun c => c != '#' && c != quoteMark

/-- Whether characters are one word outside quotes. -/
def isToken (cs : List Char) : Bool :=
  !cs.isEmpty && cs.all (!Reading.endsWord ·)

/-- No quote and no number sign is in a word. -/
theorem isPlain_of_isToken {cs : List Char} (h : isToken cs = true) : isPlain cs = true := by
  rw [isToken, Bool.and_eq_true, List.all_eq_true] at h
  refine List.all_eq_true.mpr fun c hc => ?_
  have hends : (isBlank c = false ∧ c ≠ '#') ∧ c ≠ quoteMark := by
    simpa [Reading.endsWord] using h.2 c hc
  simpa using ⟨hends.1.2, hends.2⟩

/-- A word is divided into nothing but itself. -/
theorem wordsOf_of_isToken {cs : List Char} (h : isToken cs = true) : wordsOf cs = [cs] := by
  rw [isToken, Bool.and_eq_true, List.all_eq_true] at h
  refine wordsOf_eq_singleton (by simpa using h.1) fun c hc => ?_
  have hends : (isBlank c = false ∧ c ≠ '#') ∧ c ≠ quoteMark := by
    simpa [Reading.endsWord] using h.2 c hc
  exact hends.1.1

/-- Whether characters can stand between quotes: no quote is among them, and the last one is no
backslash. -/
def isQuotable (cs : List Char) : Bool :=
  !cs.contains quoteMark && cs.getLast? != some '\\'

namespace Reads

/-- Outside quotes, what is neither quote nor number sign is read word by word. -/
theorem plain {cs : List Char} (hplain : isPlain cs = true) {c : Char} (hc : isBlank c = true) :
    Reads .between (cs ++ [c]) ((wordsOf cs).map fun word => .word (String.ofList word)) .between := by
  -- the induction carries what is read when a word has begun before these characters
  suffices hboth : Reads .between (cs ++ [c])
        ((wordsOf cs).map fun word => .word (String.ofList word)) .between ∧
      ∀ read : List Char, read ≠ [] → (∀ d ∈ read, isBlank d = false) →
        Reads (.word read) (cs ++ [c])
          ((wordsOf (read.reverse ++ cs)).map fun word => .word (String.ofList word)) .between from
    hboth.1
  induction cs with
  | nil =>
    refine ⟨blanks (by simpa using hc), fun read hne hread => ?_⟩
    have htake : (Reading.word read).take c = (.between, [.word (String.ofList read.reverse)]) := by
      rw [Reading.take, if_pos (by simp [Reading.endsWord, hc]), Reading.begin, if_pos hc]
    rw [List.append_nil, wordsOf_eq_singleton (by simpa using hne) (by simpa using hread)]
    exact cons htake (nil _)
  | cons d cs ih =>
    obtain ⟨⟨hcomment, hquote⟩, hrest⟩ : (d ≠ '#' ∧ d ≠ quoteMark) ∧ isPlain cs = true := by
      simpa [isPlain] using hplain
    obtain ⟨hbetween, hword⟩ := ih hrest
    by_cases hd : isBlank d = true
    · refine ⟨?_, fun read hne hread => ?_⟩
      · have hwords : wordsOf (d :: cs) = wordsOf cs := wordsOf_append_cons hd [] cs
        rw [hwords]
        exact cons (take_blank hd) hbetween
      · have htake : (Reading.word read).take d =
            (.between, [.word (String.ofList read.reverse)]) := by
          rw [Reading.take, if_pos (by simp [Reading.endsWord, hd]), Reading.begin, if_pos hd]
        rw [wordsOf_append_cons hd, List.map_append,
          wordsOf_eq_singleton (by simpa using hne) (by simpa using hread)]
        exact cons htake hbetween
    · have hends : Reading.endsWord d = false := by simp [Reading.endsWord, hd, hcomment, hquote]
      refine ⟨?_, fun read hne hread => ?_⟩
      · have htake : Reading.between.take d = (.word [d], []) := by
          rw [Reading.take, Reading.begin, if_neg hd, if_neg hcomment, if_neg hquote]
        exact cons htake (hword [d] (by simp) (by simpa using hd))
      · have htake : (Reading.word read).take d = (.word (d :: read), []) := by
          rw [Reading.take, if_neg (by simp [hends])]
        have hmore := hword (d :: read) (by simp)
          (List.forall_mem_cons.mpr ⟨Bool.eq_false_iff.mpr hd, hread⟩)
        rw [List.reverse_cons, List.append_assoc, List.singleton_append] at hmore
        exact cons htake hmore

/-- One word is read as itself. -/
theorem token {s : String} (h : isToken s.toList = true) {c : Char} (hc : isBlank c = true) :
    Reads .between (s.toList ++ [c]) [.word s] .between := by
  have hread := plain (isPlain_of_isToken h) hc
  rw [wordsOf_of_isToken h, List.map_singleton, String.ofList_toList] at hread
  exact hread

/-- Between quotes, what has no quote in it and no backslash at its end is read as a string. -/
theorem quoted {cs : List Char} (h : isQuotable cs = true) :
    Reads .between (quoteMark :: cs ++ [quoteMark]) [.string (String.ofList cs)] .between := by
  obtain ⟨hquote, hlast⟩ : quoteMark ∉ cs ∧ cs.getLast? ≠ some '\\' := by
    simpa [isQuotable] using h
  -- the induction carries what is read already: the last character of all is no backslash
  have hinside : ∀ read : List Char, (read.reverse ++ cs).getLast? ≠ some '\\' →
      Reads (.string read) (cs ++ [quoteMark]) [.string (String.ofList (read.reverse ++ cs))]
        .between := by
    clear hlast h
    induction cs with
    | nil =>
      intro read hlast
      have hhead : read.head? ≠ some '\\' := by simpa using hlast
      have htake : (Reading.string read).take quoteMark =
          (.between, [.string (String.ofList read.reverse)]) := by
        rw [Reading.take, if_pos rfl, if_neg hhead]
      rw [List.append_nil]
      exact cons htake (nil _)
    | cons c cs ih =>
      intro read hlast
      rw [List.mem_cons, not_or] at hquote
      have htake : (Reading.string read).take c = (.string (c :: read), []) := by
        rw [Reading.take, if_neg (Ne.symm hquote.1)]
      have hmore := ih hquote.2 (c :: read)
      rw [List.reverse_cons, List.append_assoc, List.singleton_append] at hmore
      exact cons htake (hmore hlast)
  exact cons rfl (hinside [] hlast)

end Reads

end Carta.Mapfile
