import Carta.Proofs.QuotedValues
import Mathlib.Logic.Relation

/-!
# The last word for each parameter

A data source is a sequence of words with blanks between them. A word concerns the parameter whose
key stands before its first equals sign, and the geometry column when it begins with an opening
parenthesis. Each parameter is what the last word that concerns it says, or its default when no word
does. So the blanks do not matter, nor do words that concern no parameter, nor the order of two words
that concern different ones.
-/

namespace Carta.Project

open Carta.Mapfile (quoteMark)
open Carta.Text (isBlank wordsOf wordsOf_append_cons wordsOf_eq_singleton)

/-- What a parameter is when nothing is said of it. -/
def Parameter.default? : Parameter → Option String
  | .host => some "localhost"
  | .dbname => some "gisdata"
  | .user => some ""
  | .password => some ""
  | .port => none
  | .table => some ""
  | .geometryColumn => some "the_geom"

/-- How a word for a parameter begins: with the key and an equals sign, or with a parenthesis. -/
def Parameter.opening (parameter : Parameter) : List Char :=
  match parameter.key? with
  | some key => key.toList ++ ['=']
  | none => ['(']

/-- Whether a word is for a parameter. -/
def Concerns (parameter : Parameter) (word : List Char) : Prop :=
  parameter.opening <+: word

instance (parameter : Parameter) : DecidablePred (Concerns parameter) := fun word =>
  inferInstanceAs (Decidable (parameter.opening <+: word))

/-- What a word says of a parameter: the value behind its key, without one pair of single quotes
around it, or the column behind the parenthesis, without one closing parenthesis. -/
inductive Says : Parameter → List Char → List Char → Prop
  | quoted {parameter : Parameter} {key : String} {value : List Char}
      (hkey : parameter.key? = some key) :
      Says parameter (key.toList ++ '=' :: (quoteMark :: value ++ [quoteMark])) value
  | bare {parameter : Parameter} {key : String} {value : List Char}
      (hkey : parameter.key? = some key)
      (hquotes : ∀ inner, value ≠ quoteMark :: inner ++ [quoteMark]) :
      Says parameter (key.toList ++ '=' :: value) value
  | closed {column : List Char} : Says .geometryColumn ('(' :: column ++ [')']) column
  | unclosed {column : List Char} (hlast : column.getLast? ≠ some ')') :
      Says .geometryColumn ('(' :: column) column

section Words

variable {parameter : Parameter} {word value : List Char}

/-- A key of a parameter has neither parenthesis nor equals sign in it. -/
theorem Parameter.plain_key {key : String} (h : parameter.key? = some key) :
    key.toList.head? ≠ some '(' ∧ '=' ∉ key.toList := by
  have hall : ∀ key ∈ parameter.key?, key.toList.head? ≠ some '(' ∧ '=' ∉ key.toList := by
    cases parameter <;> decide
  exact hall key h

/-- Characters that are not between quotes stay as they are. -/
theorem unquoteChars_of_ne (h : ∀ inner, value ≠ quoteMark :: inner ++ [quoteMark]) :
    unquoteChars value = value := by
  cases value with
  | nil => rfl
  | cons c cs =>
    rw [unquoteChars, if_neg]
    rintro ⟨hfirst, hlast⟩
    obtain ⟨last, hsome, hquote⟩ := Option.map_eq_some_iff.mp hlast
    obtain ⟨inner, rfl⟩ := List.getLast?_eq_some_iff.mp hsome
    have hfirst : c = quoteMark := Char.toNat_inj.mp hfirst
    have hlast : last = quoteMark := Char.toNat_inj.mp hquote
    exact h inner (by rw [hfirst, hlast, List.cons_append])

/-- The parts at the first equals sign make up the word. -/
theorem eq_append_of_splitAtEquals? {key : List Char} (h : splitAtEquals? word = some (key, value)) :
    word = key ++ '=' :: value := by
  induction word generalizing key with
  | nil => cases h
  | cons c word ih =>
    rw [splitAtEquals?] at h
    split at h
    next hequals =>
      obtain ⟨rfl, rfl⟩ := Prod.mk.inj (Option.some.inj h)
      rw [hequals, List.nil_append]
    next =>
      obtain ⟨⟨rest, value⟩, hsplit, hparts⟩ := Option.map_eq_some_iff.mp h
      obtain ⟨rfl, rfl⟩ := Prod.mk.inj hparts
      rw [ih hsplit, List.cons_append]

/-- A word is read as what it says. -/
theorem Says.setting? (h : Says parameter word value) :
    (SourceWord.read (String.ofList word)).setting? parameter = some (String.ofList value) := by
  cases h with
  | quoted hkey =>
    obtain ⟨hparen, hequals⟩ := Parameter.plain_key hkey
    rw [SourceWord.read_key hparen hequals, unquoteChars_quoted, SourceWord.setting?, if_pos hkey]
  | bare hkey hquotes =>
    obtain ⟨hparen, hequals⟩ := Parameter.plain_key hkey
    rw [SourceWord.read_key hparen hequals, unquoteChars_of_ne hquotes, SourceWord.setting?,
      if_pos hkey]
  | closed => simp [SourceWord.read, SourceWord.setting?]
  | unclosed hlast => simp [SourceWord.read, hlast, SourceWord.setting?]

/-- A word that is read as saying something of a parameter is for it. -/
theorem concerns_of_setting? {said : String}
    (h : (SourceWord.read (String.ofList word)).setting? parameter = some said) :
    Concerns parameter word := by
  unfold SourceWord.read at h
  rw [String.toList_ofList] at h
  split at h
  next column =>
    obtain ⟨rfl, -⟩ := Option.ite_some_none_eq_some.mp h
    exact List.prefix_append ['('] column
  next =>
    split at h
    next => cases h
    next key text hsplit =>
      obtain ⟨hkey, -⟩ := Option.ite_some_none_eq_some.mp h
      refine ⟨text, ?_⟩
      rw [eq_append_of_splitAtEquals? hsplit, Parameter.opening, hkey]
      simp

/-- A word that is not for a parameter says nothing of it. -/
theorem setting?_of_not_concerns (h : ¬ Concerns parameter word) :
    (SourceWord.read (String.ofList word)).setting? parameter = none :=
  Option.eq_none_iff_forall_ne_some.mpr fun _ hsaid => h (concerns_of_setting? hsaid)

/-- A word for a parameter says something of it. -/
theorem exists_value_of_concerns (h : Concerns parameter word) : ∃ value, Says parameter word value := by
  obtain ⟨behind, rfl⟩ := h
  cases hkey : parameter.key? with
  | none =>
    obtain rfl : parameter = .geometryColumn := by
      cases parameter <;> first | rfl | exact nomatch hkey
    by_cases hlast : behind.getLast? = some ')'
    · obtain ⟨column, rfl⟩ := List.getLast?_eq_some_iff.mp hlast
      exact ⟨column, .closed⟩
    · exact ⟨behind, .unclosed hlast⟩
  | some key =>
    have hword : parameter.opening ++ behind = key.toList ++ '=' :: behind := by
      simp [Parameter.opening, hkey]
    rw [hword]
    by_cases hquotes : ∃ inner, behind = quoteMark :: inner ++ [quoteMark]
    · obtain ⟨inner, rfl⟩ := hquotes
      exact ⟨inner, .quoted hkey⟩
    · exact ⟨behind, .bare hkey (not_exists.mp hquotes)⟩

end Words

/-! ## The words of a data source -/

/-- A data source consists of the words, with blanks between them and maybe around them. -/
structure ConsistsOf (dataSource : String) (words : List (List Char)) : Prop where
  spaced : Spaced words dataSource.toList
  word : ∀ word ∈ words, word ≠ [] ∧ ∀ c ∈ word, isBlank c = false

/-- Characters behind others without a blank are divided at their blanks. -/
theorem spaced_wordsOf_append {joined : List Char} (hjoined : ∀ c ∈ joined, isBlank c = false)
    (cs : List Char) : Spaced (wordsOf (joined ++ cs)) (joined ++ cs) := by
  induction cs generalizing joined with
  | nil =>
    rw [List.append_nil]
    by_cases hne : joined = []
    · rw [hne]
      exact .nil
    · rw [wordsOf_eq_singleton hne hjoined]
      exact .single joined
  | cons c cs ih =>
    cases hblank : isBlank c with
    | true =>
      have hrest : Spaced (wordsOf cs) cs := ih (List.forall_mem_nil _)
      rw [wordsOf_append_cons hblank]
      by_cases hne : joined = []
      · rw [hne]
        exact .blank hblank hrest
      · rw [wordsOf_eq_singleton hne hjoined]
        exact .item hblank hrest
    | false =>
      have hmore : ∀ d ∈ joined ++ [c], isBlank d = false := by
        simpa [or_imp, forall_and] using ⟨hjoined, hblank⟩
      rw [List.append_cons]
      exact ih hmore

/-- Every data source consists of its words. -/
theorem consistsOf_words (dataSource : String) : ConsistsOf dataSource (wordsOf dataSource.toList) where
  spaced := spaced_wordsOf_append (List.forall_mem_nil _) dataSource.toList
  word word hword := by
    obtain ⟨hpart, hne⟩ := List.mem_filter.mp hword
    exact ⟨by simpa using hne, Text.eq_false_of_mem_splitWhere hpart⟩

/-- The words that a data source consists of are those it is divided into. -/
theorem ConsistsOf.words_eq {dataSource : String} {words : List (List Char)}
    (h : ConsistsOf dataSource words) : Text.words dataSource = words.map String.ofList := by
  have hwords : words.flatMap wordsOf = words := by
    calc
      words.flatMap wordsOf = words.flatMap ([·]) := List.flatMap_congr fun word hword =>
        wordsOf_eq_singleton (h.word word hword).1 (h.word word hword).2
      _ = words := List.flatMap_singleton' words
  rw [Text.words, h.spaced.wordsOf_eq, hwords]

/-- What the last word for a parameter says, among words that are read in a row. -/
theorem lastSetting?_of_last {parameter : Parameter} {before after : List (List Char)}
    {word value : List Char} (hsaid : Says parameter word value)
    (hafter : ∀ other ∈ after, ¬ Concerns parameter other) :
    lastSetting? parameter ((before ++ word :: after).map String.ofList) =
      some (String.ofList value) := by
  have hnone : lastSetting? parameter (after.map String.ofList) = none := by
    refine List.findSome?_eq_none_iff.mpr fun other hother => ?_
    obtain ⟨chars, hchars, rfl⟩ := List.mem_map.mp (List.mem_reverse.mp hother)
    exact setting?_of_not_concerns (hafter chars hchars)
  rw [List.map_append, List.map_cons, lastSetting?_append, lastSetting?_cons, hnone, hsaid.setting?]
  rfl

/-- Words of which none is for a parameter do not set it. -/
theorem lastSetting?_eq_none {parameter : Parameter} {words : List (List Char)}
    (h : ∀ word ∈ words, ¬ Concerns parameter word) :
    lastSetting? parameter (words.map String.ofList) = none := by
  refine List.findSome?_eq_none_iff.mpr fun other hother => ?_
  obtain ⟨chars, hchars, rfl⟩ := List.mem_map.mp (List.mem_reverse.mp hother)
  exact setting?_of_not_concerns (h chars hchars)

/-- Among words, there is a last one for a parameter, unless there is none. -/
theorem exists_last_concerns (parameter : Parameter) (words : List (List Char)) :
    (∀ word ∈ words, ¬ Concerns parameter word) ∨
      ∃ before word after, words = before ++ word :: after ∧ Concerns parameter word ∧
        ∀ other ∈ after, ¬ Concerns parameter other := by
  induction words with
  | nil => exact .inl (List.forall_mem_nil _)
  | cons word words ih =>
    rcases ih with hnone | ⟨before, last, after, rfl, hlast, hafter⟩
    · by_cases hword : Concerns parameter word
      · exact .inr ⟨[], word, words, rfl, hword, hnone⟩
      · exact .inl (List.forall_mem_cons.mpr ⟨hword, hnone⟩)
    · exact .inr ⟨word :: before, last, after, rfl, hlast, hafter⟩

/-! ## Changes that do not matter -/

/-- Two sequences of words that differ in one place: by a word that is for no parameter, or by the
order of two words that are not for the same one. -/
inductive Differs : List (List Char) → List (List Char) → Prop
  | unused {before after : List (List Char)} {word : List Char}
      (hunused : ∀ parameter, ¬ Concerns parameter word) :
      Differs (before ++ word :: after) (before ++ after)
  | swapped {before after : List (List Char)} {first second : List Char}
      (happart : ∀ parameter, ¬ (Concerns parameter first ∧ Concerns parameter second)) :
      Differs (before ++ first :: second :: after) (before ++ second :: first :: after)

/-- Words that differ in such a way set the parameters to the same. -/
theorem Differs.lastSetting?_eq {words others : List (List Char)} (h : Differs words others)
    (parameter : Parameter) :
    lastSetting? parameter (words.map String.ofList) =
      lastSetting? parameter (others.map String.ofList) := by
  cases h with
  | unused hunused =>
    simp only [List.map_append, List.map_cons, lastSetting?_append, lastSetting?_cons,
      setting?_of_not_concerns (hunused parameter), Option.or_none]
  | @swapped before after first second happart =>
    simp only [List.map_append, List.map_cons, lastSetting?_append, lastSetting?_cons]
    by_cases hfirst : Concerns parameter first
    · have hsecond : ¬ Concerns parameter second := fun hsecond => happart parameter ⟨hfirst, hsecond⟩
      rw [setting?_of_not_concerns hsecond, Option.or_none, Option.or_none]
    · rw [setting?_of_not_concerns hfirst, Option.or_none, Option.or_none]

/-- So do words that become the others by any number of such changes, in either direction. -/
theorem lastSetting?_eq_of_eqvGen {words others : List (List Char)}
    (h : Relation.EqvGen Differs words others) (parameter : Parameter) :
    lastSetting? parameter (words.map String.ofList) =
      lastSetting? parameter (others.map String.ofList) := by
  induction h with
  | rel _ _ hdiffers => exact hdiffers.lastSetting?_eq parameter
  | refl => rfl
  | symm _ _ _ ih => exact ih.symm
  | trans _ _ _ _ _ ih₁ ih₂ => exact ih₁.trans ih₂

/-- **A parameter is what the last word for it says, and its default when there is none.** So data
sources that consist of the same words, up to words that are for no parameter and to the order of
words for different ones, are read as the same connection, whatever the blanks between the words. -/
theorem ofDataSource_last_words (dataSource : String) :
    (∃ words, ConsistsOf dataSource words) ∧ ∀ words, ConsistsOf dataSource words →
      (∀ parameter,
        (∃ before word after value, words = before ++ word :: after ∧ Says parameter word value ∧
          (∀ other ∈ after, ¬ Concerns parameter other) ∧
          (Postgis.ofDataSource dataSource).value? parameter = some (String.ofList value)) ∨
        (∀ word ∈ words, ¬ Concerns parameter word) ∧
          (Postgis.ofDataSource dataSource).value? parameter = parameter.default?) ∧
      ∀ other others, ConsistsOf other others → Relation.EqvGen Differs words others →
        Postgis.ofDataSource other = Postgis.ofDataSource dataSource := by
  have hdefault (parameter : Parameter) :
      ({} : Postgis).value? parameter = parameter.default? := by
    cases parameter <;> rfl
  refine ⟨⟨_, consistsOf_words dataSource⟩, fun words h => ⟨fun parameter => ?_, ?_⟩⟩
  · have hvalue := Postgis.value?_ofDataSource dataSource parameter
    rw [h.words_eq] at hvalue
    rcases exists_last_concerns parameter words with hnone | ⟨before, word, after, rfl, hlast, hafter⟩
    · rw [lastSetting?_eq_none hnone, Option.none_or, hdefault] at hvalue
      exact .inr ⟨hnone, hvalue⟩
    · obtain ⟨value, hsaid⟩ := exists_value_of_concerns hlast
      rw [lastSetting?_of_last hsaid hafter, Option.some_or] at hvalue
      exact .inl ⟨before, word, after, value, rfl, hsaid, hafter, hvalue⟩
  · intro other others hother hdiffers
    apply Postgis.eq_of_value?_eq
    intro parameter
    rw [Postgis.value?_ofDataSource, Postgis.value?_ofDataSource, h.words_eq, hother.words_eq,
      lastSetting?_eq_of_eqvGen hdiffers]

/-- The last of two words for the host counts, in whatever place the word for the geometry column and
a word for nothing are. -/
theorem ofDataSource_two_hosts :
    (Postgis.ofDataSource "host=a host='b' (shape").host = "b" ∧
      Postgis.ofDataSource "\thost=a (shape  host='b' sslmode" =
        Postgis.ofDataSource "host=a host='b' (shape" := by
  have hwords : wordsOf "host=a host='b' (shape".toList =
      ["host=a".toList] ++ "host='b'".toList :: "(shape".toList :: [] := by decide +kernel
  have hothers : wordsOf "\thost=a (shape  host='b' sslmode".toList =
      ["host=a".toList, "(shape".toList, "host='b'".toList] ++ "sslmode".toList :: [] := by
    decide +kernel
  have happart : ∀ parameter, ¬ (Concerns parameter "host='b'".toList ∧
      Concerns parameter "(shape".toList) := by
    intro parameter
    cases parameter <;> decide
  have hunused : ∀ parameter, ¬ Concerns parameter "sslmode".toList := by
    intro parameter
    cases parameter <;> decide
  have hlast := ofDataSource_last_words "host=a host='b' (shape"
  obtain ⟨-, hsame⟩ := hlast.2 _ (hwords ▸ consistsOf_words _)
  refine ⟨by decide +kernel, hsame _ _ (hothers ▸ consistsOf_words _) ?_⟩
  exact .trans _ _ _ (.rel _ _ (.swapped happart)) (.symm _ _ (.rel _ _ (.unused hunused)))

end Carta.Project
