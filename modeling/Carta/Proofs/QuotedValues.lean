import Carta.Proofs.ConfinedText
import Carta.Proofs.SourceWords

/-!
# Values between quotes

A data source can give every parameter once: a value between single quotes behind its key, and the
geometry column between parentheses. The quotes come off again, and the order of the parameters does
not matter. But they do not hold a value together: a data source is divided at its blanks first, so
the values come back exactly when there is no blank in them.
-/

namespace Carta.Project

open Carta.Text (isBlank wordsOf wordsOf_append_cons wordsOf_eq_singleton)

/-! ## Words and their settings -/

/-- No blank is in a word. -/
theorem isBlank_eq_false_of_mem_words {s word : String} (h : word ∈ Text.words s) {c : Char}
    (hc : c ∈ word.toList) : isBlank c = false := by
  obtain ⟨part, hpart, rfl⟩ := List.mem_map.mp h
  rw [String.toList_ofList] at hc
  exact Text.eq_false_of_mem_splitWhere (List.mem_filter.mp hpart).1 c hc

/-- Single quotes around characters come off. -/
theorem unquoteChars_quoted (cs : List Char) :
    unquoteChars (Mapfile.quoteMark :: cs ++ [Mapfile.quoteMark]) = cs := by
  have hquote : Mapfile.quoteMark.toNat = 39 := rfl
  rw [List.cons_append, unquoteChars, if_pos (by simp [hquote]), List.dropLast_concat]

/-- What a word sets a parameter to is part of the word. -/
theorem subset_of_setting? {word value : String} {parameter : Parameter}
    (h : (SourceWord.read word).setting? parameter = some value) : value.toList ⊆ word.toList := by
  unfold SourceWord.read at h
  split at h
  next column heq =>
    obtain ⟨-, hvalue⟩ := Option.ite_some_none_eq_some.mp h
    rw [heq, ← hvalue, String.toList_ofList]
    split
    · exact List.subset_cons_of_subset _ (List.dropLast_subset column)
    · exact List.subset_cons_self _ column
  next =>
    split at h
    next => simp [SourceWord.setting?] at h
    next key text hsplit =>
      obtain ⟨-, hvalue⟩ := Option.ite_some_none_eq_some.mp h
      rw [← hvalue, unquote, String.toList_ofList, String.toList_ofList]
      exact fun c hc => subset_of_splitAtEquals? hsplit (unquoteChars_subset text hc)

/-- No blank is in a default. -/
theorem isBlank_eq_false_of_default {parameter : Parameter} {value : String}
    (h : ({} : Postgis).value? parameter = some value) {c : Char} (hc : c ∈ value.toList) :
    isBlank c = false := by
  have hall : ∀ text ∈ ({} : Postgis).value? parameter, text.toList.all (!isBlank ·) = true := by
    cases parameter <;> decide
  exact isBlank_eq_false_of_all (hall value h) c hc

/-- No blank is in what a parameter of a data source is. -/
theorem isBlank_eq_false_of_value? {dataSource value : String} {parameter : Parameter}
    (h : (Postgis.ofDataSource dataSource).value? parameter = some value) {c : Char}
    (hc : c ∈ value.toList) : isBlank c = false := by
  rw [Postgis.value?_ofDataSource, Option.or_eq_some_iff] at h
  obtain hset | ⟨-, hdefault⟩ := h
  · obtain ⟨word, hword, hset⟩ := exists_of_lastSetting? hset
    exact isBlank_eq_false_of_mem_words hword (subset_of_setting? hset hc)
  · exact isBlank_eq_false_of_default hdefault hc

/-- Words that all set a parameter to one value, if they set it at all, set it to that value. -/
theorem lastSetting?_eq_some {parameter : Parameter} {words : List String} {word value : String}
    (hword : word ∈ words) (hset : (SourceWord.read word).setting? parameter = some value)
    (hall : ∀ other ∈ words, ∀ text,
      (SourceWord.read other).setting? parameter = some text → text = value) :
    lastSetting? parameter words = some value := by
  cases hlast : lastSetting? parameter words with
  | none =>
    have hnone := List.findSome?_eq_none_iff.mp hlast word (List.mem_reverse.mpr hword)
    rw [hset] at hnone
    exact nomatch hnone
  | some text =>
    obtain ⟨other, hother, hsets⟩ := exists_of_lastSetting? hlast
    rw [hall other hother text hsets]

/-! ## Data sources that give every parameter once -/

/-- The parameters, each once. -/
def Parameter.all : List Parameter :=
  [.host, .dbname, .user, .password, .port, .table, .geometryColumn]

/-- The connection with the values as its parameters. -/
def Postgis.ofValues (values : Parameter → String) : Postgis where
  host := values .host
  dbname := values .dbname
  user := values .user
  password := values .password
  port := some (values .port)
  table := values .table
  geometryColumn := values .geometryColumn

/-- A connection made of values has each of them. -/
theorem Postgis.value?_ofValues (values : Parameter → String) (parameter : Parameter) :
    (ofValues values).value? parameter = some (values parameter) := by
  cases parameter <;> rfl

/-- The value of a parameter as a data source gives it: between quotes behind the key, and between
parentheses for the geometry column. -/
def Parameter.given (values : Parameter → String) (parameter : Parameter) : List Char :=
  match parameter.key? with
  | some key =>
    key.toList ++ '=' :: (Mapfile.quoteMark :: (values parameter).toList ++ [Mapfile.quoteMark])
  | none => '(' :: (values parameter).toList ++ [')']

/-- A text consists of items with one blank or more between them, and maybe others around them. -/
inductive Spaced : List (List Char) → List Char → Prop
  | nil : Spaced [] []
  | single (item : List Char) : Spaced [item] item
  | blank {c : Char} {items : List (List Char)} {text : List Char} (hblank : isBlank c = true)
      (rest : Spaced items text) : Spaced items (c :: text)
  | item {c : Char} {item text : List Char} {items : List (List Char)} (hblank : isBlank c = true)
      (rest : Spaced items text) : Spaced (item :: items) (item ++ c :: text)

/-- The words of a spaced text are those of its items. -/
theorem Spaced.wordsOf_eq {items : List (List Char)} {text : List Char} (h : Spaced items text) :
    wordsOf text = items.flatMap wordsOf := by
  induction h with
  | nil => rfl
  | single item => rw [List.flatMap_singleton]
  | @blank c items text hblank _ ih =>
    have hwords : wordsOf (c :: text) = wordsOf text := wordsOf_append_cons hblank [] text
    rw [hwords, ih]
  | item hblank _ ih => rw [wordsOf_append_cons hblank, ih, List.flatMap_cons]

/-- Items with one blank between any two are a spaced text. -/
theorem Spaced.intercalate {c : Char} (hblank : isBlank c = true) (items : List (List Char)) :
    Spaced items ([c].intercalate items) := by
  induction items with
  | nil => exact .nil
  | cons item rest ih =>
    cases rest with
    | nil =>
      rw [List.intercalate_singleton]
      exact .single item
    | cons next rest =>
      rw [List.intercalate_cons_cons, List.append_assoc, List.singleton_append]
      exact .item hblank ih

/-- Without a blank in the value, the parameter is given by one word. -/
theorem Parameter.wordsOf_given {values : Parameter → String} {parameter : Parameter}
    (h : ∀ c ∈ (values parameter).toList, isBlank c = false) :
    wordsOf (parameter.given values) = [parameter.given values] := by
  refine wordsOf_eq_singleton ?_ fun c hc => ?_
  · cases parameter <;> simp [given, key?]
  · have hparts : c ∈ (values parameter).toList ∨
        c ∈ (parameter.given fun _ => "") := by
      cases parameter <;> simp [given, key?] at hc ⊢ <;> tauto
    rcases hparts with hc | hc
    · exact h c hc
    · have hframe : ((parameter.given fun _ => "").all (!isBlank ·)) = true := by
        cases parameter <;> decide
      simpa using List.all_eq_true.mp hframe c hc

/-- A word that gives the geometry column is read as that. -/
theorem Parameter.read_given_geometryColumn (values : Parameter → String) :
    SourceWord.read (String.ofList (given values .geometryColumn)) =
      .geometryColumn (values .geometryColumn) := by
  have hchars : (String.ofList (given values .geometryColumn)).toList =
      '(' :: ((values .geometryColumn).toList ++ [')']) := String.toList_ofList
  simp [SourceWord.read, hchars]

/-- A word that gives another parameter is read as its key and its value. -/
theorem Parameter.read_given {parameter : Parameter} {key : String}
    (hkey : parameter.key? = some key) (values : Parameter → String) :
    SourceWord.read (String.ofList (parameter.given values)) = .parameter key (values parameter) := by
  obtain ⟨hparen, hequals⟩ : key.toList.head? ≠ some '(' ∧ '=' ∉ key.toList := by
    cases parameter <;> cases hkey <;> decide
  simp only [given, hkey]
  rw [SourceWord.read_key hparen hequals, unquoteChars_quoted, String.ofList_toList]

/-- The word that gives a parameter sets it to its value, and sets nothing else. -/
theorem Parameter.setting?_given (values : Parameter → String) (parameter other : Parameter) :
    (SourceWord.read (String.ofList (parameter.given values))).setting? other =
      if other = parameter then some (values parameter) else none := by
  cases hkey : parameter.key? with
  | none =>
    obtain rfl : parameter = .geometryColumn := by
      cases parameter <;> first | rfl | exact nomatch hkey
    rw [read_given_geometryColumn]
    rfl
  | some key =>
    have hsame : other.key? = some key ↔ other = parameter := by
      cases parameter <;> cases hkey <;> cases other <;> decide
    rw [read_given hkey, SourceWord.setting?]
    simp only [hsame]

/-- **Values between quotes come back exactly when there is no blank in them.** A data source gives
every parameter once, in any order and with any blanks between them. -/
theorem ofDataSource_eq_ofValues_iff {values : Parameter → String} {order : List Parameter}
    {dataSource : String} (horder : order.Perm Parameter.all)
    (hspaced : Spaced (order.map (Parameter.given values)) dataSource.toList) :
    Postgis.ofDataSource dataSource = Postgis.ofValues values ↔
      ∀ parameter, ∀ c ∈ (values parameter).toList, isBlank c = false := by
  refine ⟨fun h parameter c hc => ?_, fun h => Postgis.eq_of_value?_eq fun parameter => ?_⟩
  · have hvalue : (Postgis.ofDataSource dataSource).value? parameter = some (values parameter) := by
      rw [h, Postgis.value?_ofValues]
    exact isBlank_eq_false_of_value? hvalue hc
  · have hwords : Text.words dataSource =
        order.map fun parameter => String.ofList (parameter.given values) := by
      have hone : (order.map (Parameter.given values)).flatMap wordsOf =
          order.map (Parameter.given values) := by
        rw [List.flatMap_map, ← List.flatMap_pure_eq_map]
        exact List.flatMap_congr fun given _ => Parameter.wordsOf_given (h given)
      rw [Text.words, hspaced.wordsOf_eq, hone, List.map_map]
      rfl
    have hmem : parameter ∈ order := horder.mem_iff.mpr (by cases parameter <;> decide)
    have hlast : lastSetting? parameter (Text.words dataSource) = some (values parameter) := by
      rw [hwords]
      refine lastSetting?_eq_some (List.mem_map_of_mem hmem)
        (by rw [Parameter.setting?_given, if_pos rfl]) fun other hother text htext => ?_
      obtain ⟨given, -, rfl⟩ := List.mem_map.mp hother
      rw [Parameter.setting?_given] at htext
      obtain ⟨rfl, hvalue⟩ := Option.ite_some_none_eq_some.mp htext
      exact hvalue.symm
    rw [Postgis.value?_ofDataSource, hlast, Option.some_or, Postgis.value?_ofValues]

/-- The values for a table of lakes that is behind a password. -/
def lakesValues (password : String) : Parameter → String
  | .host => "db"
  | .dbname => ""
  | .user => "bob"
  | .password => password
  | .port => "5433"
  | .table => "public.lakes"
  | .geometryColumn => "wkb"

/-- An order in which the values of the lakes are given. -/
def lakesOrder : List Parameter :=
  [.table, .geometryColumn, .host, .dbname, .user, .password, .port]

/-- A data source that gives the values of the lakes, with a blank between any two. -/
def lakesSource (password : String) : String :=
  String.ofList ([' '].intercalate (lakesOrder.map (Parameter.given (lakesValues password))))

/-- The words of the lakes are divided by blanks. -/
theorem spaced_lakes (password : String) :
    Spaced (lakesOrder.map (Parameter.given (lakesValues password))) (lakesSource password).toList := by
  rw [lakesSource, String.toList_ofList]
  exact .intercalate rfl _

/-- Equals signs and parentheses in a password do not matter. -/
theorem ofDataSource_lakes :
    lakesSource "a=(b)" =
        "table='public.lakes' (wkb) host='db' dbname='' user='bob' password='a=(b)' port='5433'" ∧
      Postgis.ofDataSource (lakesSource "a=(b)") = Postgis.ofValues (lakesValues "a=(b)") := by
  refine ⟨by decide +kernel, ?_⟩
  refine (ofDataSource_eq_ofValues_iff (by decide) (spaced_lakes _)).mpr fun parameter => ?_
  refine isBlank_eq_false_of_all ?_
  cases parameter <;> decide

/-- A blank does: what is read of the password ends there. -/
theorem ofDataSource_lakes_ne :
    (Postgis.ofDataSource (lakesSource "my secret")).password = "'my" ∧
      ¬ ∀ (values : Parameter → String) (order : List Parameter) (dataSource : String),
        (∀ parameter ≠ .geometryColumn, Mapfile.quoteMark ∉ (values parameter).toList) →
        (∀ c ∈ (values .geometryColumn).toList, isBlank c = false ∧ c ≠ '(' ∧ c ≠ ')') →
        order.Perm Parameter.all →
        Spaced (order.map (Parameter.given values)) dataSource.toList →
        Postgis.ofDataSource dataSource = Postgis.ofValues values := by
  have hread : (Postgis.ofDataSource (lakesSource "my secret")).password = "'my" := by
    decide +kernel
  have hall : (lakesValues "my secret" .geometryColumn).toList.all
      (fun c => !isBlank c && c != '(' && c != ')') = true := by decide
  refine ⟨hread, fun h => ?_⟩
  have hsame := h (lakesValues "my secret") lakesOrder (lakesSource "my secret")
    (fun parameter _ => by cases parameter <;> decide)
    (fun c hc => by simpa [and_assoc] using List.all_eq_true.mp hall c hc) (by decide)
    (spaced_lakes _)
  rw [hsame] at hread
  exact absurd hread (by decide)

end Carta.Project
