import Carta.Project.Connection
import Carta.Proofs.Tokens

/-!
# The words of a data source

A data source of PostGIS is read word by word, and every word sets one of seven parameters or none.
So what a parameter is in the end is what the last word that sets it says, and where there is no such
word it is as it was before. A subset filter behind the data source is read in the same way: only the
piece of it that is joined to `sql=` sets nothing whatever it says.
-/

namespace Carta.Project

open Carta.Text (isBlank wordsOf wordsOf_append_cons wordsOf_eq_singleton)

/-- What the words of a data source can set. -/
inductive Parameter
  | host
  | dbname
  | user
  | password
  | port
  | table
  | geometryColumn
  deriving Repr, DecidableEq

/-- The key in a word that sets the parameter. The geometry column has none. -/
def Parameter.key? : Parameter → Option String
  | .host => some "host"
  | .dbname => some "dbname"
  | .user => some "user"
  | .password => some "password"
  | .port => some "port"
  | .table => some "table"
  | .geometryColumn => none

/-- What a word sets a parameter to. -/
def SourceWord.setting? (parameter : Parameter) : SourceWord → Option String
  | .geometryColumn name => if parameter = .geometryColumn then some name else none
  | .parameter key value => if parameter.key? = some key then some value else none
  | .other => none

/-- What the last word that sets a parameter sets it to. -/
def lastSetting? (parameter : Parameter) (words : List String) : Option String :=
  words.reverse.findSome? fun word => (SourceWord.read word).setting? parameter

/-- The words behind count before those in front. -/
theorem lastSetting?_append (parameter : Parameter) (words others : List String) :
    lastSetting? parameter (words ++ others) =
      (lastSetting? parameter others).or (lastSetting? parameter words) := by
  rw [lastSetting?, List.reverse_append, List.findSome?_append]
  rfl

/-- A word in front counts only where no word behind it sets the parameter. -/
theorem lastSetting?_cons (parameter : Parameter) (word : String) (words : List String) :
    lastSetting? parameter (word :: words) =
      (lastSetting? parameter words).or ((SourceWord.read word).setting? parameter) := by
  rw [← List.singleton_append, lastSetting?_append]
  congr 1
  exact List.findSome?_singleton

/-- The last setting is what one of the words says. -/
theorem exists_of_lastSetting? {parameter : Parameter} {words : List String} {value : String}
    (h : lastSetting? parameter words = some value) :
    ∃ word ∈ words, (SourceWord.read word).setting? parameter = some value := by
  obtain ⟨word, hmem, hset⟩ := List.exists_of_findSome?_eq_some h
  exact ⟨word, List.mem_reverse.mp hmem, hset⟩

namespace Postgis

/-- What a parameter is. Only the port can be missing. -/
def value? (postgis : Postgis) : Parameter → Option String
  | .host => some postgis.host
  | .dbname => some postgis.dbname
  | .user => some postgis.user
  | .password => some postgis.password
  | .port => postgis.port
  | .table => some postgis.table
  | .geometryColumn => some postgis.geometryColumn

/-- Connections with the same parameters are the same. -/
theorem eq_of_value?_eq {postgis other : Postgis}
    (h : ∀ parameter, postgis.value? parameter = other.value? parameter) : postgis = other := by
  have hhost := Option.some.inj (h .host)
  have hdbname := Option.some.inj (h .dbname)
  have huser := Option.some.inj (h .user)
  have hpassword := Option.some.inj (h .password)
  have htable := Option.some.inj (h .table)
  have hcolumn := Option.some.inj (h .geometryColumn)
  cases postgis
  cases other
  rw [mk.injEq]
  exact ⟨hhost, hdbname, huser, hpassword, h .port, htable, hcolumn⟩

/-- One word sets what it says, and leaves the other parameters as they are. -/
theorem value?_put (postgis : Postgis) (word : SourceWord) (parameter : Parameter) :
    (postgis.put word).value? parameter = (word.setting? parameter).or (postgis.value? parameter) := by
  cases word with
  | geometryColumn name => cases parameter <;> rfl
  | other => rfl
  | parameter key value =>
    dsimp only [put]
    split
    case h_7 hhost hdbname huser hpassword hport htable =>
      -- no parameter has the key
      have hkey : parameter.key? ≠ some key := by
        cases parameter <;> simp_all [Parameter.key?, eq_comm]
      rw [SourceWord.setting?, if_neg hkey, Option.none_or]
    all_goals cases parameter <;> rfl

/-- After several words a parameter is what the last one that sets it says, or what it was. -/
theorem value?_foldl_put (postgis : Postgis) (words : List String) (parameter : Parameter) :
    ((words.map SourceWord.read).foldl put postgis).value? parameter =
      (lastSetting? parameter words).or (postgis.value? parameter) := by
  induction words generalizing postgis with
  | nil => rfl
  | cons word rest ih =>
    rw [List.map_cons, List.foldl_cons, ih, value?_put, lastSetting?_cons, Option.or_assoc]

/-- A parameter of a data source is what its last word for it says, or the default. -/
theorem value?_ofDataSource (dataSource : String) (parameter : Parameter) :
    (ofDataSource dataSource).value? parameter =
      (lastSetting? parameter (Text.words dataSource)).or (({} : Postgis).value? parameter) :=
  value?_foldl_put {} _ parameter

end Postgis

/-- The key of a word ends at its first equals sign. -/
theorem splitAtEquals?_append {key : List Char} (h : '=' ∉ key) (value : List Char) :
    splitAtEquals? (key ++ '=' :: value) = some (key, value) := by
  induction key with
  | nil => rfl
  | cons c key ih =>
    rw [List.mem_cons, not_or] at h
    rw [List.cons_append, splitAtEquals?, if_neg (Ne.symm h.1), ih h.2]
    rfl

/-- A word sets the parameter of the key before its first equals sign. -/
theorem SourceWord.read_key {key : String} (hparen : key.toList.head? ≠ some '(')
    (hequals : '=' ∉ key.toList) (value : List Char) :
    read (String.ofList (key.toList ++ '=' :: value)) =
      .parameter key (String.ofList (unquoteChars value)) := by
  have hsplit := splitAtEquals?_append hequals value
  unfold read
  split
  next column heq =>
    rw [String.toList_ofList] at heq
    cases hkey : key.toList with
    | nil => simp [hkey] at heq
    | cons c rest => simp_all
  next =>
    rw [String.toList_ofList, hsplit]
    dsimp only
    rw [String.ofList_toList, unquote, String.toList_ofList]

/-! ## Subset filters -/

/-- A data source with a subset filter behind it. -/
def withFilter (dataSource filter : String) : String :=
  dataSource ++ " sql=" ++ filter

/-- The words of a subset filter that are read like those of the data source: all of them but the
piece that is joined to `sql=`. -/
def filterWords (filter : String) : List String :=
  Text.words (String.ofList (filter.toList.dropWhile (!isBlank ·)))

/-- Characters of which none is a blank, by looking at all of them. -/
theorem isBlank_eq_false_of_all {cs : List Char} (h : cs.all (!isBlank ·) = true) :
    ∀ c ∈ cs, isBlank c = false := by
  simpa using h

/-- Characters joined to others are one word with those up to the first blank. -/
theorem wordsOf_append {joined : List Char} (hne : joined ≠ [])
    (hjoined : ∀ c ∈ joined, isBlank c = false) (cs : List Char) :
    wordsOf (joined ++ cs) =
      (joined ++ cs.takeWhile (!isBlank ·)) :: wordsOf (cs.dropWhile (!isBlank ·)) := by
  have hword : wordsOf (joined ++ cs.takeWhile (!isBlank ·)) =
      [joined ++ cs.takeWhile (!isBlank ·)] := by
    refine wordsOf_eq_singleton (by simp [hne]) fun c hc => ?_
    rcases List.mem_append.mp hc with hc | hc
    · exact hjoined c hc
    · simpa using List.mem_takeWhile_imp hc
  conv_lhs => rw [← List.takeWhile_append_dropWhile (p := (!isBlank ·)) (l := cs), ← List.append_assoc]
  cases hrest : cs.dropWhile (!isBlank ·) with
  | nil => rw [List.append_nil, hword]; rfl
  | cons c rest =>
    have hblank : isBlank c = true := by
      simpa [hrest] using List.head?_dropWhile_not (!isBlank ·) cs
    have hbefore : wordsOf (c :: rest) = wordsOf rest := wordsOf_append_cons hblank [] rest
    rw [wordsOf_append_cons hblank, hword, hbefore]
    rfl

/-- The words of a data source with a filter are its own, one for `sql=` and what is joined to it,
and those of the filter behind that. -/
theorem words_withFilter (dataSource filter : String) :
    Text.words (withFilter dataSource filter) =
      Text.words dataSource ++
        String.ofList ("sql".toList ++ '=' :: filter.toList.takeWhile (!isBlank ·)) ::
          filterWords filter := by
  have hchars : (withFilter dataSource filter).toList =
      dataSource.toList ++ ' ' :: ("sql=".toList ++ filter.toList) := by
    simp [withFilter]
  have hsplit : wordsOf ("sql=".toList ++ filter.toList) =
      ("sql=".toList ++ filter.toList.takeWhile (!isBlank ·)) ::
        wordsOf (filter.toList.dropWhile (!isBlank ·)) :=
    wordsOf_append (by decide) (isBlank_eq_false_of_all (by decide)) filter.toList
  simp only [Text.words, filterWords, hchars, wordsOf_append_cons (show isBlank ' ' = true from rfl),
    hsplit, List.map_append, List.map_cons, String.toList_ofList]
  rfl

/-- A subset filter sets a parameter to what the last of its words that sets it says. -/
theorem value?_withFilter (dataSource filter : String) (parameter : Parameter) :
    (Postgis.ofDataSource (withFilter dataSource filter)).value? parameter =
      (lastSetting? parameter (filterWords filter)).or
        ((Postgis.ofDataSource dataSource).value? parameter) := by
  have hjoined : (SourceWord.read (String.ofList
      ("sql".toList ++ '=' :: filter.toList.takeWhile (!isBlank ·)))).setting? parameter = none := by
    rw [SourceWord.read_key (by decide) (by decide)]
    cases parameter <;> rfl
  rw [Postgis.value?_ofDataSource, Postgis.value?_ofDataSource, words_withFilter,
    lastSetting?_append, lastSetting?_cons, hjoined, Option.or_none, Option.or_assoc]

/-- A subset filter is read like the data source in front of it. A parameter is what the last word of
the filter that sets it says, and what it is without the filter where there is none. So the connection
is the same with the filter and without it exactly when the last word of the filter for each parameter
says what the data source says. -/
theorem ofDataSource_withFilter (dataSource filter : String) :
    (∀ parameter, (Postgis.ofDataSource (withFilter dataSource filter)).value? parameter =
      (lastSetting? parameter (filterWords filter)).or
        ((Postgis.ofDataSource dataSource).value? parameter)) ∧
    (Postgis.ofDataSource (withFilter dataSource filter) = Postgis.ofDataSource dataSource ↔
      ∀ parameter value, lastSetting? parameter (filterWords filter) = some value →
        (Postgis.ofDataSource dataSource).value? parameter = some value) := by
  refine ⟨value?_withFilter dataSource filter, fun h parameter value hset => ?_, fun h => ?_⟩
  · have hvalue := value?_withFilter dataSource filter parameter
    rw [h, hset, Option.some_or] at hvalue
    exact hvalue
  · refine Postgis.eq_of_value?_eq fun parameter => ?_
    rw [value?_withFilter]
    cases hset : lastSetting? parameter (filterWords filter) with
    | none => rw [Option.none_or]
    | some value => rw [Option.some_or, h parameter value hset]

/-- A condition in parentheses is taken for the geometry column. -/
theorem exists_withFilter_ne :
    (Postgis.ofDataSource (withFilter "table=roads (geom)" "kind = 1 and (user='bob')")).dataStatement =
        "user='bob' FROM roads" ∧
      (Postgis.ofDataSource "table=roads (geom)").dataStatement = "geom FROM roads" ∧
      ¬ ∀ dataSource filter : String,
        Postgis.ofDataSource (withFilter dataSource filter) = Postgis.ofDataSource dataSource := by
  have hwith : (Postgis.ofDataSource
      (withFilter "table=roads (geom)" "kind = 1 and (user='bob')")).dataStatement =
        "user='bob' FROM roads" := by decide +kernel
  have hwithout : (Postgis.ofDataSource "table=roads (geom)").dataStatement = "geom FROM roads" := by
    decide +kernel
  refine ⟨hwith, hwithout, fun h => ?_⟩
  rw [h, hwithout] at hwith
  exact absurd hwith (by decide)

end Carta.Project
