import Carta.Proofs.QuotedValues
import Mathlib.Data.List.Nodup
import Mathlib.Data.List.Perm.Subperm

/-!
# How a connection is read

The client of the database divides the text of a connection into keywords and their values. Blanks
before a keyword are skipped, the keyword goes up to the equals sign, and the blanks after that are
skipped as well. The value goes up to the next blank or, when it begins with a single quote, to the
quote that closes it. Between quotes a backslash stands for the character after it. Whether it does
so outside of quotes is left open here, and what follows holds in both cases.

The values of a connection are written as they are. Every character adds at most one to what is read,
and a text without waste adds up to exactly what is written. A value that is not read as itself
wastes a character, which nothing behind it makes up for.
-/

namespace Carta.Project

open Carta.Mapfile (quoteMark)
open Carta.Text (isBlank)

/-- The keywords of a connection and their values, in the order in which they are written. -/
def Postgis.assignments (postgis : Postgis) : List (String × String) :=
  [("host", postgis.host), ("dbname", postgis.dbname), ("password", postgis.password),
    ("user", postgis.user)] ++ postgis.port.toList.map (("port", ·))

namespace ConnectionText

/-- The blanks between the parts of a connection: a space, a tab, and the characters that begin a new
line or page. -/
def isSeparator (c : Char) : Bool :=
  c == ' ' || (9 ≤ c.toNat && c.toNat ≤ 13)

/-- Where reading is. What was read of a keyword or a value is held with the latest character
first. -/
inductive Place
  | between
  | keyword (read : List Char)
  | afterKeyword (read : List Char)
  | beforeValue (key : String)
  | bare (key : String) (read : List Char)
  | quoted (key : String) (read : List Char)
  /-- After a backslash. -/
  | escaped (key : String) (read : List Char) (inQuotes : Bool)

/-- Text as it is read, from its characters with the latest first. -/
def textOf (read : List Char) : String :=
  String.ofList read.reverse

/-- Reading after one more character, and the assignment that it completes. After a keyword, nothing
but blanks may stand before the equals sign. -/
def Place.take (bareEscapes : Bool) (c : Char) : Place → Option (Place × List (String × String))
  | .between =>
    some (if isSeparator c then .between else if c = '=' then .beforeValue "" else .keyword [c], [])
  | .keyword read =>
    some (if c = '=' then .beforeValue (textOf read)
      else if isSeparator c then .afterKeyword read else .keyword (c :: read), [])
  | .afterKeyword read =>
    if c = '=' then some (.beforeValue (textOf read), [])
    else if isSeparator c then some (.afterKeyword read, []) else none
  | .beforeValue key =>
    some (if isSeparator c then .beforeValue key
      else if c = quoteMark then .quoted key []
      else if bareEscapes = true ∧ c = '\\' then .escaped key [] false
      else .bare key [c], [])
  | .bare key read =>
    some (if isSeparator c then (.between, [(key, textOf read)])
      else if bareEscapes = true ∧ c = '\\' then (.escaped key read false, [])
      else (.bare key (c :: read), []))
  | .quoted key read =>
    some (if c = quoteMark then (.between, [(key, textOf read)])
      else if c = '\\' then (.escaped key read true, [])
      else (.quoted key (c :: read), []))
  | .escaped key read inQuotes =>
    some (if inQuotes then .quoted key (c :: read) else .bare key (c :: read), [])

/-- The assignment that the end of the text completes. It may not stand in a keyword or between
quotes. -/
def Place.finish : Place → Option (List (String × String))
  | .between => some []
  | .beforeValue key => some [(key, "")]
  | .bare key read => some [(key, textOf read)]
  | .escaped key read false => some [(key, textOf read)]
  | _ => none

/-- The assignments that characters complete, read from a place on. -/
def readFrom (bareEscapes : Bool) : Place → List Char → Option (List (String × String))
  | place, [] => place.finish
  | place, c :: cs => do
    let (next, first) ← place.take bareEscapes c
    let others ← readFrom bareEscapes next cs
    some (first ++ others)

/-- The assignments in the text of a connection. -/
def read (bareEscapes : Bool) (s : String) : Option (List (String × String)) :=
  readFrom bareEscapes .between s.toList

/-! ## What characters add -/

/-- The number of characters that writing assignments takes, with one behind each. -/
def weight : List (String × String) → Nat
  | [] => 0
  | (key, value) :: rest => key.length + value.length + 2 + weight rest

/-- The number of characters that are kept of an assignment that has begun. -/
def Place.weight : Place → Nat
  | .between => 0
  | .keyword read => read.length
  | .afterKeyword read => read.length
  | .beforeValue key => key.length + 1
  | .bare key read => key.length + 1 + read.length
  | .quoted key read => key.length + 1 + read.length
  | .escaped key read _ => key.length + 1 + read.length

/-- Read characters are as long as their text. -/
@[simp] theorem length_textOf (read : List Char) : (textOf read).length = read.length := by
  simp [textOf]

/-- Assignments that stand together take as many characters as each part. -/
theorem weight_append (first second : List (String × String)) :
    weight (first ++ second) = weight first + weight second := by
  induction first with
  | nil => rw [List.nil_append, weight, Nat.zero_add]
  | cons assignment first ih =>
    rw [List.cons_append, weight, weight, ih]
    omega

/-- The order of assignments does not change how many characters they take. -/
theorem weight_eq_of_perm {first second : List (String × String)} (h : first.Perm second) :
    weight first = weight second := by
  induction h with
  | nil => rfl
  | cons _ _ ih => rw [weight, weight, ih]
  | swap =>
    simp only [weight]
    omega
  | trans _ _ ihfirst ihsecond => rw [ihfirst, ihsecond]

section Waste

variable {bareEscapes : Bool} {place next : Place} {c : Char} {cs : List Char}
  {first assignments : List (String × String)}

/-- One character adds at most one. -/
theorem Place.weight_take (h : place.take bareEscapes c = some (next, first)) :
    ConnectionText.weight first + next.weight ≤ place.weight + 1 := by
  cases place <;> simp only [take] at h <;> split_ifs at h <;> cases h <;>
    simp only [ConnectionText.weight, weight, length_textOf, String.length_empty,
      List.length_cons, List.length_nil] <;>
    omega

/-- The end of the text adds at most one. -/
theorem Place.weight_finish (h : place.finish = some assignments) :
    ConnectionText.weight assignments ≤ place.weight + 1 := by
  unfold finish at h
  split at h <;> cases h <;>
    simp only [ConnectionText.weight, weight, length_textOf, String.length_empty] <;> omega

/-- What is read of a character and more is what the character completes, and what is read then. -/
theorem exists_of_readFrom_cons (h : readFrom bareEscapes place (c :: cs) = some assignments) :
    ∃ next first others, place.take bareEscapes c = some (next, first) ∧
      readFrom bareEscapes next cs = some others ∧ assignments = first ++ others := by
  rw [readFrom] at h
  obtain ⟨⟨next, first⟩, htake, h⟩ := Option.bind_eq_some_iff.mp h
  obtain ⟨others, hothers, h⟩ := Option.bind_eq_some_iff.mp h
  exact ⟨next, first, others, htake, hothers, (Option.some.inj h).symm⟩

/-- What is read weighs at most what the characters and the end of the text can add. -/
theorem weight_readFrom (h : readFrom bareEscapes place cs = some assignments) :
    weight assignments ≤ place.weight + cs.length + 1 := by
  induction cs generalizing place assignments with
  | nil => exact Place.weight_finish h
  | cons c cs ih =>
    obtain ⟨next, first, others, htake, hothers, rfl⟩ := exists_of_readFrom_cons h
    have hfirst := Place.weight_take htake
    have hlater := ih hothers
    rw [weight_append, List.length_cons]
    omega

/-- A character that adds nothing is missing in what is read. -/
theorem weight_lt_of_waste (htake : place.take bareEscapes c = some (next, []))
    (hwaste : next.weight ≤ place.weight)
    (h : readFrom bareEscapes place (c :: cs) = some assignments) :
    weight assignments < place.weight + (c :: cs).length + 1 := by
  obtain ⟨next', first, others, htake', hothers, rfl⟩ := exists_of_readFrom_cons h
  obtain ⟨rfl, rfl⟩ := Prod.mk.inj (Option.some.inj (htake.symm.trans htake'))
  have hlater := weight_readFrom hothers
  rw [List.nil_append, List.length_cons]
  omega

end Waste

/-! ## Values written as they are -/

/-- A keyword is not empty and has no equals sign and no blank in it. -/
def IsKeyword (key : String) : Prop :=
  key ≠ "" ∧ key.toList.all (fun c => !isSeparator c && c != '=') = true

instance : DecidablePred IsKeyword := fun key =>
  inferInstanceAs (Decidable (key ≠ "" ∧ key.toList.all _ = true))

/-- No blank is in a value. -/
def IsUndivided (value : String) : Prop :=
  ∀ c ∈ value.toList, isSeparator c = false

/-- A value that can stand without quotes: it begins with none, and no backslash in it stands for
the character after it. -/
structure IsBare (bareEscapes : Bool) (value : String) : Prop where
  head : value.toList.head? ≠ some quoteMark
  backslash : bareEscapes = true → '\\' ∉ value.toList

/-- Assignments with a space between any two. -/
def written : List (String × String) → List Char
  | [] => []
  | [(key, value)] => key.toList ++ '=' :: value.toList
  | (key, value) :: next :: rest =>
    key.toList ++ '=' :: (value.toList ++ ' ' :: written (next :: rest))

/-- Assignments that are read as they are written: every value can stand without quotes, and none but
the last is empty. -/
def Legible (bareEscapes : Bool) : List (String × String) → Prop
  | [] => True
  | [(_, value)] => IsBare bareEscapes value
  | (_, value) :: next :: rest =>
    value ≠ "" ∧ IsBare bareEscapes value ∧ Legible bareEscapes (next :: rest)

/-- Writing takes one character less than the assignments weigh. -/
theorem length_written {assignments : List (String × String)} (hne : assignments ≠ []) :
    (written assignments).length + 1 = weight assignments := by
  induction assignments with
  | nil => exact absurd rfl hne
  | cons assignment rest ih =>
    obtain ⟨key, value⟩ := assignment
    cases rest with
    | nil =>
      simp only [written, weight, List.length_append, List.length_cons,
        String.length_toList]
      omega
    | cons next rest =>
      have hrest := ih (List.cons_ne_nil _ _)
      simp only [written, weight, List.length_append, List.length_cons,
        String.length_toList] at hrest ⊢
      omega

section Reading

variable {bareEscapes : Bool}

/-- A keyword is read up to the equals sign. -/
theorem readFrom_keyword {key : String} (h : IsKeyword key) (more : List Char) :
    readFrom bareEscapes .between (key.toList ++ '=' :: more) =
      readFrom bareEscapes (.beforeValue key) more := by
  have hinside : ∀ cs read : List Char, cs.all (fun c => !isSeparator c && c != '=') = true →
      readFrom bareEscapes (.keyword read) (cs ++ '=' :: more) =
        readFrom bareEscapes (.beforeValue (textOf (cs.reverse ++ read))) more := by
    intro cs
    induction cs with
    | nil => intro read _; simp [readFrom, Place.take]
    | cons c cs ih =>
      intro read hall
      simp only [List.all_cons, Bool.and_eq_true, Bool.not_eq_true', bne_iff_ne] at hall
      simp [readFrom, Place.take, hall.1.1, hall.1.2, ih (c :: read) hall.2]
  obtain ⟨c, cs, hchars⟩ := List.exists_cons_of_ne_nil (mt String.toList_eq_nil_iff.mp h.1)
  have hall := h.2
  rw [hchars] at hall
  simp only [List.all_cons, Bool.and_eq_true, Bool.not_eq_true', bne_iff_ne] at hall
  have htext : textOf (cs.reverse ++ [c]) = key := by
    rw [textOf, List.reverse_append, List.reverse_reverse, List.reverse_singleton,
      List.singleton_append, ← hchars, String.ofList_toList]
  rw [hchars, List.cons_append, readFrom]
  simp [Place.take, hall.1.1, hall.1.2, hinside cs [c] hall.2, htext]

/-- Outside quotes, characters that are neither blanks nor backslashes with a meaning are kept. -/
theorem readFrom_bare (key : String) {cs : List Char} (hblank : ∀ c ∈ cs, isSeparator c = false)
    (hbackslash : bareEscapes = true → '\\' ∉ cs) (read more : List Char) :
    readFrom bareEscapes (.bare key read) (cs ++ more) =
      readFrom bareEscapes (.bare key (cs.reverse ++ read)) more := by
  induction cs generalizing read with
  | nil => rfl
  | cons c cs ih =>
    rw [List.forall_mem_cons] at hblank
    have hplain : ¬ (bareEscapes = true ∧ c = '\\') := by
      rintro ⟨hescapes, rfl⟩
      exact hbackslash hescapes List.mem_cons_self
    have hrest := ih hblank.2 fun hescapes hmem => hbackslash hescapes (List.mem_cons_of_mem _ hmem)
    rw [List.cons_append, readFrom]
    simp [Place.take, hblank.1, hplain, hrest]

/-- Reading a value that can stand without quotes and is not empty. -/
theorem readFrom_value (key : String) {value : String} (hne : value ≠ "") (hblank : IsUndivided value)
    (hbare : IsBare bareEscapes value) (more : List Char) :
    readFrom bareEscapes (.beforeValue key) (value.toList ++ more) =
      readFrom bareEscapes (.bare key value.toList.reverse) more := by
  obtain ⟨hhead, hbackslash⟩ := hbare
  rw [IsUndivided] at hblank
  obtain ⟨c, cs, hchars⟩ := List.exists_cons_of_ne_nil (mt String.toList_eq_nil_iff.mp hne)
  rw [hchars] at hhead hblank hbackslash ⊢
  rw [List.forall_mem_cons] at hblank
  have hquote : c ≠ quoteMark := by simpa using hhead
  have hplain : ¬ (bareEscapes = true ∧ c = '\\') := by
    rintro ⟨hescapes, rfl⟩
    exact hbackslash hescapes List.mem_cons_self
  have hrest := readFrom_bare key hblank.2
    (fun hescapes hmem => hbackslash hescapes (List.mem_cons_of_mem _ hmem)) [c] more
  rw [List.cons_append, readFrom]
  simp [Place.take, hblank.1, hquote, hplain, hrest]

/-- Where a backslash stands for the character after it, a value with a backslash wastes one. -/
theorem weight_lt_of_backslash {key value : String} (hblank : IsUndivided value)
    (hhead : value.toList.head? ≠ some quoteMark) (hmem : '\\' ∈ value.toList) {more : List Char}
    {assignments : List (String × String)}
    (h : readFrom true (.beforeValue key) (value.toList ++ more) = some assignments) :
    weight assignments < key.length + 1 + (value.toList ++ more).length + 1 := by
  -- what is before the first backslash is read as it is
  obtain ⟨front, back, hchars, hfront⟩ := List.eq_append_cons_of_mem hmem
  cases front with
  | nil =>
    have htake : Place.take true '\\' (.beforeValue key) = some (.escaped key [] false, []) := rfl
    rw [hchars] at h ⊢
    exact weight_lt_of_waste htake (Nat.le_refl _) h
  | cons c cs =>
    have hpart : (String.ofList (c :: cs)).toList = c :: cs := String.toList_ofList
    have hne : String.ofList (c :: cs) ≠ "" := by simp [← String.toList_inj]
    have hundivided : IsUndivided (String.ofList (c :: cs)) := by
      intro d hd
      rw [hpart] at hd
      exact hblank d (hchars ▸ List.mem_append_left _ hd)
    have hplain : IsBare true (String.ofList (c :: cs)) := by
      refine ⟨?_, fun _ => by rwa [hpart]⟩
      rw [hpart]
      simpa [hchars] using hhead
    have hread := readFrom_value key hne hundivided hplain ('\\' :: (back ++ more))
    have hall : value.toList ++ more = c :: cs ++ '\\' :: (back ++ more) := by simp [hchars]
    rw [hpart] at hread
    rw [hall] at h ⊢
    rw [hread] at h
    have htake : Place.take true '\\' (.bare key (c :: cs).reverse) =
        some (.escaped key (c :: cs).reverse false, []) := rfl
    have hlt := weight_lt_of_waste htake (Nat.le_refl _) h
    simp only [Place.weight, List.length_append, List.length_reverse, List.length_cons] at hlt ⊢
    omega

/-- A value that cannot stand without quotes wastes a character. -/
theorem weight_lt_of_not_isBare {key value : String} (hblank : IsUndivided value)
    (hbare : ¬ IsBare bareEscapes value) {more : List Char} {assignments : List (String × String)}
    (h : readFrom bareEscapes (.beforeValue key) (value.toList ++ more) = some assignments) :
    weight assignments < key.length + 1 + (value.toList ++ more).length + 1 := by
  by_cases hhead : value.toList.head? = some quoteMark
  · obtain ⟨cs, hchars⟩ := List.head?_eq_some_iff.mp hhead
    have htake : Place.take bareEscapes quoteMark (.beforeValue key) = some (.quoted key [], []) := rfl
    rw [hchars] at h ⊢
    exact weight_lt_of_waste htake (Nat.le_refl _) h
  · obtain ⟨rfl, hmem⟩ : bareEscapes = true ∧ '\\' ∈ value.toList := by
      by_contra hnot
      exact hbare ⟨hhead, fun hescapes hmem => hnot ⟨hescapes, hmem⟩⟩
    exact weight_lt_of_backslash hblank hhead hmem h

variable {assignments : List (String × String)}

/-- Assignments that can be read as they are written are read so. -/
theorem readFrom_written (hassignments : ∀ assignment ∈ assignments,
      IsKeyword assignment.1 ∧ IsUndivided assignment.2) (h : Legible bareEscapes assignments) :
    readFrom bareEscapes .between (written assignments) = some assignments := by
  induction assignments with
  | nil => rfl
  | cons assignment rest ih =>
    obtain ⟨key, value⟩ := assignment
    rw [List.forall_mem_cons] at hassignments
    obtain ⟨⟨hkeyword, hblank⟩, hrest⟩ := hassignments
    have hback : textOf value.toList.reverse = value := by simp [textOf]
    cases rest with
    | nil =>
      rw [written, readFrom_keyword hkeyword]
      by_cases hne : value = ""
      · rw [hne]
        rfl
      · have hread := readFrom_value key hne hblank h []
        rw [List.append_nil] at hread
        rw [hread, readFrom, Place.finish, hback]
    | cons next rest =>
      obtain ⟨hne, hbare, hlegible⟩ := h
      rw [written, readFrom_keyword hkeyword, readFrom_value key hne hblank hbare, readFrom]
      simp [Place.take, show isSeparator ' ' = true from rfl, ih hrest hlegible, hback]

/-- Assignments that cannot be read as they are written weigh more than what is read. -/
theorem weight_lt_of_not_legible (hassignments : ∀ assignment ∈ assignments,
      IsKeyword assignment.1 ∧ IsUndivided assignment.2) (h : ¬ Legible bareEscapes assignments)
    {others : List (String × String)}
    (hread : readFrom bareEscapes .between (written assignments) = some others) :
    weight others < weight assignments := by
  induction assignments generalizing others with
  | nil => exact absurd trivial h
  | cons assignment rest ih =>
    obtain ⟨key, value⟩ := assignment
    rw [List.forall_mem_cons] at hassignments
    obtain ⟨⟨hkeyword, hblank⟩, hrest⟩ := hassignments
    have hlength := length_written (List.cons_ne_nil (key, value) rest)
    cases rest with
    | nil =>
      rw [written, readFrom_keyword hkeyword, ← List.append_nil value.toList] at hread
      have hlt := weight_lt_of_not_isBare hblank h hread
      simp only [written, List.length_append, List.length_cons, List.length_nil,
        String.length_toList] at hlength hlt
      omega
    | cons next rest =>
      rw [written, readFrom_keyword hkeyword] at hread
      simp only [written, List.length_append, List.length_cons, String.length_toList] at hlength
      by_cases hne : value = ""
      · subst hne
        have htake : Place.take bareEscapes ' ' (.beforeValue key) = some (.beforeValue key, []) := rfl
        have hlt := weight_lt_of_waste htake (Nat.le_refl _) hread
        simp only [Place.weight, List.length_cons, String.length_empty] at hlt hlength
        omega
      · by_cases hbare : IsBare bareEscapes value
        · have hlegible : ¬ Legible bareEscapes (next :: rest) := fun hlegible => h ⟨hne, hbare, hlegible⟩
          rw [readFrom_value key hne hblank hbare] at hread
          obtain ⟨place, first, later, htake, hlater, rfl⟩ := exists_of_readFrom_cons hread
          obtain ⟨rfl, rfl⟩ := Prod.mk.inj (Option.some.inj htake)
          have hlt := ih hrest hlegible hlater
          simp only [weight, length_textOf, List.length_reverse, String.length_toList,
            List.cons_append, List.nil_append] at hlength hlt ⊢
          omega
        · have hlt := weight_lt_of_not_isBare hblank hbare hread
          simp only [List.length_append, List.length_cons, String.length_toList] at hlt
          omega

end Reading

/-- Assignments that occur among others, each once, do not weigh more. -/
theorem weight_le_of_subset {first second : List (String × String)} (hnodup : first.Nodup)
    (h : first ⊆ second) : weight first ≤ weight second := by
  obtain ⟨part, hpart, hsublist⟩ := hnodup.subperm h
  obtain ⟨rest, hrest⟩ := hsublist.exists_perm_append
  rw [← weight_eq_of_perm hpart, weight_eq_of_perm hrest, weight_append]
  exact Nat.le_add_right _ _

/-- A blank of a connection is a blank of a data source. -/
theorem isBlank_of_isSeparator {c : Char} (h : isSeparator c = true) : isBlank c = true := by
  simp only [isSeparator, Bool.or_eq_true, beq_iff_eq] at h
  rcases h with rfl | h
  · rfl
  · simp [isBlank, h]

end ConnectionText

open ConnectionText (IsBare Legible)

namespace Postgis

/-- A connection whose text is read as it is meant: every value can stand without quotes, and none is
empty but the last. -/
structure IsLegible (bareEscapes : Bool) (postgis : Postgis) : Prop where
  host : postgis.host ≠ ""
  dbname : postgis.dbname ≠ ""
  password : postgis.password ≠ ""
  user : postgis.port ≠ none → postgis.user ≠ ""
  bare : ∀ assignment ∈ postgis.assignments, IsBare bareEscapes assignment.2

/-- The text of a connection is made of its assignments. -/
theorem toList_connectionText (postgis : Postgis) :
    postgis.connectionText.toList = ConnectionText.written postgis.assignments := by
  cases hport : postgis.port <;>
    simp [connectionText, assignments, ConnectionText.written, hport]

/-- A connection is legible when its assignments are. -/
theorem legible_assignments_iff {bareEscapes : Bool} {postgis : Postgis} :
    Legible bareEscapes postgis.assignments ↔ postgis.IsLegible bareEscapes := by
  obtain ⟨host, dbname, user, password, port, table, geometryColumn⟩ := postgis
  constructor
  · intro h
    cases port <;> simp [assignments, Legible] at h <;> constructor <;> simp [assignments, h]
  · rintro ⟨hhost, hdbname, hpassword, huser, hbare⟩
    cases port <;> simp_all [assignments, Legible]

/-- No keyword is assigned twice. -/
theorem nodup_assignments (postgis : Postgis) : postgis.assignments.Nodup := by
  refine List.Nodup.of_map Prod.fst ?_
  cases hport : postgis.port <;> simp [assignments, hport]

/-- The assignments of a data source have keywords, and no blank is in their values. -/
theorem keyword_of_mem_assignments {dataSource : String} {assignment : String × String}
    (h : assignment ∈ (ofDataSource dataSource).assignments) :
    ConnectionText.IsKeyword assignment.1 ∧ ConnectionText.IsUndivided assignment.2 := by
  have hparameter : ∃ parameter : Parameter, parameter.key? = some assignment.1 ∧
      (ofDataSource dataSource).value? parameter = some assignment.2 := by
    simp only [assignments, List.mem_append, List.mem_cons, List.mem_map, Option.mem_toList,
      List.not_mem_nil, or_false] at h
    rcases h with (rfl | rfl | rfl | rfl) | ⟨port, hport, rfl⟩
    · exact ⟨.host, rfl, rfl⟩
    · exact ⟨.dbname, rfl, rfl⟩
    · exact ⟨.password, rfl, rfl⟩
    · exact ⟨.user, rfl, rfl⟩
    · exact ⟨.port, rfl, hport⟩
  obtain ⟨parameter, hkey, hvalue⟩ := hparameter
  constructor
  · have hkeywords : ∀ key ∈ parameter.key?, ConnectionText.IsKeyword key := by
      cases parameter <;> decide
    exact hkeywords _ hkey
  · intro c hc
    have hblank := isBlank_eq_false_of_value? hvalue hc
    by_contra hseparator
    rw [ConnectionText.isBlank_of_isSeparator (by simpa using hseparator)] at hblank
    cases hblank

end Postgis

/-- **The text of a connection is read as it is meant exactly when it is legible.** Then the
assignments are read as they are, and in their order; otherwise not all of them are read at all,
whatever else is read. Whether a backslash escapes outside of quotes only matters for values with a
backslash. -/
theorem connectionText_read_iff (bareEscapes : Bool) (dataSource : String) :
    (ConnectionText.read bareEscapes (Postgis.ofDataSource dataSource).connectionText =
        some (Postgis.ofDataSource dataSource).assignments ↔
      (Postgis.ofDataSource dataSource).IsLegible bareEscapes) ∧
    ((∃ assignments,
        ConnectionText.read bareEscapes (Postgis.ofDataSource dataSource).connectionText =
          some assignments ∧
        (Postgis.ofDataSource dataSource).assignments ⊆ assignments) ↔
      (Postgis.ofDataSource dataSource).IsLegible bareEscapes) := by
  have hread : ConnectionText.read bareEscapes (Postgis.ofDataSource dataSource).connectionText =
      ConnectionText.readFrom bareEscapes .between
        (ConnectionText.written (Postgis.ofDataSource dataSource).assignments) := by
    rw [ConnectionText.read, Postgis.toList_connectionText]
  have hassignments := fun assignment (h : assignment ∈ (Postgis.ofDataSource dataSource).assignments) =>
    Postgis.keyword_of_mem_assignments h
  have hlegible (h : (Postgis.ofDataSource dataSource).IsLegible bareEscapes) :
      ConnectionText.read bareEscapes (Postgis.ofDataSource dataSource).connectionText =
        some (Postgis.ofDataSource dataSource).assignments :=
    hread.trans (ConnectionText.readFrom_written hassignments (Postgis.legible_assignments_iff.mpr h))
  have hmisread {assignments : List (String × String)}
      (h : ConnectionText.read bareEscapes (Postgis.ofDataSource dataSource).connectionText =
        some assignments) (hsubset : (Postgis.ofDataSource dataSource).assignments ⊆ assignments) :
      (Postgis.ofDataSource dataSource).IsLegible bareEscapes := by
    by_contra hnot
    have hlt := ConnectionText.weight_lt_of_not_legible hassignments
      (mt Postgis.legible_assignments_iff.mp hnot) (hread.symm.trans h)
    have hle := ConnectionText.weight_le_of_subset (Postgis.nodup_assignments _) hsubset
    omega
  refine ⟨⟨fun h => hmisread h (List.Subset.refl _), hlegible⟩, ?_, fun h => ?_⟩
  · rintro ⟨assignments, h, hsubset⟩
    exact hmisread h hsubset
  · exact ⟨_, hlegible h, List.Subset.refl _⟩

/-- A connection in which nothing is left out is read as it is meant. -/
example : ConnectionText.read true
    (Postgis.ofDataSource "host=db user=me password=pw port='5433'").connectionText =
      some [("host", "db"), ("dbname", "gisdata"), ("password", "pw"), ("user", "me"),
        ("port", "5433")] := by decide +kernel

/-- Without a password, what is behind it is taken for the password, and there is no user. -/
theorem connectionText_misread :
    ConnectionText.read false (Postgis.ofDataSource "table=roads").connectionText =
        some [("host", "localhost"), ("dbname", "gisdata"), ("password", "user=")] ∧
      (¬ ∀ dataSource : String,
        ConnectionText.read false (Postgis.ofDataSource dataSource).connectionText =
          some (Postgis.ofDataSource dataSource).assignments) ∧
      ¬ ∀ dataSource : String,
        ConnectionText.read true (Postgis.ofDataSource dataSource).connectionText =
          some (Postgis.ofDataSource dataSource).assignments := by
  have hread : ConnectionText.read false (Postgis.ofDataSource "table=roads").connectionText =
      some [("host", "localhost"), ("dbname", "gisdata"), ("password", "user=")] := by
    decide +kernel
  have hescaping : ConnectionText.read true (Postgis.ofDataSource "table=roads").connectionText =
      some [("host", "localhost"), ("dbname", "gisdata"), ("password", "user=")] := by
    decide +kernel
  have hassignments : some (Postgis.ofDataSource "table=roads").assignments ≠
      some [("host", "localhost"), ("dbname", "gisdata"), ("password", "user=")] := by
    decide +kernel
  refine ⟨hread, fun h => ?_, fun h => ?_⟩
  · exact hassignments ((h "table=roads").symm.trans hread)
  · exact hassignments ((h "table=roads").symm.trans hescaping)

end Carta.Project
