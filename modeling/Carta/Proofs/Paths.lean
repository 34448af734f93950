import Carta.Path
import Carta.Proofs.Lines

/-!
# The parts of paths that are put together

A path that is joined to another one has the parts of both, but for the slash at the end of the
first. The path above one that ends with a name has the parts before that name, without those at the
end that say nothing; seen from a path below which it was found, it consists of the names between
them.
-/

namespace Carta

namespace Text

variable {A : Type}

/-- The last part is empty when nothing follows the last character that divides, or there is no
character at all. -/
theorem getLast?_splitWhere_eq_nil_iff (test : A → Bool) (cs : List A) :
    (splitWhere test cs).getLast? = some [] ↔ ∀ c ∈ cs.getLast?, test c = true := by
  induction cs with
  | nil => simp [splitWhere]
  | cons c cs ih =>
    obtain ⟨part, rest, hparts⟩ := List.exists_cons_of_ne_nil (splitWhere_ne_nil test cs)
    rw [splitWhere]
    by_cases hc : test c = true
    · rw [if_pos hc, hparts, List.getLast?_cons_cons, ← hparts, ih]
      cases cs with
      | nil => simp [hc]
      | cons d cs => rw [List.getLast?_cons_cons]
    · rw [if_neg hc, hparts]
      cases rest with
      | nil =>
        -- There is a single part, so no character divides, the last one neither.
        have hcount : (c :: cs).countP test = 0 := by
          have hlength := length_splitWhere test cs
          rw [hparts] at hlength
          rw [List.countP_cons_of_neg hc]
          simpa using hlength.symm
        have hlast : ∀ d ∈ (c :: cs).getLast?, ¬ test d = true := fun d hd =>
          List.countP_eq_zero.mp hcount d (List.mem_of_mem_getLast? hd)
        constructor
        · intro h
          simp at h
        · intro h
          have hd := List.getLast?_eq_some_getLast (List.cons_ne_nil c cs)
          exact absurd (h _ hd) (hlast _ hd)
      | cons next rest =>
        have hne : cs ≠ [] := by
          rintro rfl
          simp [splitWhere] at hparts
        obtain ⟨d, cs', rfl⟩ := List.exists_cons_of_ne_nil hne
        rw [List.getLast?_cons_cons, List.getLast?_cons_cons, ← ih, hparts, List.getLast?_cons_cons]

/-- The parts of a text make it up, with the characters that divide them. -/
theorem intercalate_splitWhere [DecidableEq A] (d : A) (cs : List A) :
    [d].intercalate (splitWhere (· = d) cs) = cs := by
  induction cs with
  | nil => simp [splitWhere]
  | cons c cs ih =>
    obtain ⟨part, rest, hparts⟩ := List.exists_cons_of_ne_nil (splitWhere_ne_nil (· = d) cs)
    rw [hparts] at ih
    rw [splitWhere]
    by_cases hc : c = d
    · rw [if_pos (by simpa using hc), hparts, List.intercalate_cons_cons, ih, hc]
      rfl
    · rw [if_neg (by simpa using hc), hparts]
      dsimp only
      cases rest with
      | nil => simpa using ih
      | cons next rest =>
        rw [List.intercalate_cons_cons] at ih ⊢
        rw [← ih]
        simp

end Text

/-- A part after the first slash. -/
def PathPart.later (text : Name) : PathPart :=
  ⟨text, laterComponent text⟩

/-- A name that leads from a directory to what is in it. -/
structure IsEntryName (name : Name) : Prop where
  ne_empty : name ≠ []
  ne_dot : name ≠ [Name.dot]
  ne_dots : name ≠ [Name.dot, Name.dot]
  noSlash : Name.slash ∉ name
  noNul : (0 : UInt8) ∉ name

instance (name : Name) : Decidable (IsEntryName name) :=
  decidable_of_iff (name ≠ [] ∧ name ≠ [Name.dot] ∧ name ≠ [Name.dot, Name.dot] ∧
      Name.slash ∉ name ∧ (0 : UInt8) ∉ name)
    ⟨fun ⟨hempty, hdot, hdots, hslash, hnul⟩ => ⟨hempty, hdot, hdots, hslash, hnul⟩,
      fun h => ⟨h.ne_empty, h.ne_dot, h.ne_dots, h.noSlash, h.noNul⟩⟩

namespace Path

/-- The texts between the slashes of a path. -/
def texts (path : Path) : List Name :=
  Text.splitWhere (· = Name.slash) path.text

/-- The parts that consist of texts between slashes. -/
def partsOf : List Name → List PathPart
  | [] => []
  | first :: rest => ⟨first, firstComponent (!rest.isEmpty) first⟩ :: rest.map .later

/-- The parts of a path are those of its texts. -/
theorem parts_eq_partsOf (path : Path) : path.parts = partsOf path.texts := by
  rw [parts, texts]
  split
  next h => rw [h]; rfl
  next first rest h => rw [h]; rfl

/-- The parts of a path have its texts. -/
theorem map_text_parts (path : Path) : path.parts.map (·.text) = path.texts := by
  rw [parts_eq_partsOf]
  cases path.texts <;> simp [partsOf, Function.comp_def, PathPart.later]

/-- A path has a text between its slashes. -/
theorem texts_ne_nil (path : Path) : path.texts ≠ [] := by
  simp [texts, Text.splitWhere_ne_nil]

/-- A slash divides a path. -/
theorem texts_append_slash (first second : Name) :
    texts ⟨first ++ [Name.slash] ++ second⟩ = texts ⟨first⟩ ++ texts ⟨second⟩ := by
  rw [texts, List.append_assoc]
  exact Text.splitWhere_append_cons (by decide) first second

/-- A text without slashes is not divided. -/
theorem texts_eq_singleton {text : Name} (h : Name.slash ∉ text) : texts ⟨text⟩ = [text] :=
  Text.splitWhere_eq_singleton_of_notMem h

/-- There is no slash between slashes. -/
theorem noSlash_of_mem_texts {path : Path} {text : Name} (h : text ∈ path.texts) :
    Name.slash ∉ text := by
  intro hslash
  simpa using Text.eq_false_of_mem_splitWhere h Name.slash hslash

/-- The texts of a path make it up. -/
theorem intercalate_texts (path : Path) : [Name.slash].intercalate path.texts = path.text :=
  Text.intercalate_splitWhere Name.slash path.text

/-- Whether a slash follows matters to an empty first text only. -/
theorem firstComponent_of_ne_empty {first : Name} (h : first ≠ []) (slashFollows : Bool) :
    firstComponent slashFollows first = firstComponent true first := by
  unfold firstComponent
  split <;> simp_all

/-- A first part always says something. -/
theorem firstComponent_ne_none (first : Name) : firstComponent true first ≠ none := by
  unfold firstComponent
  split <;> simp

/-- A path that is not empty is absolute when nothing stands before its first slash. -/
theorem isAbsolute_eq {path : Path} (h : path.text ≠ []) :
    path.isAbsolute = decide (path.texts.head? = some []) := by
  obtain ⟨first, rest, htexts⟩ := List.exists_cons_of_ne_nil path.texts_ne_nil
  have htext := path.intercalate_texts
  have hslash : Name.slash ∉ first := noSlash_of_mem_texts (htexts ▸ List.mem_cons_self)
  rw [htexts] at htext ⊢
  rw [isAbsolute, ← htext]
  congr 1
  rw [eq_iff_iff, List.head?_cons, Option.some.injEq]
  constructor
  · intro hhead
    by_contra hfirst
    cases rest with
    | nil => exact hslash (List.mem_of_mem_head? (by simpa using hhead))
    | cons next rest =>
      rw [List.intercalate_cons_cons, List.append_assoc,
        List.head?_append_of_ne_nil _ hfirst] at hhead
      exact hslash (List.mem_of_mem_head? hhead)
  · rintro rfl
    cases rest with
    | nil => exact absurd (by simpa using htext.symm) h
    | cons next rest => simp

/-- The last text is empty when a slash ends the path, or the path is empty. -/
theorem getLast?_texts_eq_empty_iff (path : Path) :
    path.texts.getLast? = some [] ↔ ∀ b ∈ path.text.getLast?, b = Name.slash := by
  simpa only [texts, decide_eq_true_eq] using
    Text.getLast?_splitWhere_eq_nil_iff (· = Name.slash) path.text

/-- The texts of a path without an empty one at the end. -/
def leading (path : Path) : List Name :=
  if path.texts.getLast? = some [] then path.texts.dropLast else path.texts

/-- The parts of a path without an empty one at the end. -/
def front (path : Path) : List PathPart :=
  if path.texts.getLast? = some [] then path.parts.dropLast else path.parts

/-- A path that is joined to another one follows its texts. -/
theorem texts_join (base : Path) {path : Path} (h : path.isAbsolute = false) :
    (base.join path).texts = base.leading ++ path.texts := by
  rw [join, if_neg (by simp [h]), leading]
  by_cases hempty : base.text = []
  · have htexts : base.texts = [[]] := by
      rw [← Path.mk.injEq] at hempty
      exact (congrArg texts hempty).trans (texts_eq_singleton (by simp))
    rw [hempty, htexts]
    simp
  · by_cases hslash : base.text.getLast? = some Name.slash
    · obtain ⟨before, hbefore⟩ := List.getLast?_eq_some_iff.mp hslash
      have hbase : base.texts = texts ⟨before⟩ ++ [[]] := by
        have hsplit := texts_append_slash before []
        rw [List.append_nil, ← hbefore, @texts_eq_singleton [] List.not_mem_nil] at hsplit
        exact hsplit
      rw [if_pos (by simp [hslash]), hbase, hbefore, texts_append_slash]
      simp
    · have hne : base.text ≠ [] := by simpa using hempty
      have hlast : base.texts.getLast? ≠ some [] := by
        rw [Ne, getLast?_texts_eq_empty_iff]
        intro hall
        have hd := List.getLast?_eq_some_getLast hne
        exact hslash (hd.trans (congrArg some (hall _ hd)))
      rw [if_neg (by simp [hempty, hslash]), if_neg hlast, texts_append_slash]

/-- The name of an entry is no absolute path. -/
theorem isAbsolute_name {name : Name} (h : IsEntryName name) : isAbsolute ⟨name⟩ = false := by
  simp only [isAbsolute, decide_eq_false_iff_not]
  exact fun hhead => h.noSlash (List.mem_of_mem_head? hhead)

/-- A name that is joined to a path is its last text. -/
theorem texts_join_name (base : Path) {name : Name} (h : IsEntryName name) :
    (base.join ⟨name⟩).texts = base.leading ++ [name] := by
  rw [texts_join base (isAbsolute_name h), texts_eq_singleton h.noSlash]

/-- A part that is a name is nothing else. -/
theorem later_of_isEntryName {name : Name} (h : IsEntryName name) :
    PathPart.later name = ⟨name, some (.name name)⟩ := by
  rw [PathPart.later, laterComponent]
  · exact h.ne_empty
  · exact h.ne_dot
  · exact h.ne_dots

/-- The name of an entry is a component. -/
theorem laterComponent_of_isEntryName {name : Name} (h : IsEntryName name) :
    laterComponent name ≠ none := by
  have hcomponent : laterComponent name = some (.name name) :=
    congrArg PathPart.component (later_of_isEntryName h)
  rw [hcomponent]
  exact Option.some_ne_none _

/-- The parts of a path that is not empty have a first one, which is the root where it is empty. -/
theorem exists_front_eq {path : Path} (h : path.text ≠ []) : ∃ first rest,
    path.leading = first :: rest ∧ path.front = ⟨first, firstComponent true first⟩ :: rest.map .later := by
  rw [leading, front, parts_eq_partsOf]
  obtain ⟨first, rest, htexts⟩ := List.exists_cons_of_ne_nil path.texts_ne_nil
  rw [htexts, partsOf]
  cases rest using List.reverseRecOn with
  | nil =>
    have hfirst : first ≠ [] := by
      rintro rfl
      have htext := path.intercalate_texts
      rw [htexts] at htext
      exact h (by simpa using htext.symm)
    refine ⟨first, [], ?_⟩
    simp [hfirst, firstComponent_of_ne_empty hfirst false]
  | append_singleton rest last =>
    have hflag : (!(rest ++ [last]).isEmpty) = true := by simp
    rw [hflag, List.map_append, ← List.cons_append, ← List.cons_append, List.getLast?_concat]
    by_cases hlast : last = []
    · refine ⟨first, rest, ?_⟩
      rw [if_pos (by rw [hlast]), if_pos (by rw [hlast]), List.dropLast_concat]
      exact ⟨rfl, List.dropLast_concat⟩
    · refine ⟨first, rest ++ [last], ?_⟩
      rw [if_neg (by simpa using hlast), if_neg (by simpa using hlast)]
      simp

/-- But for an empty last part that says nothing, a path has the parts of its front. -/
theorem parts_eq_front (path : Path) :
    path.parts = path.front ∨ path.parts = path.front ++ [⟨[], none⟩] := by
  rw [front]
  split
  next hlast =>
    refine .inr ?_
    rw [parts_eq_partsOf]
    obtain ⟨texts, htexts⟩ := List.getLast?_eq_some_iff.mp hlast
    rw [htexts]
    cases texts with
    | nil => rfl
    | cons first rest =>
      have hflag : (!(rest ++ [[]]).isEmpty) = true := by simp
      rw [List.cons_append, partsOf, hflag, List.map_append, ← List.cons_append,
        List.map_singleton, List.dropLast_concat]
      rfl
  next => exact .inl rfl

/-- A path that begins with the same part as another one is absolute when that is. -/
theorem isAbsolute_of_head? {base path : Path} (hbase : base.text ≠ []) (hpath : path.text ≠ [])
    (h : path.parts.head? = base.front.head?) : path.isAbsolute = base.isAbsolute := by
  have hhead : path.texts.head? = base.texts.head? := by
    obtain ⟨first, rest, -, hfront⟩ := exists_front_eq hbase
    rw [← path.map_text_parts, ← base.map_text_parts, List.head?_map, h, hfront]
    rcases base.parts_eq_front with hparts | hparts <;> simp [hparts, hfront]
  rw [isAbsolute_eq hpath, isAbsolute_eq hbase, hhead]

/-- A path that goes on begins as it did. -/
theorem head?_front_append {base : Path} (hbase : base.text ≠ []) (more : List PathPart) :
    (base.front ++ more).head? = base.front.head? := by
  obtain ⟨first, rest, -, hfront⟩ := exists_front_eq hbase
  rw [hfront]
  rfl

/-- The front of a path has all of its components. -/
theorem components_front (path : Path) : path.front.filterMap (·.component) = path.components := by
  rw [components]
  rcases path.parts_eq_front with h | h
  · rw [h]
  · rw [h, List.filterMap_append]
    simp

/-- A path that is joined to another one follows its parts. -/
theorem parts_join {base : Path} (hbase : base.text ≠ []) {path : Path}
    (h : path.isAbsolute = false) :
    (base.join path).parts = base.front ++ path.texts.map .later := by
  obtain ⟨first, rest, hleading, hfront⟩ := exists_front_eq hbase
  have hflag : (!(rest ++ path.texts).isEmpty) = true := by simp [path.texts_ne_nil]
  rw [parts_eq_partsOf, texts_join base h, hleading, List.cons_append, partsOf, hflag, hfront,
    List.map_append, List.cons_append]

/-- A path that is joined to another one is not empty when it is not itself. -/
theorem join_text_ne_empty (base : Path) {path : Path} (h : path.text ≠ []) :
    (base.join path).text ≠ [] := by
  rw [join]
  split
  · exact h
  · split
    · simp [h]
    · simp

/-- The path of what names lead to from where a path leads. -/
def descend (path : Path) (names : List Name) : Path :=
  names.foldl (fun path name => path.join ⟨name⟩) path

/-- Descending in two steps is descending along all names. -/
theorem descend_append (path : Path) (first second : List Name) :
    path.descend (first ++ second) = (path.descend first).descend second :=
  List.foldl_append

/-- A path is the beginning of what is joined to it. -/
theorem join_isPrefix (base : Path) {path : Path} (h : path.isAbsolute = false) :
    base.text <+: (base.join path).text := by
  rw [join, if_neg (by simp [h])]
  split
  · simp
  · rw [List.append_assoc]
    exact List.prefix_append _ _

/-- A path that descends goes on from the text of its base. -/
theorem descend_isPrefix (base : Path) {names : List Name}
    (hnames : ∀ name ∈ names, IsEntryName name) :
    base.text <+: (base.descend names).text := by
  induction names generalizing base with
  | nil => exact List.prefix_rfl
  | cons name rest ih =>
    rw [List.forall_mem_cons] at hnames
    exact (join_isPrefix base (isAbsolute_name hnames.1)).trans (ih (base.join ⟨name⟩) hnames.2)

section Descent

variable {base : Path} (hbase : base.text ≠ []) {names : List Name}
  (hnames : ∀ name ∈ names, IsEntryName name)

include hbase hnames

/-- A path that descends is not empty. -/
theorem descend_text_ne_empty : (base.descend names).text ≠ [] := by
  induction names generalizing base with
  | nil => exact hbase
  | cons name rest ih =>
    rw [List.forall_mem_cons] at hnames
    exact ih (join_text_ne_empty base hnames.1.ne_empty) hnames.2

/-- Names are the last parts of the path that descends by them. -/
theorem front_descend : (base.descend names).front = base.front ++ names.map .later := by
  induction names generalizing base with
  | nil => simp [descend]
  | cons name rest ih =>
    rw [List.forall_mem_cons] at hnames
    have hfront : (base.join ⟨name⟩).front = base.front ++ [.later name] := by
      rw [front, texts_join_name base hnames.1, List.getLast?_concat,
        if_neg (by simp [hnames.1.ne_empty]), parts_join hbase (isAbsolute_name hnames.1),
        texts_eq_singleton hnames.1.noSlash, List.map_singleton]
    have hrest := ih (join_text_ne_empty base hnames.1.ne_empty) hnames.2
    exact hrest.trans (by rw [hfront]; simp)

/-- The parts of a path that descends are those of its base and the names. -/
theorem parts_descend (hne : names ≠ []) :
    (base.descend names).parts = base.front ++ names.map .later := by
  obtain ⟨before, last, rfl⟩ := (List.eq_nil_or_concat' names).resolve_left hne
  simp only [List.forall_mem_append, List.forall_mem_singleton] at hnames
  have hjoin : base.descend (before ++ [last]) = (base.descend before).join ⟨last⟩ :=
    descend_append base before [last]
  rw [hjoin, parts_join (descend_text_ne_empty hbase hnames.1) (isAbsolute_name hnames.2),
    texts_eq_singleton hnames.2.noSlash, front_descend hbase hnames.1]
  simp

end Descent

section Above

/-- Texts without slashes are divided again where they are joined by slashes. -/
theorem texts_intercalate {texts : List Name} (hne : texts ≠ [])
    (h : ∀ text ∈ texts, Name.slash ∉ text) : Path.texts ⟨[Name.slash].intercalate texts⟩ = texts :=
  Text.splitWhere_intercalate hne h

/-- The parts without those at the end that say nothing. -/
def withoutSilent (parts : List PathPart) : List PathPart :=
  (dropSilent parts.reverse).reverse

/-- The last part that says something is kept. -/
theorem withoutSilent_append_later (parts : List PathPart) {text : Name}
    (h : laterComponent text ≠ none) :
    withoutSilent (parts ++ [.later text]) = parts ++ [.later text] := by
  rw [withoutSilent, dropSilent, List.reverse_append, List.reverse_singleton, List.singleton_append,
    List.dropWhile_cons_of_neg (by simpa [PathPart.later] using h)]
  simp

/-- What says nothing has no influence on what is above. -/
theorem parentsOf_dropSilent (parts : List PathPart) : parentsOf (dropSilent parts) = parentsOf parts := by
  induction parts with
  | nil => rfl
  | cons part rest ih =>
    rw [dropSilent]
    cases hpart : part.component with
    | none =>
      rw [List.dropWhile_cons_of_pos (by simp [hpart]), parentsOf, hpart]
      exact ih
    | some component => rw [List.dropWhile_cons_of_neg (by simp [hpart])]

/-- A path that is made of the parts at the beginning of another one has these parts, unless it is
the root. -/
theorem parts_ofParts {first : Name} {rest : List Name} (h : ¬ (first = [] ∧ rest = []))
    (hslash : ∀ text ∈ first :: rest, Name.slash ∉ text) :
    (ofParts (⟨first, firstComponent true first⟩ :: rest.map .later)).parts =
      ⟨first, firstComponent true first⟩ :: rest.map .later := by
  have hofParts : ofParts (⟨first, firstComponent true first⟩ :: rest.map .later) =
      ⟨[Name.slash].intercalate (first :: rest)⟩ := by
    unfold ofParts
    split
    next hroot =>
      simp only [List.cons.injEq, PathPart.mk.injEq, List.map_eq_nil_iff] at hroot
      exact absurd ⟨hroot.1.1, hroot.2⟩ h
    next => simp [Function.comp_def, PathPart.later]
  rw [hofParts, parts_eq_partsOf, texts_intercalate (List.cons_ne_nil _ _) hslash, partsOf]
  cases rest with
  | nil => rw [firstComponent_of_ne_empty fun hfirst => h ⟨hfirst, rfl⟩]
  | cons => rfl

/-- Without those at the end that say nothing, parts are the first ones of what they were. -/
theorem withoutSilent_isPrefix (parts : List PathPart) : withoutSilent parts <+: parts := by
  rw [withoutSilent, ← List.reverse_suffix, List.reverse_reverse]
  exact List.dropWhile_suffix _

/-- What is at the end of a path and says nothing is silent, each part for itself. -/
theorem exists_silent (parts : List PathPart) : ∃ silent, parts = withoutSilent parts ++ silent ∧
    ∀ part ∈ silent, part.component = none := by
  refine ⟨(parts.reverse.takeWhile (·.component.isNone)).reverse, ?_, ?_⟩
  · rw [withoutSilent, dropSilent, ← List.reverse_append, List.takeWhile_append_dropWhile,
      List.reverse_reverse]
  · intro part hpart
    simpa using List.mem_takeWhile_imp (List.mem_reverse.mp hpart)

/-- A first part is never silent, so it stays. -/
theorem exists_withoutSilent_eq (first : Name) (rest : List Name) : ∃ kept, kept <+: rest ∧
    withoutSilent (⟨first, firstComponent true first⟩ :: rest.map .later) =
      ⟨first, firstComponent true first⟩ :: kept.map .later := by
  have hpre := withoutSilent_isPrefix (⟨first, firstComponent true first⟩ :: rest.map .later)
  obtain ⟨silent, hsilent, hnone⟩ :=
    exists_silent (⟨first, firstComponent true first⟩ :: rest.map .later)
  cases hkept : withoutSilent (⟨first, firstComponent true first⟩ :: rest.map .later) with
  | nil =>
    rw [hkept, List.nil_append] at hsilent
    exact absurd (hnone _ (hsilent ▸ List.mem_cons_self)) (firstComponent_ne_none first)
  | cons part parts =>
    rw [hkept, List.cons_prefix_cons] at hpre
    obtain ⟨rfl, hparts⟩ := hpre
    obtain ⟨kept, hpre, rfl⟩ := List.prefix_map_iff.mp hparts
    exact ⟨kept, hpre, rfl⟩

/-- The parts at the beginning of a path, by their texts. -/
def beginning (first : Name) (rest : List Name) : List PathPart :=
  ⟨first, firstComponent true first⟩ :: rest.map .later

/-- The path that begins like that and ends where it last says something. -/
def ending (first : Name) (rest : List Name) : Path :=
  ofParts (withoutSilent (beginning first rest))

section Beginning

variable {first : Name} {rest : List Name}

/-- A slash at the end has nothing to do with what is above. -/
theorem parents_eq_of_parts {path : Path} {parts : List PathPart}
    (h : path.parts = parts ∨ path.parts = parts ++ [⟨[], none⟩]) :
    path.parents = parentsOf parts.reverse := by
  rw [parents]
  rcases h with h | h
  · rw [h]
  · rw [h, List.reverse_append]
    rfl

variable (hslash : ∀ text ∈ first :: rest, Name.slash ∉ text)

include hslash

/-- An ending has the parts of its beginning up to the last that says something, and at most an
empty one after them. -/
theorem parts_ending :
    (ending first rest).parts = withoutSilent (beginning first rest) ∨
      (ending first rest).parts = withoutSilent (beginning first rest) ++ [⟨[], none⟩] := by
  obtain ⟨kept, hkept, hsilent⟩ := exists_withoutSilent_eq first rest
  rw [ending, beginning, hsilent]
  by_cases hroot : first = [] ∧ kept = []
  · obtain ⟨rfl, rfl⟩ := hroot
    exact .inr (by decide)
  · refine .inl (parts_ofParts hroot fun text htext => hslash text ?_)
    exact (List.cons_subset_cons first hkept.subset) htext

/-- An ending begins with its first part. -/
theorem head?_parts_ending :
    (ending first rest).parts.head? = some ⟨first, firstComponent true first⟩ := by
  obtain ⟨kept, -, hsilent⟩ := exists_withoutSilent_eq first rest
  have hcases := parts_ending hslash
  rw [beginning, hsilent] at hcases
  rcases hcases with h | h <;> simp [h]

/-- An ending is not empty. -/
theorem ending_text_ne_empty : (ending first rest).text ≠ [] := by
  intro hempty
  have hhead := head?_parts_ending hslash
  have hpath : ending first rest = ⟨[]⟩ := by rw [← Path.mk.injEq] at hempty; exact hempty
  rw [hpath] at hhead
  exact firstComponent_ne_none first (congrArg PathPart.component (Option.some.inj hhead)).symm

/-- The paths above a path are told by its beginning. -/
theorem parents_ending : (ending first rest).parents = parentsOf (beginning first rest).reverse := by
  rw [parents_eq_of_parts (parts_ending hslash), withoutSilent, List.reverse_reverse,
    parentsOf_dropSilent]

end Beginning

/-- The path to what names lead to, without anything in it that says nothing at its end. -/
def within (base : Path) (names : List Name) : Path :=
  ofParts (withoutSilent (base.front ++ names.map .later))

section Within

variable {base : Path} (hbase : base.text ≠ []) {names : List Name}
  (hnames : ∀ name ∈ names, IsEntryName name)

include hbase hnames

/-- The parts of what is within a path begin like those of that path. -/
theorem exists_front_append_eq : ∃ first rest,
    base.front ++ names.map .later = ⟨first, firstComponent true first⟩ :: rest.map .later ∧
      (names ≠ [] → rest ≠ []) ∧ ∀ text ∈ first :: rest, Name.slash ∉ text := by
  obtain ⟨first, rest, hleading, hfront⟩ := exists_front_eq hbase
  have hslash : ∀ text ∈ base.leading, Name.slash ∉ text := by
    intro text htext
    refine @noSlash_of_mem_texts base _ ?_
    rw [leading] at htext
    split at htext
    · exact List.dropLast_subset _ htext
    · exact htext
  rw [hleading] at hslash
  refine ⟨first, rest ++ names, by simp [hfront],
    fun hne h => hne (List.append_eq_nil_iff.mp h).2, ?_⟩
  intro text htext
  rw [← List.cons_append, List.mem_append] at htext
  exact htext.elim (hslash text) fun h => (hnames text h).noSlash

/-- The path within another one begins somehow, and ends where it last says something. -/
theorem exists_within_eq_ending : ∃ first rest,
    base.front ++ names.map .later = beginning first rest ∧ base.within names = ending first rest ∧
      ∀ text ∈ first :: rest, Name.slash ∉ text := by
  obtain ⟨first, rest, hparts, -, hslash⟩ := exists_front_append_eq hbase hnames
  refine ⟨first, rest, hparts, ?_, hslash⟩
  rw [within, hparts]
  rfl

/-- The path within another one has its parts up to the last one that says something. -/
theorem parts_within_cases :
    (base.within names).parts = withoutSilent (base.front ++ names.map .later) ∨
      (base.within names).parts =
        withoutSilent (base.front ++ names.map .later) ++ [⟨[], none⟩] := by
  obtain ⟨first, rest, hparts, hwithin, hslash⟩ := exists_within_eq_ending hbase hnames
  rw [hparts, hwithin]
  exact parts_ending hslash

/-- The parts within a base are those of the base and the names. -/
theorem parts_within (hne : names ≠ []) :
    (base.within names).parts = base.front ++ names.map .later := by
  obtain ⟨before, last, rfl⟩ := (List.eq_nil_or_concat' names).resolve_left hne
  have hkept : withoutSilent (base.front ++ (before ++ [last]).map .later) =
      base.front ++ (before ++ [last]).map .later := by
    rw [List.map_append, ← List.append_assoc]
    exact withoutSilent_append_later _ (laterComponent_of_isEntryName (hnames last (by simp)))
  obtain ⟨first, rest, hparts, hrest, hslash⟩ := exists_front_append_eq hbase hnames
  rw [within, hkept, hparts]
  exact parts_ofParts (fun hroot => hrest hne hroot.2) hslash

/-- The path above what a name leads to. -/
theorem parents_eq_within {name : Name} (hname : IsEntryName name)
    {path : Path} (hparts : path.parts = base.front ++ (names ++ [name]).map .later) :
    path.parents = base.within names :: (base.within names).parents := by
  have habove : path.parents =
      base.within names :: parentsOf (base.front ++ names.map PathPart.later).reverse := by
    rw [parents, hparts, List.map_append, ← List.append_assoc, List.reverse_append,
      List.map_singleton, later_of_isEntryName hname]
    rfl
  obtain ⟨first, rest, hbeginning, hwithin, hslash⟩ := exists_within_eq_ending hbase hnames
  rw [habove, hbeginning, hwithin, parents_ending hslash]

/-- A path within another one is not empty. -/
theorem within_text_ne_empty : (base.within names).text ≠ [] := by
  obtain ⟨first, rest, -, hwithin, hslash⟩ := exists_within_eq_ending hbase hnames
  rw [hwithin]
  exact ending_text_ne_empty hslash

end Within

end Above

section Beginnings

/-- Fewer names between slashes are a beginning of more of them. -/
theorem intercalate_isPrefix {first second : List Name} (h : first <+: second) :
    [Name.slash].intercalate first <+: [Name.slash].intercalate second := by
  induction first generalizing second with
  | nil => simp
  | cons text rest ih =>
    cases second with
    | nil => simp at h
    | cons other more =>
      obtain ⟨rfl, hrest⟩ := List.cons_prefix_cons.mp h
      cases rest with
      | nil =>
        cases more with
        | nil => exact List.prefix_rfl
        | cons next more =>
          rw [List.intercalate_cons_cons, List.append_assoc]
          simp
      | cons next rest =>
        obtain ⟨after, rfl⟩ := hrest
        rw [List.cons_append, List.intercalate_cons_cons, List.intercalate_cons_cons,
          List.prefix_append_right_inj]
        exact ih (List.prefix_append _ _)

/-- A path that is made of the first parts of another one is the beginning of that. -/
theorem ofParts_isPrefix {path : Path} {parts : List PathPart} (h : parts <+: path.parts) :
    (ofParts parts).text <+: path.text := by
  rw [← path.intercalate_texts]
  unfold ofParts
  split
  next =>
    rw [parts_eq_partsOf] at h
    cases hpath : path.texts with
    | nil => exact absurd hpath path.texts_ne_nil
    | cons first rest =>
      rw [hpath, partsOf, List.cons_prefix_cons] at h
      obtain ⟨hfirst, hroot⟩ := PathPart.mk.inj h.1
      cases rest with
      | nil => rw [← hfirst] at hroot; cases hroot
      | cons next rest => simp [← hfirst]
  next => exact path.map_text_parts ▸ intercalate_isPrefix (h.map _)

end Beginnings

end Path

end Carta
