import Carta.Proofs.Collection

/-!
# Paths below others, by their components

What is joined to a path adds its components. The path above one that ends with a name has the
components before that name, and of a path that begins with the components of another one the names
that follow are left, however both are written. So the directory of a project is found below the root
of a run by names alone.
-/

namespace Carta

namespace Path

section Components

/-- A part that says something between slashes says the same at the beginning. -/
theorem firstComponent_eq_later {text : Name} (h : laterComponent text ≠ none)
    (slashFollows : Bool) : firstComponent slashFollows text = laterComponent text := by
  unfold firstComponent
  split
  next => exact absurd rfl h
  next => exact absurd rfl h
  next => rfl
  next hempty hdot hdots =>
    rw [laterComponent]
    · exact hempty
    · exact hdot
    · exact hdots

/-- The empty path has no components. -/
theorem components_empty : components ⟨[]⟩ = [] := by decide

/-- A path is empty when it has no components. -/
theorem text_ne_empty_iff {path : Path} : path.text ≠ [] ↔ path.components ≠ [] := by
  constructor
  · intro h
    obtain ⟨first, rest, -, hfront⟩ := exists_front_eq h
    obtain ⟨component, hfirst⟩ := Option.ne_none_iff_exists'.mp (firstComponent_ne_none first)
    rw [← components_front, hfront]
    simp [hfirst]
  · rintro h htext
    obtain ⟨text⟩ := path
    obtain rfl : text = [] := htext
    exact h components_empty

/-- The parts of a path that is not empty. -/
theorem exists_parts_eq {path : Path} (h : path.text ≠ []) : ∃ first rest,
    path.texts = first :: rest ∧ path.parts = ⟨first, firstComponent true first⟩ :: rest.map .later := by
  have htexts (first : Name) (rest : List Name)
      (hparts : path.parts = ⟨first, firstComponent true first⟩ :: rest.map .later) :
      path.texts = first :: rest := by
    rw [← path.map_text_parts, hparts]
    simp [Function.comp_def, PathPart.later]
  obtain ⟨first, rest, -, hfront⟩ := exists_front_eq h
  rcases path.parts_eq_front with hparts | hparts
  · rw [hfront] at hparts
    exact ⟨first, rest, htexts first rest hparts, hparts⟩
  · -- what ends with a slash has an empty part at its end
    have hall : path.parts = ⟨first, firstComponent true first⟩ :: (rest ++ [[]]).map .later := by
      rw [hparts, hfront, List.map_append]
      rfl
    exact ⟨first, rest ++ [[]], htexts first (rest ++ [[]]) hall, hall⟩

/-- Texts between slashes are the parts of a path of their own when the first one says something. -/
theorem components_intercalate {texts : List Name} (hslash : ∀ text ∈ texts, Name.slash ∉ text)
    (hfirst : ∀ text ∈ texts.head?, laterComponent text ≠ none) :
    components ⟨[Name.slash].intercalate texts⟩ = texts.filterMap laterComponent := by
  cases texts with
  | nil => exact components_empty
  | cons first rest =>
    rw [components, parts_eq_partsOf, texts_intercalate (List.cons_ne_nil _ _) hslash, partsOf,
      firstComponent_eq_later (hfirst first rfl)]
    simp [List.filterMap_cons, List.filterMap_map, Function.comp_def, PathPart.later]

/-- Texts between slashes are no absolute path when the first one says something. -/
theorem isAbsolute_intercalate_of_head? {texts : List Name}
    (hslash : ∀ text ∈ texts, Name.slash ∉ text)
    (hfirst : ∀ text ∈ texts.head?, laterComponent text ≠ none) :
    isAbsolute ⟨[Name.slash].intercalate texts⟩ = false := by
  cases texts with
  | nil => rfl
  | cons first rest =>
    by_cases htext : (Path.mk ([Name.slash].intercalate (first :: rest))).text = []
    · have hempty : [Name.slash].intercalate (first :: rest) = [] := htext
      rw [hempty]
      rfl
    · have hne : first ≠ [] := by
        rintro rfl
        exact hfirst "" rfl rfl
      rw [isAbsolute_eq htext, texts_intercalate (List.cons_ne_nil _ _) hslash]
      simpa using hne

/-- What is joined to a path adds its components, if it is neither absolute nor says that it is seen
from the current directory. -/
theorem components_join (base : Path) {path : Path} (habsolute : path.isAbsolute = false)
    (hcurrent : path.components.head? ≠ some .current) :
    (base.join path).components = base.components ++ path.components := by
  by_cases hbase : base.text = []
  · obtain ⟨text⟩ := base
    obtain rfl : text = [] := hbase
    have hjoin : join ⟨[]⟩ path = path := by simp [join, habsolute]
    rw [hjoin, components_empty, List.nil_append]
  · have hlater : (path.texts.map PathPart.later).filterMap (·.component) = path.components := by
      by_cases hpath : path.text = []
      · obtain ⟨text⟩ := path
        obtain rfl : text = [] := hpath
        decide
      · obtain ⟨first, rest, htexts, hparts⟩ := exists_parts_eq hpath
        rw [isAbsolute_eq hpath, htexts] at habsolute
        have hempty : first ≠ [] := by simpa using habsolute
        have hdot : first ≠ [Name.dot] := by
          rintro rfl
          rw [components, hparts] at hcurrent
          exact hcurrent rfl
        have hsays : laterComponent first ≠ none := by
          unfold laterComponent
          split <;> simp_all
        rw [components, hparts, htexts, firstComponent_eq_later hsays]
        rfl
    rw [components, parts_join hbase habsolute, List.filterMap_append, components_front, hlater]

end Components

section Parents

/-- Parts at the end that say nothing are no components. -/
theorem filterMap_withoutSilent (parts : List PathPart) :
    (withoutSilent parts).filterMap (·.component) = parts.filterMap (·.component) := by
  obtain ⟨silent, hsilent, hnone⟩ := exists_silent parts
  nth_rewrite 2 [hsilent]
  rw [List.filterMap_append, List.filterMap_eq_nil_iff.mpr hnone, List.append_nil]

/-- Parts that say nothing are no components. -/
theorem filterMap_dropSilent (parts : List PathPart) :
    (dropSilent parts).filterMap (·.component) = parts.filterMap (·.component) := by
  induction parts with
  | nil => rfl
  | cons part rest ih =>
    rw [dropSilent]
    cases hpart : part.component with
    | none =>
      rw [List.dropWhile_cons_of_pos (by simp [hpart]), List.filterMap_cons_none hpart]
      exact ih
    | some component => rw [List.dropWhile_cons_of_neg (by simp [hpart])]

/-- The last part is not silent when what says nothing is dropped. -/
theorem component_ne_none_of_withoutSilent {parts before : List PathPart} {last : PathPart}
    (h : withoutSilent parts = before ++ [last]) : last.component ≠ none := by
  have hdrop : dropSilent parts.reverse = last :: before.reverse := by
    rw [← List.reverse_reverse (dropSilent parts.reverse), ← withoutSilent, h, List.reverse_append,
      List.reverse_singleton, List.singleton_append]
  have hhead := List.head?_dropWhile_not (fun part : PathPart => part.component.isNone) parts.reverse
  rw [← dropSilent, hdrop] at hhead
  simpa [Option.ne_none_iff_isSome] using hhead

/-- The path above one that ends with a name has the components before that name. -/
theorem exists_parent?_eq_some {path : Path} {above : List Component} {name : Name}
    (hne : above ≠ []) (h : path.components = above ++ [.name name]) :
    ∃ parent, path.parent? = some parent ∧ parent.components = above := by
  have htext : path.text ≠ [] := text_ne_empty_iff.mpr (by simp [h])
  obtain ⟨first, rest, hfront, -, hslash⟩ := @exists_front_append_eq path htext [] nofun
  rw [List.map_nil, List.append_nil] at hfront
  obtain ⟨kept, hkept, hwithout⟩ := exists_withoutSilent_eq first rest
  have hcomponents := path.components_front
  rw [hfront, ← filterMap_withoutSilent, hwithout, h] at hcomponents
  cases kept using List.reverseRecOn with
  | nil =>
    have hlength := congrArg List.length hcomponents
    have hpos := List.length_pos_iff.mpr hne
    have hle := List.length_filterMap_le (fun part : PathPart => part.component)
      [⟨first, firstComponent true first⟩]
    simp only [List.map_nil, List.length_append, List.length_singleton] at hlength hle
    omega
  | append_singleton before last =>
    rw [List.map_append, List.map_singleton, ← List.cons_append] at hwithout hcomponents
    obtain ⟨component, hlast⟩ :=
      Option.ne_none_iff_exists'.mp (component_ne_none_of_withoutSilent hwithout)
    rw [List.filterMap_append, List.filterMap_cons_some hlast] at hcomponents
    obtain ⟨hbefore, hsame⟩ := List.append_inj' hcomponents rfl
    obtain rfl := (List.cons.inj hsame).1
    refine ⟨ending first before, ?_, ?_⟩
    · have hreverse : dropSilent (beginning first rest).reverse =
          .later last :: (beginning first before).reverse := by
        rw [← List.reverse_reverse (dropSilent _), ← withoutSilent, beginning, hwithout,
          List.reverse_append, List.reverse_singleton, List.singleton_append, beginning]
      rw [parent?, parents_eq_of_parts path.parts_eq_front, hfront, ← beginning,
        ← parentsOf_dropSilent, hreverse, parentsOf, hlast]
      rfl
    · have hnone : ∀ text ∈ first :: before, Name.slash ∉ text := fun text htext =>
        hslash text (List.cons_subset_cons first
          ((List.prefix_append before [last]).trans hkept).subset htext)
      have hending : (ending first before).components =
          (withoutSilent (beginning first before)).filterMap (·.component) := by
        rw [components]
        rcases parts_ending hnone with hparts | hparts <;> simp [hparts]
      rw [hending, filterMap_withoutSilent]
      exact hbefore

end Parents

section Relative

/-- What follows given components among parts. -/
theorem exists_dropComponents_eq_some {expected : List Component} {parts : List PathPart}
    {more : List Component} (h : parts.filterMap (·.component) = expected ++ more) :
    ∃ rest, dropComponents expected parts = some rest ∧ rest.filterMap (·.component) = more ∧
      rest <:+ parts := by
  induction parts generalizing expected with
  | nil =>
    obtain ⟨rfl, rfl⟩ := List.append_eq_nil_iff.mp h.symm
    exact ⟨[], rfl, rfl, List.suffix_rfl⟩
  | cons part rest ih =>
    cases expected with
    | nil => exact ⟨part :: rest, rfl, h, List.suffix_rfl⟩
    | cons first expected =>
      cases hpart : part.component with
      | none =>
        rw [List.filterMap_cons_none hpart] at h
        obtain ⟨after, hdrop, hmore, hsuffix⟩ := ih h
        refine ⟨after, ?_, hmore, hsuffix.trans (List.suffix_cons part rest)⟩
        rw [dropComponents, hpart]
        exact hdrop
      | some component =>
        rw [List.filterMap_cons_some hpart, List.cons_append] at h
        obtain ⟨rfl, hrest⟩ := List.cons.inj h
        obtain ⟨after, hdrop, hmore, hsuffix⟩ := ih hrest
        refine ⟨after, ?_, hmore, hsuffix.trans (List.suffix_cons part rest)⟩
        rw [dropComponents, hpart]
        simpa using hdrop

/-- Texts after a slash without those at both ends that say nothing. -/
theorem exists_kept (texts : List Name) : ∃ kept, kept <:+: texts ∧
    withoutSilent (dropSilent (texts.map .later)) = kept.map .later ∧
    ∀ text ∈ kept.head?, laterComponent text ≠ none := by
  obtain ⟨begun, hbegun, hdrop⟩ := List.suffix_map_iff.mp
    (List.dropWhile_suffix (fun part : PathPart => part.component.isNone) (l := texts.map .later))
  obtain ⟨kept, hkept, hwithout⟩ := List.prefix_map_iff.mp (withoutSilent_isPrefix (begun.map .later))
  refine ⟨kept, hkept.isInfix.trans hbegun.isInfix, ?_, fun text htext => ?_⟩
  · rw [dropSilent, hdrop, hwithout]
  · have hhead := List.head?_dropWhile_not (fun part : PathPart => part.component.isNone)
      (texts.map .later)
    obtain ⟨more, rfl⟩ := hkept
    rw [hdrop, List.head?_map, List.head?_append, Option.mem_def.mp htext] at hhead
    simpa [PathPart.later, Option.ne_none_iff_isSome] using hhead

/-- Of a path that begins with the components of another one, the names that follow are left. -/
theorem exists_relativeTo?_eq_some {path base : Path} {names : List Name} (hbase : base.text ≠ [])
    (h : path.components = base.components ++ names.map .name) :
    ∃ relative, path.relativeTo? base = some relative ∧
      relative.components = names.map .name ∧ relative.isAbsolute = false := by
  obtain ⟨expected, more, hexpected⟩ := List.exists_cons_of_ne_nil (text_ne_empty_iff.mp hbase)
  have hpath : path.text ≠ [] := text_ne_empty_iff.mpr (by simp [h, hexpected])
  obtain ⟨first, rest, htexts, hparts⟩ := exists_parts_eq hpath
  obtain ⟨component, hfirst⟩ := Option.ne_none_iff_exists'.mp (firstComponent_ne_none first)
  have hslash : ∀ text ∈ first :: rest, Name.slash ∉ text := fun text htext =>
    noSlash_of_mem_texts (htexts ▸ htext)
  rw [components, hparts, hexpected, List.cons_append] at h
  have h' : component :: (rest.map PathPart.later).filterMap (·.component) =
      expected :: (more ++ names.map .name) := by simpa [hfirst] using h
  obtain ⟨rfl, hrest⟩ := List.cons.inj h'
  obtain ⟨after, hdrop, hnames, hsuffix⟩ := exists_dropComponents_eq_some hrest
  obtain ⟨texts, htextsSuffix, rfl⟩ := List.suffix_map_iff.mp hsuffix
  obtain ⟨kept, hkept, hwithout, hhead⟩ := exists_kept texts
  have hnoSlash : ∀ text ∈ kept, Name.slash ∉ text := fun text htext =>
    hslash text (List.mem_cons_of_mem _ (htextsSuffix.subset (hkept.subset htext)))
  have hkeptNames : kept.filterMap laterComponent = names.map .name := by
    rw [← hnames, ← filterMap_dropSilent, ← filterMap_withoutSilent, hwithout, List.filterMap_map]
    rfl
  have hofParts : ofParts (kept.map .later) = ⟨[Name.slash].intercalate kept⟩ := by
    unfold ofParts
    split
    next hroot =>
      cases kept with
      | nil => cases hroot
      | cons text texts =>
        have htext := congrArg PathPart.component (List.cons.inj hroot).1
        have hempty := congrArg PathPart.text (List.cons.inj hroot).1
        obtain rfl : text = [] := hempty
        cases htext
    next => simp [Function.comp_def, PathPart.later]
  have hcomponents := components_intercalate hnoSlash hhead
  refine ⟨⟨[Name.slash].intercalate kept⟩, ?_, hcomponents.trans hkeptNames,
    isAbsolute_intercalate_of_head? hnoSlash hhead⟩
  rw [relativeTo?, hparts, hexpected, dropComponents, hfirst]
  simp only [if_true]
  rw [hdrop, Option.map_some, ← hofParts, ← hwithout]
  rfl

end Relative

section Names

variable {directories : List Name} {name : Name}

/-- The name of an entry is its only component. -/
theorem components_name (h : IsEntryName name) : components ⟨name⟩ = [.name name] := by
  have hlater : laterComponent name = some (.name name) :=
    congrArg PathPart.component (later_of_isEntryName h)
  rw [components, parts_eq_partsOf, texts_eq_singleton h.noSlash, partsOf,
    firstComponent_eq_later (laterComponent_of_isEntryName h), hlater]
  rfl

/-- Paths are the same text when there is the same between their slashes. -/
theorem eq_of_texts {first second : Path} (h : first.texts = second.texts) : first = second := by
  have htext : first.text = second.text := by
    rw [← first.intercalate_texts, h, second.intercalate_texts]
  cases first
  cases second
  exact congrArg Path.mk htext

/-- A slash at the end of what is joined to a path says no more there. -/
theorem leading_join (base : Path) {path : Path} (h : path.isAbsolute = false) :
    (base.join path).leading = base.leading ++ path.leading := by
  have hpath : path.leading = if path.texts.getLast? = some [] then path.texts.dropLast
      else path.texts := rfl
  rw [hpath, leading, texts_join base h, List.getLast?_append_of_ne_nil _ path.texts_ne_nil]
  split
  next => exact List.dropLast_append_of_ne_nil path.texts_ne_nil
  next => rfl

/-- Names between slashes are what a path of them says. -/
theorem leading_intercalate {names : List Name} (h : ∀ name ∈ names, IsEntryName name) :
    leading ⟨[Name.slash].intercalate names⟩ = names := by
  cases names using List.reverseRecOn with
  | nil => decide
  | append_singleton before last =>
    have hlast : last ≠ [] := (h last (by simp)).ne_empty
    rw [leading, texts_intercalate (by simp) fun name hname => (h name hname).noSlash,
      List.getLast?_concat, if_neg (by simpa using hlast)]

/-- Names that are put one below the other follow a path as if they were joined by slashes first. -/
theorem leading_descend (base : Path) {names : List Name} (h : ∀ name ∈ names, IsEntryName name) :
    (base.descend names).leading = base.leading ++ names := by
  induction names generalizing base with
  | nil => simp [descend]
  | cons first rest ih =>
    have hfirst : leading ⟨first⟩ = [first] := by
      simpa using leading_intercalate (List.forall_mem_singleton.mpr (h first List.mem_cons_self))
    rw [List.forall_mem_cons] at h
    have hrest := ih (base.join ⟨first⟩) h.2
    rw [leading_join base (isAbsolute_name h.1), hfirst, List.append_assoc] at hrest
    exact hrest

/-- Names that are joined by slashes and put below a path lead where they lead one by one. -/
theorem join_join_eq_descend (base : Path) (hnames : ∀ name ∈ directories, IsEntryName name)
    (hname : IsEntryName name) :
    (base.join ⟨[Name.slash].intercalate directories⟩).join ⟨name⟩ = base.descend (directories ++ [name]) := by
  have hdescend : base.descend (directories ++ [name]) = (base.descend directories).join ⟨name⟩ :=
    descend_append base directories [name]
  refine eq_of_texts ?_
  rw [hdescend, texts_join_name _ hname, texts_join_name _ hname, leading_descend base hnames,
    leading_join base (isAbsolute_intercalate hnames), leading_intercalate hnames]

/-- A project below a root is found there by the names of its directories. -/
theorem relativeDirectory_of_components {root path : Path} (hroot : root.text ≠ [])
    (h : path.components = root.components ++ (directories ++ [name]).map .name) :
    (Command.relativeDirectory root path).components = directories.map .name ∧
      (Command.relativeDirectory root path).isAbsolute = false := by
  have hne : root.components ++ directories.map Component.name ≠ [] :=
    List.append_ne_nil_of_left_ne_nil (text_ne_empty_iff.mp hroot) _
  rw [List.map_append, ← List.append_assoc, List.map_singleton] at h
  obtain ⟨parent, hparent, habove⟩ := exists_parent?_eq_some hne h
  obtain ⟨relative, hrelative, hnames, habsolute⟩ := exists_relativeTo?_eq_some hroot habove
  have hdirectory : Command.relativeDirectory root path = relative := by
    rw [Command.relativeDirectory, if_neg (by simpa using hroot), hparent, Option.bind_some, hrelative]
    rfl
  rw [hdirectory]
  exact ⟨hnames, habsolute⟩

/-- Names that lead on from a path add themselves to its components. -/
theorem components_descend (path : Path) {names : List Name}
    (hnames : ∀ name ∈ names, IsEntryName name) :
    (path.descend names).components = path.components ++ names.map .name := by
  induction names generalizing path with
  | nil => simp [descend]
  | cons name rest ih =>
    rw [List.forall_mem_cons] at hnames
    have hjoin : (path.join ⟨name⟩).components = path.components ++ [.name name] := by
      rw [components_join path (isAbsolute_name hnames.1), components_name hnames.1]
      simp [components_name hnames.1]
    have hrest : (path.descend (name :: rest)).components =
        (path.join ⟨name⟩).components ++ rest.map .name := ih (path.join ⟨name⟩) hnames.2
    rw [hrest, hjoin, List.append_assoc, List.singleton_append, List.map_cons]

/-- Different names lead on to paths that are not the same. -/
theorem descend_same_iff (path : Path) {first second : List Name}
    (hfirst : ∀ name ∈ first, IsEntryName name) (hsecond : ∀ name ∈ second, IsEntryName name) :
    (path.descend first).same (path.descend second) = true ↔ first = second := by
  have hinjective : Function.Injective Component.name := fun _ _ => Component.name.inj
  rw [same, components_descend path hfirst, components_descend path hsecond, decide_eq_true_eq,
    List.append_cancel_left_eq, hinjective.list_map.eq_iff]

end Names

end Path

end Carta
