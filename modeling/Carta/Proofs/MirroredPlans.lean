import Carta.Proofs.RelativePaths
import Mathlib.Data.List.Nodup

/-!
# Plans mirror what is below the root

A project that is found below the root of a run by the names of directories has its mapfile below the
output by the same names, with the stem of its own name, if the stem spells a text. Two projects have
the same mapfile when the directories and the stems are the same, and there is a plan when no two of
them do and all stems spell texts. Otherwise the first project is told that has no mapfile, or whose
mapfile is taken, with the one that has taken it.
-/

namespace Carta

namespace Command

/-- A project below the root of a run, with the names of the directories that lead to it and its own
name. -/
structure Source where
  project : Path
  directories : List Name
  name : Name

namespace Source

/-- The name of a project without its extension. -/
def stem (source : Source) : Name :=
  (Path.splitName source.name).1

/-- The directories and the stem of a project. -/
def target (source : Source) : List Name × Name :=
  (source.directories, source.stem)

/-- The names of the mapfile of a project below the output. -/
def names (source : Source) : List Name :=
  source.directories ++ [Path.mapName source.name]

/-- A project is found below a root by the names of directories and its own name, however its path
is written. -/
structure IsBelow (root : Path) (source : Source) : Prop where
  components : source.project.components =
    root.components ++ (source.directories ++ [source.name]).map .name
  names : ∀ name ∈ source.directories ++ [source.name], IsEntryName name

/-- A path has the names of the mapfile of a project below the output, and is written with them where
the path of the project is written with its own. -/
structure Mirrors (root output : Path) (source : Source) (mapFile : Path) : Prop where
  components : mapFile.components = output.components ++ source.names.map .name
  text : source.project = root.descend (source.directories ++ [source.name]) →
    mapFile = output.descend source.names

/-- The mapfile of a project whose stem spells a text. -/
def mapFile (root output : Path) (source : Source) : Path :=
  (output.join (relativeDirectory root source.project)).join ⟨Path.mapName source.name⟩

/-- The task of a project. -/
def task (root output : Path) (source : Source) : Task :=
  ⟨source.project, source.mapFile root output⟩

/-- A project with the target of an earlier one makes the targets repeat. -/
theorem not_nodup_of_target_eq {before after : List Source} {earlier later : Source}
    (hearlier : earlier ∈ before) (h : earlier.target = later.target) :
    ¬ ((before ++ later :: after).map target).Nodup := by
  intro hnodup
  rw [List.map_append, List.nodup_append] at hnodup
  exact hnodup.2.2 _ (List.mem_map_of_mem hearlier) _ (List.mem_map_of_mem List.mem_cons_self) h

variable {root : Path} (hroot : root.text ≠ []) (output : Path) {source : Source}

/-- The names from the root down to a source are names of entries. -/
theorem isEntryName_names (h : source.IsBelow root) : ∀ name ∈ source.names, IsEntryName name := by
  have hnames := h.names
  simp only [names, List.forall_mem_append, List.forall_mem_singleton] at hnames ⊢
  exact ⟨hnames.1, Path.isEntryName_mapName hnames.2⟩

/-- The stem of a project below a root is that of its name. -/
theorem fileStem?_eq (h : source.IsBelow root) : source.project.fileStem? = some source.stem := by
  have hname : source.project.fileName? = some source.name := by
    rw [Path.fileName?, h.components, List.map_append, ← List.append_assoc, List.map_singleton,
      List.getLast?_concat]
  rw [Path.fileStem?, hname]
  rfl

/-- A project below a root has a mapfile when its stem spells a text. -/
theorem mapFileFor_eq (h : source.IsBelow root) (htext : Name.isText source.stem = true) :
    mapFileFor root source.project output = .ok (source.mapFile root output) :=
  Path.mapFileFor_eq_ok_iff.mpr ⟨source.stem, fileStem?_eq h, htext, rfl⟩

/-- A project below a root is told when its stem spells no text. -/
theorem mapFileFor_of_not_isText (h : source.IsBelow root)
    (htext : ¬ Name.isText source.stem = true) :
    mapFileFor root source.project output = .error (.namelessProject source.project) := by
  have hnone : Name.text? source.stem = none := by simpa [Name.isText] using htext
  rw [mapFileFor, fileStem?_eq h, Option.bind_some, hnone]

include hroot

/-- The mapfile of a project is where the project is, but below the output. -/
theorem mirrors_mapFile (h : source.IsBelow root) :
    source.Mirrors root output (source.mapFile root output) := by
  have hown : IsEntryName (Path.mapName source.name) :=
    isEntryName_names h _ (List.mem_append_right _ (List.mem_singleton_self _))
  obtain ⟨hcomponents, habsolute⟩ := Path.relativeDirectory_of_components hroot h.components
  have hcurrent : ∀ names : List Name, (names.map Component.name).head? ≠ some .current := by
    intro names
    cases names <;> simp
  constructor
  case components =>
    rw [mapFile, Path.components_join _ (Path.isAbsolute_name hown),
      Path.components_join _ habsolute, hcomponents, Path.components_name hown, names,
      List.map_append, List.append_assoc]
    · rfl
    · exact hcomponents ▸ hcurrent source.directories
    · exact Path.components_name hown ▸ hcurrent [Path.mapName source.name]
  case text =>
    intro hproject
    have hnames := h.names
    simp only [List.forall_mem_append, List.forall_mem_singleton] at hnames
    rw [mapFile, hproject, Path.relativeDirectory_descend hroot hnames.1 hnames.2]
    exact Path.join_join_eq_descend output hnames.1 hown

/-- Two projects have the same mapfile when their directories and their stems are the same. -/
theorem same_mapFile_iff {first second : Source} (hfirst : first.IsBelow root)
    (hsecond : second.IsBelow root) :
    (first.mapFile root output).same (second.mapFile root output) = true ↔
      first.target = second.target := by
  have hinjective : Function.Injective Component.name := fun _ _ => Component.name.inj
  rw [Path.same, (mirrors_mapFile hroot output hfirst).components,
    (mirrors_mapFile hroot output hsecond).components, decide_eq_true_eq, List.append_cancel_left_eq,
    hinjective.list_map.eq_iff, names, names, target, target, Prod.mk.injEq]
  constructor
  · intro h
    obtain ⟨hdirectories, hstem⟩ := List.append_inj' h rfl
    exact ⟨hdirectories, List.append_cancel_right (List.singleton_injective hstem)⟩
  · rintro ⟨hdirectories, hstem⟩
    have hname : Path.mapName first.name = Path.mapName second.name :=
      congrArg (· ++ Path.mapEnding) hstem
    rw [hdirectories, hname]

/-- Projects with other targets have not taken the mapfile of a project. -/
theorem find?_taken {done : List Source} (hdone : ∀ earlier ∈ done, earlier.IsBelow root)
    (h : source.IsBelow root) :
    ((done.map (task root output)).find? (·.mapFile.same (source.mapFile root output)) = none ∧
      source.target ∉ done.map target) ∨
    ∃ earlier ∈ done, earlier.target = source.target ∧
      (done.map (task root output)).find? (·.mapFile.same (source.mapFile root output)) =
        some (earlier.task root output) := by
  cases hfind : (done.map (task root output)).find?
      (·.mapFile.same (source.mapFile root output)) with
  | none =>
    refine .inl ⟨rfl, fun hmem => ?_⟩
    obtain ⟨earlier, hearlier, htarget⟩ := List.mem_map.mp hmem
    exact List.find?_eq_none.mp hfind _ (List.mem_map_of_mem hearlier)
      ((same_mapFile_iff hroot output (hdone earlier hearlier) h).mpr htarget)
  | some found =>
    obtain ⟨earlier, hearlier, rfl⟩ := List.mem_map.mp (List.mem_of_find?_eq_some hfind)
    have hsame := List.find?_some hfind
    exact .inr ⟨earlier, hearlier,
      (same_mapFile_iff hroot output (hdone earlier hearlier) h).mp hsame, rfl⟩

/-- What becomes of projects, after others that are planned: all of them are planned, or those before
one whose stem spells no text or whose target is that of an earlier one. -/
theorem planAfter_cases {sources : List Source} (hsources : ∀ source ∈ sources, source.IsBelow root)
    {done : List Source} (hdone : ∀ earlier ∈ done, earlier.IsBelow root)
    (hdistinct : (done.map target).Nodup) :
    ((∀ source ∈ sources, Name.isText source.stem = true) ∧
      ((done ++ sources).map target).Nodup ∧
      planAfter root output (done.map (task root output)) (sources.map (·.project)) =
        .ok ((done ++ sources).map (task root output))) ∨
    ∃ before later after, sources = before ++ later :: after ∧
      (∀ source ∈ before, Name.isText source.stem = true) ∧
      ((done ++ before).map target).Nodup ∧
      ((¬ Name.isText later.stem = true ∧
        planAfter root output (done.map (task root output)) (sources.map (·.project)) =
          .error (.namelessProject later.project)) ∨
      Name.isText later.stem = true ∧ ∃ earlier ∈ done ++ before, earlier.target = later.target ∧
        planAfter root output (done.map (task root output)) (sources.map (·.project)) =
          .error (.collision earlier.project later.project (later.mapFile root output))) := by
  induction sources generalizing done with
  | nil => exact .inl ⟨List.forall_mem_nil _, by simpa [planAfter] using hdistinct⟩
  | cons source rest ih =>
    rw [List.forall_mem_cons] at hsources
    by_cases htext : Name.isText source.stem = true
    case neg =>
      refine .inr ⟨[], source, rest, rfl, List.forall_mem_nil _, by simpa using hdistinct,
        .inl ⟨htext, ?_⟩⟩
      rw [List.map_cons, planAfter, mapFileFor_of_not_isText output hsources.1 htext]
    case pos =>
      have hmapFile := mapFileFor_eq output hsources.1 htext
      rcases find?_taken hroot output hdone hsources.1 with
        ⟨hfind, hnew⟩ | ⟨earlier, hearlier, htarget, hfind⟩
      · have hdistinct' : ((done ++ [source]).map target).Nodup := by
          rw [List.map_append, List.map_singleton, List.nodup_append]
          exact ⟨hdistinct, List.pairwise_singleton _ _, fun other hother again hagain heq =>
            hnew (List.mem_singleton.mp hagain ▸ heq ▸ hother)⟩
        have hdone' := List.forall_mem_append.mpr ⟨hdone, List.forall_mem_singleton.mpr hsources.1⟩
        have hstep : planAfter root output (done.map (task root output))
              ((source :: rest).map (·.project)) =
            planAfter root output ((done ++ [source]).map (task root output))
              (rest.map (·.project)) := by
          rw [List.map_cons, planAfter, hmapFile]
          dsimp only
          rw [hfind, List.map_append]
          rfl
        rw [hstep, List.append_cons]
        rcases ih hsources.2 hdone' hdistinct' with
          ⟨hall, hplanned⟩ | ⟨before, later, after, rfl, hbefore, h⟩
        · exact .inl ⟨List.forall_mem_cons.mpr ⟨htext, hall⟩, hplanned⟩
        · refine .inr ⟨source :: before, later, after, rfl,
            List.forall_mem_cons.mpr ⟨htext, hbefore⟩, ?_⟩
          rwa [List.append_cons]
      · refine .inr ⟨[], source, rest, rfl, List.forall_mem_nil _, by simpa using hdistinct,
          .inr ⟨htext, earlier, by simpa using hearlier, htarget, ?_⟩⟩
        rw [List.map_cons, planAfter, hmapFile]
        dsimp only
        rw [hfind]
        rfl

/-- There is a plan when all stems spell texts and no two projects have the same target, and
otherwise the first project is told for which this fails, with the earlier one that has its
target. -/
theorem planOutputs_cases {sources : List Source}
    (hsources : ∀ source ∈ sources, source.IsBelow root) :
    ((∀ source ∈ sources, Name.isText source.stem = true) ∧ (sources.map target).Nodup ∧
      planOutputs root (sources.map (·.project)) output = .ok (sources.map (task root output))) ∨
    ∃ before later after, sources = before ++ later :: after ∧
      (∀ source ∈ before, Name.isText source.stem = true) ∧ (before.map target).Nodup ∧
      ((¬ Name.isText later.stem = true ∧
        planOutputs root (sources.map (·.project)) output =
          .error (.namelessProject later.project)) ∨
      Name.isText later.stem = true ∧ ∃ earlier ∈ before, earlier.target = later.target ∧
        planOutputs root (sources.map (·.project)) output =
          .error (.collision earlier.project later.project (later.mapFile root output))) :=
  @planAfter_cases root hroot output sources hsources [] nofun .nil

/-- Projects whose stems spell texts and whose targets are different are planned. -/
theorem planOutputs_of_nodup {sources : List Source}
    (hsources : ∀ source ∈ sources, source.IsBelow root)
    (htexts : ∀ source ∈ sources, Name.isText source.stem = true)
    (hdistinct : (sources.map target).Nodup) :
    planOutputs root (sources.map (·.project)) output = .ok (sources.map (task root output)) := by
  rcases planOutputs_cases hroot output hsources with
    h | ⟨before, later, after, rfl, -, -, ⟨htext, -⟩ | ⟨-, earlier, hearlier, htarget, -⟩⟩
  · exact h.2.2
  · exact absurd (htexts later (List.mem_append_right _ List.mem_cons_self)) htext
  · exact absurd hdistinct (not_nodup_of_target_eq hearlier htarget)

end Source

end Command

end Carta
