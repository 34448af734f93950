import Carta.Command.Arguments
import Carta.Proofs.Names

/-!
# What the words of a command line spell

A command line that is accepted names an input and an output, none of which is empty: whatever is
read as a path is checked before it is kept, and no other value touches the paths. Words that are
no options, for the input and the output, are accepted as they are.
-/

namespace Carta.Command

/-- The paths that are kept are not empty. -/
def Draft.HasPaths (draft : Draft) : Prop :=
  (∀ input ∈ draft.input, input.text ≠ []) ∧ ∀ output ∈ draft.output, output.text ≠ []

/-- What is kept in a place is the value. -/
theorem once_eq_ok {A : Type} {place kept : Option A} {value : Except Refusal A}
    (h : once place value = .ok kept) : ∃ a, value = .ok a ∧ kept = some a := by
  rw [once] at h
  split at h
  next => cases h
  next =>
    obtain ⟨a, ha, rfl⟩ := map_eq_ok_iff.mp h
    exact ⟨a, ha, rfl⟩

/-- A path that is accepted on the command line is not empty. -/
theorem text_ne_empty_of_pathValue {word : Name} {path : Path} (h : pathValue word = .ok path) :
    path.text ≠ [] := by
  rw [pathValue] at h
  split at h
  next => cases h
  next hempty =>
    obtain rfl := Except.ok.inj h
    simpa using hempty

namespace Draft.HasPaths

variable {draft after : Draft}

/-- A path is kept only when it is not empty. -/
theorem of_once {place kept : Option Path} {word : Name}
    (h : once place (pathValue word) = .ok kept) : ∀ path ∈ kept, path.text ≠ [] := by
  obtain ⟨path, hpath, rfl⟩ := once_eq_ok h
  rintro _ ⟨⟩
  exact text_ne_empty_of_pathValue hpath

/-- No path becomes empty when a value is stored. -/
theorem put (h : draft.HasPaths) {key : ValueKey} {word : Name}
    (hput : draft.put key word = .ok after) : after.HasPaths := by
  -- Each key keeps one value; those of the paths are checked, the others leave the paths.
  cases key <;>
    (rw [Draft.put, bind_eq_ok_iff] at hput
     obtain ⟨kept, hkept, hafter⟩ := hput
     obtain rfl := Except.ok.inj hafter)
  case input => exact ⟨of_once hkept, h.2⟩
  case output => exact ⟨h.1, of_once hkept⟩
  all_goals exact h

/-- No path becomes empty when a flag is set. -/
theorem putFlag (h : draft.HasPaths) {key : FlagKey} (hput : draft.putFlag key = .ok after) :
    after.HasPaths := by
  cases key with
  | outputFormatBlock =>
    rw [Draft.putFlag, bind_eq_ok_iff] at hput
    obtain ⟨kept, -, hafter⟩ := hput
    exact Except.ok.inj hafter ▸ h
  | help => cases hput
  | version => cases hput

end Draft.HasPaths

namespace Reading

variable {reading after : Reading}

/-- No path becomes empty when the value that is waited for is checked. -/
theorem hasPaths_settle (h : reading.draft.HasPaths) (hsettle : reading.settle = .ok after) :
    after.draft.HasPaths := by
  rw [settle] at hsettle
  split at hsettle
  next => exact Except.ok.inj hsettle ▸ h
  next => cases hsettle
  next =>
    obtain ⟨draft, hdraft, hafter⟩ := bind_eq_ok_iff.mp hsettle
    exact Except.ok.inj hafter ▸ h.put hdraft

/-- No path becomes empty when a value is waited for. -/
theorem hasPaths_await (h : reading.draft.HasPaths) {key : ValueKey}
    (hawait : reading.await key = .ok after) : after.draft.HasPaths := by
  obtain ⟨settled, hsettled, hafter⟩ := bind_eq_ok_iff.mp hawait
  obtain rfl := Except.ok.inj hafter
  have hpaths := hasPaths_settle h hsettled
  exact hpaths

/-- No path becomes empty when a value is attached to its option. -/
theorem hasPaths_attach (h : reading.draft.HasPaths) {key : ValueKey} {word : Name}
    (hattach : reading.attach key word = .ok after) : after.draft.HasPaths := by
  obtain ⟨settled, hsettled, hrest⟩ := bind_eq_ok_iff.mp hattach
  obtain ⟨draft, hdraft, hafter⟩ := bind_eq_ok_iff.mp hrest
  exact Except.ok.inj hafter ▸ (hasPaths_settle h hsettled).put hdraft

/-- No path becomes empty when a flag is read. -/
theorem hasPaths_flag (h : reading.draft.HasPaths) {key : FlagKey}
    (hflag : reading.flag key = .ok after) : after.draft.HasPaths := by
  obtain ⟨settled, hsettled, hrest⟩ := bind_eq_ok_iff.mp hflag
  obtain ⟨draft, hdraft, hafter⟩ := bind_eq_ok_iff.mp hrest
  exact Except.ok.inj hafter ▸ (hasPaths_settle h hsettled).putFlag hdraft

/-- No path becomes empty when a positional word is read. -/
theorem hasPaths_positional (h : reading.draft.HasPaths) {word : Name}
    (hpositional : reading.positional word = .ok after) : after.draft.HasPaths := by
  rw [positional] at hpositional
  split at hpositional
  next => cases hpositional
  next =>
    obtain ⟨settled, hsettled, hafter⟩ := bind_eq_ok_iff.mp hpositional
    obtain rfl := Except.ok.inj hafter
    have hpaths := hasPaths_settle h hsettled
    exact hpaths

/-- No path becomes empty when a word is read as a value. -/
theorem hasPaths_value (h : reading.draft.HasPaths) {word : Name}
    (hvalue : reading.value word = .ok after) : after.draft.HasPaths := by
  rw [value] at hvalue
  split at hvalue
  next => exact Except.ok.inj hvalue ▸ h
  next => exact hasPaths_positional h hvalue

/-- No path becomes empty when a long option is read. -/
theorem hasPaths_long (h : reading.draft.HasPaths) {body : Name}
    (hlong : reading.long body = .ok after) : after.draft.HasPaths := by
  unfold long at hlong
  dsimp only at hlong
  split at hlong
  next => cases hlong
  next => exact hasPaths_attach h hlong
  next => exact hasPaths_await h hlong
  next => cases hlong
  next => exact hasPaths_flag h hlong

/-- No path becomes empty when short options are read. -/
theorem hasPaths_short (h : reading.draft.HasPaths) {letter : UInt8} {rest : Name}
    (hshort : reading.short letter rest = .ok after) : after.draft.HasPaths := by
  unfold short at hshort
  split at hshort
  next => cases hshort
  next => exact hasPaths_flag h hshort
  next => exact hasPaths_await h hshort
  next => exact hasPaths_attach h hshort
  next => exact hasPaths_attach h hshort

/-- One word keeps no empty path. -/
theorem hasPaths_take (h : reading.draft.HasPaths) {word : Name}
    (htake : reading.take word = .ok after) : after.draft.HasPaths := by
  unfold take at htake
  split at htake
  next => exact hasPaths_positional h htake
  next =>
    split at htake
    next => exact Except.ok.inj htake ▸ h
    next => exact hasPaths_long h htake
    next => exact hasPaths_short h htake
    next => exact hasPaths_value h htake

/-- No words keep an empty path. -/
theorem hasPaths_takeAll (h : reading.draft.HasPaths) {words : List Name}
    (htakeAll : reading.takeAll words = .ok after) : after.draft.HasPaths := by
  induction words generalizing reading with
  | nil => exact hasPaths_settle h htakeAll
  | cons word rest ih =>
    obtain ⟨taken, htaken, hrest⟩ := bind_eq_ok_iff.mp htakeAll
    exact ih (hasPaths_take h htaken) hrest

end Reading

/-- A word that is not empty and is no option. -/
def IsPlainWord (word : Name) : Prop :=
  word ≠ [] ∧ word.head? ≠ some dash

instance (word : Name) : Decidable (IsPlainWord word) :=
  inferInstanceAs (Decidable (_ ∧ _))

/-- A plain word is accepted as a path. -/
theorem IsPlainWord.pathValue_eq {word : Name} (h : IsPlainWord word) :
    pathValue word = .ok ⟨word⟩ :=
  if_neg (by simp [h.1])

/-- A plain word is a value, or the input. -/
theorem IsPlainWord.take_eq {word : Name} (h : IsPlainWord word) {reading : Reading}
    (hoptions : reading.optionsOver = false) : reading.take word = reading.value word := by
  rw [Reading.take.eq_def, if_neg (by simp [hoptions])]
  split
  next => exact absurd rfl h.2
  next => exact absurd rfl h.2
  next => exact absurd rfl h.2
  next => rfl

/-- A plain word is the input, and another one the output when it follows the option for that. -/
theorem exists_ofWords_eq_ok {input output : Name} (hinput : IsPlainWord input)
    (houtput : IsPlainWord output) : ∃ arguments,
    Arguments.ofWords [input, "-o", output] = .ok arguments ∧ arguments.input = ⟨input⟩ ∧
      arguments.output = ⟨output⟩ := by
  -- A word waits to be checked until the next option begins, or to the end.
  let waiting : Reading := { pending := some ⟨.input, some input⟩, inputSeen := true }
  let checked : Reading := { draft := { input := some ⟨input⟩ }, inputSeen := true }
  let last : Reading := { checked with pending := some ⟨.output, some output⟩ }
  have htake : ({} : Reading).take input = .ok waiting := hinput.take_eq rfl
  have hsettle : waiting.settle = .ok checked := by
    have hput : ({} : Draft).put .input input = .ok { input := some ⟨input⟩ } := by
      rw [Draft.put.eq_def]
      dsimp only
      rw [hinput.pathValue_eq]
      rfl
    rw [Reading.settle]
    dsimp only [waiting]
    rw [hput]
    rfl
  have hoption : waiting.take "-o" = .ok { checked with pending := some ⟨.output, none⟩ } := by
    have hshort : waiting.take "-o" = waiting.await .output := rfl
    rw [hshort, Reading.await, hsettle]
    rfl
  have hvalue : Reading.take { checked with pending := some ⟨.output, none⟩ } output = .ok last :=
    houtput.take_eq rfl
  have hend : last.settle =
      .ok { checked with draft := { checked.draft with output := some ⟨output⟩ } } := by
    have hput : checked.draft.put .output output =
        .ok { checked.draft with output := some ⟨output⟩ } := by
      rw [Draft.put.eq_def]
      dsimp only
      rw [houtput.pathValue_eq]
      rfl
    rw [Reading.settle]
    dsimp only [last]
    rw [hput]
    rfl
  have hall : ({} : Reading).takeAll [input, "-o", output] =
      .ok { checked with draft := { checked.draft with output := some ⟨output⟩ } } := by
    rw [Reading.takeAll, htake]
    change waiting.takeAll ["-o", output] = _
    rw [Reading.takeAll, hoption]
    change Reading.takeAll { checked with pending := some ⟨.output, none⟩ } [output] = _
    rw [Reading.takeAll, hvalue]
    exact hend
  rw [Arguments.ofWords, hall]
  exact ⟨_, rfl, rfl, rfl⟩

/-- Arguments that are accepted have an input and an output. -/
theorem Arguments.text_ne_empty_of_ofWords {words : List Name} {arguments : Arguments}
    (h : Arguments.ofWords words = .ok arguments) :
    arguments.input.text ≠ [] ∧ arguments.output.text ≠ [] := by
  obtain ⟨reading, hreading, hdraft⟩ := bind_eq_ok_iff.mp h
  have hempty : ({} : Reading).draft.HasPaths := ⟨nofun, nofun⟩
  have hpaths := Reading.hasPaths_takeAll hempty hreading
  rw [Arguments.ofDraft] at hdraft
  split at hdraft
  next input output hinput houtput =>
    obtain rfl := Except.ok.inj hdraft
    exact ⟨hpaths.1 input hinput, hpaths.2 output houtput⟩
  next => cases hdraft

end Carta.Command
