import Carta.Convert
import Carta.Proofs.KeptTags

/-!
# Projects that are cut off

A markup that ends at a delimiter is read from its own bytes, so whatever is appended to the bytes
of a document, its markups stay as they are; only a run of text, which ends where the bytes do, can
grow. A document whose first top-level element is complete is therefore still complete up to there
as part of a longer one. Seen from the longer document: cut off before the byte that completes its
first top-level element, it has none that is complete, and reading it fails for want of a root, if
not before. A conversion of such a project leaves everything as it was.
-/

namespace Carta.Xml

/-- Bytes appended to those that a stretch was split off stay behind it. -/
theorem Extent.split?_more {State : Type} {extent : Extent State} {state : State}
    {bytes stretch rest : List UInt8} (h : extent.split? state bytes = some (stretch, rest))
    (more : List UInt8) : extent.split? state (bytes ++ more) = some (stretch, rest ++ more) := by
  induction bytes generalizing state stretch with
  | nil => simp [split?] at h
  | cons b bytes ih =>
    rw [List.cons_append, split?]
    rw [split?] at h
    split at h
    next hends =>
      obtain ⟨rfl, rfl⟩ : [] = stretch ∧ bytes = rest := by simpa using h
      rw [if_pos hends]
    next hends =>
      obtain ⟨⟨stretch', rest'⟩, hsplit, heq⟩ := Option.map_eq_some_iff.mp h
      obtain ⟨rfl, rfl⟩ : b :: stretch' = stretch ∧ rest' = rest := by simpa using heq
      rw [if_neg hends, ih hsplit, Option.map_some]

section Delimited

variable {State : Type} {source : Source} {fault : SyntaxFault} {extent : Extent State}
  {state : State} {bytes rest : List UInt8} {markup : List UInt8 → Except Fault Markup}
  {found : Markup}

/-- Delimited markup is a stretch that makes this markup. -/
theorem delimitedMarkup_eq_ok_iff :
    delimitedMarkup source fault extent state bytes markup = .ok (found, rest) ↔
      ∃ stretch, extent.split? state bytes = some (stretch, rest) ∧ markup stretch = .ok found := by
  rw [delimitedMarkup]
  split
  next hnone => simp [hnone]
  next stretch rest' hsplit =>
    simp only [map_eq_ok_iff, Prod.mk.injEq, hsplit, Option.some.injEq]
    grind

/-- Delimited markup is the same in a longer document, and ends with its delimiter. -/
theorem delimitedMarkup_more (hdelimiter : extent.delimiter = Byte.greater)
    (h : delimitedMarkup source fault extent state bytes markup = .ok (found, rest))
    (longer : Source) (more : List UInt8) :
    delimitedMarkup longer fault extent state (bytes ++ more) markup = .ok (found, rest ++ more) ∧
      Byte.greater :: rest <:+ bytes := by
  obtain ⟨stretch, hsplit, hmarkup⟩ := delimitedMarkup_eq_ok_iff.mp h
  constructor
  · exact delimitedMarkup_eq_ok_iff.mpr ⟨stretch, Extent.split?_more hsplit more, hmarkup⟩
  · exact ⟨stretch, hdelimiter ▸ (Extent.eq_of_split? hsplit).symm⟩

end Delimited

section More

variable {source : Source} {bytes rest : List UInt8} {found : Markup}

/-- What follows `<!` is read the same in a longer document. -/
theorem declarationMarkup_more (h : declarationMarkup source bytes = .ok (found, rest))
    (longer : Source) (more : List UInt8) :
    declarationMarkup longer (bytes ++ more) = .ok (found, rest ++ more) ∧
      Byte.greater :: rest <:+ bytes := by
  cases bytes with
  | nil => cases h
  | cons b bytes =>
    rw [declarationMarkup, List.cons_append, List.head?_cons]
    rw [declarationMarkup, List.head?_cons] at h
    dsimp only at h ⊢
    split at h
    next hbracket =>
      rw [if_pos hbracket]
      exact delimitedMarkup_more rfl h longer more
    next hbracket =>
      rw [if_neg hbracket]
      split at h
      next hdash =>
        rw [if_pos hdash]
        exact delimitedMarkup_more rfl h longer more
      next hdash =>
        rw [if_neg hdash]
        split at h
        next hletter =>
          rw [if_pos hletter]
          exact delimitedMarkup_more rfl h longer more
        next => cases h

/-- What follows `<` is read the same in a longer document. -/
theorem markupAfterLess_more (h : markupAfterLess source bytes = .ok (found, rest))
    (longer : Source) (more : List UInt8) :
    markupAfterLess longer (bytes ++ more) = .ok (found, rest ++ more) ∧
      Byte.greater :: rest <:+ bytes := by
  cases bytes with
  | nil => cases h
  | cons b bytes =>
    rw [List.cons_append, markupAfterLess]
    rw [markupAfterLess] at h
    split at h
    next hbang =>
      rw [if_pos hbang]
      exact (declarationMarkup_more h longer more).imp_right (·.trans (List.suffix_cons _ _))
    next hbang =>
      rw [if_neg hbang]
      split at h
      next hslash =>
        rw [if_pos hslash]
        exact (delimitedMarkup_more rfl h longer more).imp_right (·.trans (List.suffix_cons _ _))
      next hslash =>
        rw [if_neg hslash]
        split at h
        next hquestion =>
          rw [if_pos hquestion]
          exact (delimitedMarkup_more rfl h longer more).imp_right (·.trans (List.suffix_cons _ _))
        next hquestion =>
          rw [if_neg hquestion]
          exact delimitedMarkup_more rfl h longer more

/-- A markup is read the same in a longer document and ends with `>`, unless it is a run of text
that ends where the bytes end. -/
theorem next?_more (h : Markup.next? source bytes = .ok (some (found, rest))) (longer : Source)
    (more : List UInt8) :
    (Markup.next? longer (bytes ++ more) = .ok (some (found, rest ++ more)) ∧ rest <:+ bytes ∧
      ((∃ run, found = .text run) ∨ Byte.greater :: rest <:+ bytes)) ∨
    (∃ run, found = .text run) ∧ rest = [] := by
  rw [Markup.next?] at h ⊢
  split at h
  next => split at h <;> cases h
  next b after hbegin =>
    have hsuffix : b :: after <:+ bytes := hbegin ▸ List.dropWhile_suffix _
    have hmore : (bytes ++ more).dropWhile Byte.isSpace = b :: (after ++ more) := by
      rw [List.dropWhile_append, hbegin]
      rfl
    rw [hmore]
    dsimp only at h ⊢
    split at h
    next hless =>
      obtain ⟨⟨found', rest'⟩, hafter, heq⟩ := map_eq_ok_iff.mp h
      obtain ⟨rfl, rfl⟩ : found' = found ∧ rest' = rest := by simpa using heq
      obtain ⟨hsame, hends⟩ := markupAfterLess_more hafter longer more
      have hgreater := hends.trans ((List.suffix_cons b after).trans hsuffix)
      refine .inl ⟨?_, (List.suffix_cons _ _).trans hgreater, .inr hgreater⟩
      rw [if_pos hless, hsame]
      rfl
    next hless =>
      rw [if_neg hless]
      cases hrest : after.dropWhile (· != Byte.less) with
      | nil =>
        rw [hrest] at h
        cases hfailure : source.failure with
        | some reason => rw [hfailure] at h; cases h
        | none =>
          rw [hfailure] at h
          obtain ⟨hfound, rfl⟩ : _ = found ∧ [] = rest := by simpa using h
          exact .inr ⟨⟨_, hfound.symm⟩, rfl⟩
      | cons less behind =>
        rw [hrest] at h
        obtain ⟨hfound, rfl⟩ : _ = found ∧ less :: behind = rest := by simpa using h
        have hbehind : (after ++ more).dropWhile (· != Byte.less) = less :: behind ++ more := by
          rw [List.dropWhile_append, hrest]
          rfl
        have hrun : (after ++ more).takeWhile (· != Byte.less) = after.takeWhile (· != Byte.less) := by
          rw [List.takeWhile_append, if_neg]
          intro hall
          have hlength := congrArg List.length
            (List.takeWhile_append_dropWhile (p := (· != Byte.less)) (l := after))
          simp [hrest] at hlength
          omega
        refine .inl ⟨?_, ?_, .inl ⟨_, hfound.symm⟩⟩
        · rw [hbehind, hrun, ← hfound]
          rfl
        · rw [← hrest]
          exact (List.dropWhile_suffix _).trans ((List.suffix_cons _ _).trans hsuffix)

end More

/-- The bytes after the first top-level element that markups complete, given the number of open tags
before them. -/
def afterTop? (opened : Nat) : List (Markup × List UInt8) → Option (List UInt8)
  | [] => none
  | (markup, rest) :: later =>
    if markup.completesTop opened then some rest else afterTop? (markup.openAfter opened) later

/-- The bytes after the first top-level element of a document that is complete. -/
def afterFirst? (bytes : List UInt8) : Option (List UInt8) :=
  afterTop? 0 (markupsFrom { bytes } (withoutMark bytes))

/-- Where nothing is after a complete top-level element there is none. -/
theorem completedTops_eq_zero {opened : Nat} {markups : List (Markup × List UInt8)}
    (h : afterTop? opened markups = none) : completedTops opened (markups.map (·.1)) = 0 := by
  induction markups generalizing opened with
  | nil => rfl
  | cons first later ih =>
    obtain ⟨markup, rest⟩ := first
    rw [afterTop?] at h
    split at h
    next => cases h
    next htop =>
      rw [List.map_cons, completedTops, ih h, Bool.eq_false_iff.mpr htop]
      rfl

/-- A document that is read without an error has a complete top-level element. -/
theorem isSome_afterFirst? {bytes : List UInt8} {root : Element} (h : parse bytes = .ok root) :
    ∃ after, afterFirst? bytes = some after := by
  obtain ⟨earlier, progress, haccount⟩ := exists_account h
  cases hafter : afterFirst? bytes with
  | some after => exact ⟨after, rfl⟩
  | none =>
    have hnone : completedTops 0 (markupsOf bytes) = 0 := completedTops_eq_zero hafter
    have htops := haccount.tops
    rw [hnone, List.length_append, List.length_singleton] at htops
    cases htops

/-- A top-level element that is complete stays so in a longer document, and ends with `>`. -/
theorem afterTop?_more {source : Source} {opened : Nat} {bytes after : List UInt8}
    (h : afterTop? opened (markupsFrom source bytes) = some after) (longer : Source)
    (more : List UInt8) :
    afterTop? opened (markupsFrom longer (bytes ++ more)) = some (after ++ more) ∧
      Byte.greater :: after <:+ bytes := by
  fun_induction markupsFrom source bytes generalizing opened with
  | case1 | case2 => cases h
  | case3 bytes markup rest hnext ih =>
    rcases next?_more hnext longer more with ⟨hmore, hsuffix, hends⟩ | ⟨⟨run, rfl⟩, rfl⟩
    · rw [markupsFrom_of_next? hmore, afterTop?]
      rw [afterTop?] at h
      split at h
      next htop =>
        rw [if_pos htop, ← Option.some.inj h]
        rcases hends with ⟨run, rfl⟩ | hends
        · cases htop
        · exact ⟨rfl, hends⟩
      next htop =>
        rw [if_neg htop]
        exact (ih h).imp_right (·.trans hsuffix)
    · rw [afterTop?, markupsFrom_nil] at h
      cases h

/-- The mark at the beginning of a document is the same in a longer one, unless the bytes are only a
part of it. -/
theorem withoutMark_more (bytes more : List UInt8) :
    withoutMark (bytes ++ more) = withoutMark bytes ++ more ∨
      bytes ∈ [[], [0xEF], [0xEF, 0xBB]] := by
  rcases bytes with _ | ⟨first, _ | ⟨second, _ | ⟨third, rest⟩⟩⟩
  · exact .inr (by simp)
  · by_cases hfirst : first = 0xEF
    · exact .inr (by simp [hfirst])
    · exact .inl (by simp [withoutMark, hfirst])
  · by_cases hboth : first = 0xEF ∧ second = 0xBB
    · exact .inr (by simp [hboth])
    · left
      unfold withoutMark
      grind
  · left
    unfold withoutMark
    grind

/-- What follows the mark is the end of the document. -/
theorem withoutMark_suffix (bytes : List UInt8) : withoutMark bytes <:+ bytes := by
  unfold withoutMark
  split
  next rest => exact ⟨[0xEF, 0xBB, 0xBF], rfl⟩
  next => exact List.suffix_refl _

/-- A document whose first top-level element is complete has the same one as a part of a longer
one, and it ends with `>`. -/
theorem afterFirst?_more {bytes after : List UInt8} (h : afterFirst? bytes = some after)
    (more : List UInt8) :
    afterFirst? (bytes ++ more) = some (after ++ more) ∧ Byte.greater :: after <:+ bytes := by
  rcases withoutMark_more bytes more with hmark | hpart
  · rw [afterFirst?, hmark]
    exact (afterTop?_more h _ more).imp_right (·.trans (withoutMark_suffix bytes))
  · have hnone : ∀ part ∈ [[], [0xEF], [0xEF, 0xBB]], afterFirst? part = none := by decide +kernel
    rw [hnone bytes hpart] at h
    cases h

/-- A document that is cut off before the byte that completes its first top-level element is not
accepted. -/
theorem parse_cut {bytes cut : List UInt8} (hcut : cut <+: bytes)
    (hbefore : ∀ after, afterFirst? bytes = some after →
      cut.length + after.length < bytes.length) :
    ∃ error, parse cut = .error error := by
  cases hparse : parse cut with
  | error error => exact ⟨error, rfl⟩
  | ok root =>
    obtain ⟨more, rfl⟩ := hcut
    obtain ⟨after, hafter⟩ := isSome_afterFirst? hparse
    have hlength := hbefore _ (afterFirst?_more hafter more).1
    simp only [List.length_append] at hlength
    omega

end Carta.Xml

namespace Carta.Storage

open Carta.Xml (afterFirst? parse parse_cut)

/-- A project that is cut off before the byte that completes its first top-level element is never
accepted: it cannot be parsed, so neither loading it from a file nor converting it succeeds, and the
conversion changes nothing. -/
theorem truncated_rejected {bytes cut : List UInt8} (hcut : cut <+: bytes)
    (hbefore : ∀ after, afterFirst? bytes = some after →
      cut.length + after.length < bytes.length) :
    ∃ error, parse cut = .error error ∧
      ∀ (storage : Storage) (project : Path), project.isArchive = false →
        storage.open? project = .ok (.file cut) →
        storage.load project = .error (.xml error) ∧
        ∀ options mapFile,
          storage.convert options project mapFile = (.error (.xml error), storage) := by
  obtain ⟨error, hparse⟩ := parse_cut hcut hbefore
  refine ⟨error, hparse, fun storage project hplain hopen => ?_⟩
  have hload : storage.load project = .error (.xml error) := by
    rw [load, if_neg (by simp [hplain]), hopen]
    change Project.Document.ofSource { bytes := cut } _ = _
    rw [Project.Document.ofSource, ← parse, hparse]
    rfl
  refine ⟨hload, fun options mapFile => ?_⟩
  rw [convert, mapfileOf, hload]
  rfl

/-- A file that ends within the closing tag of its root. -/
def cutStorage : Storage where
  root := .directory [("cut.qgs", .file (Text.Utf8.encode "<qgis><title/></qgis"))]

/-- A root without the last byte of its closing tag is rejected, and everything is as before. -/
theorem cutStorage_rejected :
    Text.Utf8.encode "<qgis><title/></qgis" <+: Text.Utf8.encode "<qgis><title/></qgis>\n" ∧
    afterFirst? (Text.Utf8.encode "<qgis><title/></qgis>\n") = some (Text.Utf8.encode "\n") ∧
    ∃ error, parse (Text.Utf8.encode "<qgis><title/></qgis") = .error error ∧
      cutStorage.load ⟨"cut.qgs"⟩ = .error (.xml error) ∧
      ∀ options mapFile,
        cutStorage.convert options ⟨"cut.qgs"⟩ mapFile = (.error (.xml error), cutStorage) := by
  have hcut : Text.Utf8.encode "<qgis><title/></qgis" <+:
      Text.Utf8.encode "<qgis><title/></qgis>\n" := by decide +kernel
  have hafter : afterFirst? (Text.Utf8.encode "<qgis><title/></qgis>\n") =
      some (Text.Utf8.encode "\n") := by decide +kernel
  have hopen : cutStorage.open? ⟨"cut.qgs"⟩ =
      .ok (.file (Text.Utf8.encode "<qgis><title/></qgis")) := by with_unfolding_all rfl
  obtain ⟨error, hparse, hfiles⟩ := truncated_rejected hcut fun after h => by
    obtain rfl := Option.some.inj (hafter.symm.trans h)
    decide +kernel
  exact ⟨hcut, hafter, error, hparse, hfiles _ _ (by decide +kernel) hopen⟩

end Carta.Storage
