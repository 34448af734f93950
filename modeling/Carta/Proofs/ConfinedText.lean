import Carta.Proofs.Lines
import Carta.Proofs.MapfileParts

/-!
# Texts that never leave their line

Much of what a mapfile is made of cannot hold a line feed. The words of a text hold no blank, so
the parameters of a coordinate system and of a PostGIS connection hold none either; numbers are
digits; and changing the case of a text brings no line feed into it.
-/

namespace Carta

namespace Text

/-- No blank is in a word of a text. -/
theorem isBlank_of_mem_words {s word : String} (h : word ∈ words s) {c : Char} (hc : c ∈ word.toList) :
    isBlank c = false := by
  obtain ⟨run, hrun, rfl⟩ := List.mem_map.mp h
  rw [String.toList_ofList] at hc
  exact eq_false_of_mem_splitWhere (List.mem_of_mem_filter hrun) c hc

/-- The words of a text are on one line. -/
theorem singleLine_of_mem_words {s word : String} (h : word ∈ words s) : SingleLine word :=
  singleLine_of_not_blank fun _ => isBlank_of_mem_words h

/-- A text made of some characters of a single line is on one line. -/
theorem SingleLine.of_subset {s : String} (hs : SingleLine s) {cs : List Char} (h : cs ⊆ s.toList) :
    SingleLine (String.ofList cs) := by
  rw [SingleLine, String.toList_ofList]
  exact fun hmem => hs (h hmem)

/-- The digits of a number are on one line. -/
theorem singleLine_toString (n : Nat) : SingleLine (toString n) := by
  rw [Nat.toString_eq_ofList_toDigits, SingleLine, String.toList_ofList]
  intro hmem
  have hdigit := Nat.isDigit_of_mem_toDigits (by decide) (by decide) hmem
  revert hdigit
  decide

/-- Only its own number makes a line feed. -/
theorem eq_of_ofNat_eq_lineFeed {n : Nat} (h : Char.ofNat n = '\n') : n = 10 := by
  by_cases hvalid : n.isValidChar
  · have hchar : Char.ofNat n = Char.ofNatAux n hvalid := dif_pos hvalid
    exact congrArg Char.toNat (hchar.symm.trans h)
  · have hchar : Char.ofNat n = Char.ofNat 0 := dif_neg hvalid
    exact absurd (hchar.symm.trans h) (by decide)

/-- Tables of forms in which no character has the form of a line feed. -/
structure NoLineFeed (long : List (Nat × List Nat)) (runs : List CaseRun) : Prop where
  long : ∀ entry ∈ long, 10 ∉ entry.2
  runs : ∀ run ∈ runs, (10 : Int) < run.first + run.shift

/-- Only a line feed has a form with a line feed in it. -/
theorem NoLineFeed.eq_of_mem_formOf {long : List (Nat × List Nat)} {runs : List CaseRun}
    (h : NoLineFeed long runs) {c : Char} (hmem : '\n' ∈ formOf long runs c) : c = '\n' := by
  unfold formOf at hmem
  split at hmem
  next number form hfind =>
    obtain ⟨n, hn, hnewline⟩ := List.mem_map.mp hmem
    rw [eq_of_ofNat_eq_lineFeed hnewline] at hn
    exact absurd hn (h.long _ (List.mem_of_find?_eq_some hfind))
  next =>
    split at hmem
    next n hfind =>
      obtain ⟨run, hrun, hother⟩ := List.exists_of_findSome?_eq_some hfind
      have hn := eq_of_ofNat_eq_lineFeed (List.mem_singleton.mp hmem).symm
      have hfirst := h.runs run hrun
      unfold CaseRun.other? at hother
      split at hother
      next hwithin =>
        have := Option.some.inj hother
        omega
      next => cases hother
    next => exact (List.mem_singleton.mp hmem).symm

/-- A text stays on one line in capital letters. -/
theorem SingleLine.toUppercase {s : String} (hs : SingleLine s) : SingleLine (toUppercase s) := by
  have hforms : NoLineFeed longCapitals capitalRuns := ⟨by decide +kernel, by decide +kernel⟩
  rw [SingleLine, Text.toUppercase, String.toList_ofList, List.mem_flatMap]
  rintro ⟨c, hc, hmem⟩
  rw [hforms.eq_of_mem_formOf hmem] at hc
  exact hs hc

/-- A text stays on one line in small letters. -/
theorem SingleLine.toLowercase {s : String} (hs : SingleLine s) : SingleLine (toLowercase s) := by
  have hforms : NoLineFeed longSmalls smallRuns := ⟨by decide +kernel, by decide +kernel⟩
  have hlower : ∀ cs before : List Char, '\n' ∈ lowerAfter before cs → '\n' ∈ cs := by
    intro cs
    induction cs with
    | nil => exact fun before hmem => hmem
    | cons c cs ih =>
      intro before hmem
      rw [lowerAfter, List.mem_append] at hmem
      rcases hmem with hmem | hmem
      · split at hmem
        next =>
          have hsigmas : '\n' ≠ finalSigma ∧ '\n' ≠ smallSigma := by decide
          split at hmem
          next => exact absurd (List.mem_singleton.mp hmem) hsigmas.1
          next => exact absurd (List.mem_singleton.mp hmem) hsigmas.2
        next =>
          rw [hforms.eq_of_mem_formOf hmem]
          exact List.mem_cons_self
      · exact List.mem_cons_of_mem _ (ih _ hmem)
  rw [SingleLine, Text.toLowercase, String.toList_ofList]
  exact fun hmem => hs (hlower _ _ hmem)

end Text

open Carta.Text (SingleLine)

/-- The parameters of a coordinate system have something in them, and no blank. -/
theorem Mapfile.Projection.plain_of_mem_parameters {proj4 parameter : String}
    (h : parameter ∈ parameters proj4) :
    parameter ≠ "" ∧ ∀ c ∈ parameter.toList, Text.isBlank c = false := by
  have hplus : ∀ cs, withoutPlus cs ⊆ cs := by
    intro cs
    unfold withoutPlus
    split
    · exact List.subset_cons_self _ _
    · exact List.Subset.refl _
  obtain ⟨hmem, hne⟩ := List.mem_filter.mp h
  obtain ⟨word, hword, rfl⟩ := List.mem_map.mp hmem
  refine ⟨by simpa using hne, fun c hc => ?_⟩
  rw [String.toList_ofList] at hc
  exact Text.isBlank_of_mem_words hword (hplus _ hc)

/-- They are on one line each. -/
theorem Mapfile.Projection.singleLine_of_mem_parameters {proj4 parameter : String}
    (h : parameter ∈ parameters proj4) : SingleLine parameter :=
  Text.singleLine_of_not_blank (plain_of_mem_parameters h).2

namespace Project

/-- The colour of a style is on one line. -/
theorem Colour.singleLine_text (colour : Colour) : SingleLine colour.text := by
  have hblank : SingleLine " " := by decide
  simp only [Colour.text, Text.singleLine_append, Text.singleLine_toString, hblank, and_self]

/-- Nothing but characters of a text remains when it is divided at an equals sign. -/
theorem subset_of_splitAtEquals? {cs key value : List Char}
    (h : splitAtEquals? cs = some (key, value)) : value ⊆ cs := by
  induction cs generalizing key with
  | nil => cases h
  | cons c cs ih =>
    rw [splitAtEquals?] at h
    split at h
    next =>
      obtain ⟨_, rfl⟩ := Prod.mk.inj (Option.some.inj h)
      exact List.subset_cons_self _ _
    next =>
      obtain ⟨⟨rest, value⟩, hsplit, hparts⟩ := Option.map_eq_some_iff.mp h
      obtain ⟨_, rfl⟩ := Prod.mk.inj hparts
      exact List.subset_cons_of_subset _ (ih hsplit)

/-- Nothing but characters of a text remains between its quotation marks. -/
theorem unquoteChars_subset (cs : List Char) : unquoteChars cs ⊆ cs := by
  unfold unquoteChars
  split
  next => exact List.Subset.refl _
  next c cs =>
    split
    next => exact List.subset_cons_of_subset _ (List.dropLast_subset _)
    next => exact List.Subset.refl _

/-- The text that a word of a data source sets something to. -/
def SourceWord.value? : SourceWord → Option String
  | .geometryColumn name => some name
  | .parameter _ value => some value
  | .other => none

/-- A word of a data source that is on one line sets nothing to more than a line. -/
theorem SourceWord.singleLine_of_read {word value : String} (hword : SingleLine word)
    (h : (read word).value? = some value) : SingleLine value := by
  unfold read at h
  split at h
  next column hlist =>
    obtain rfl := Option.some.inj h
    apply hword.of_subset
    rw [hlist]
    split
    · exact List.subset_cons_of_subset _ (List.dropLast_subset _)
    · exact List.subset_cons_self _ _
  next =>
    split at h
    next => cases h
    next key rest hsplit =>
      obtain rfl := Option.some.inj h
      apply hword.of_subset
      rw [String.toList_ofList]
      exact fun c hc => subset_of_splitAtEquals? hsplit (unquoteChars_subset rest hc)

namespace Postgis

/-- A connection all of whose parameters are on one line. -/
structure Confined (postgis : Postgis) : Prop where
  host : SingleLine postgis.host
  dbname : SingleLine postgis.dbname
  user : SingleLine postgis.user
  password : SingleLine postgis.password
  port : ∀ port ∈ postgis.port, SingleLine port
  table : SingleLine postgis.table
  geometryColumn : SingleLine postgis.geometryColumn

/-- A parameter that is set to a text on one line leaves all of them so. -/
theorem Confined.put {postgis : Postgis} (h : postgis.Confined) {word : SourceWord}
    (hword : ∀ value, word.value? = some value → SingleLine value) : (postgis.put word).Confined := by
  cases word with
  | geometryColumn name => exact { h with geometryColumn := hword name rfl }
  | parameter key value =>
    have hvalue := hword value rfl
    simp only [Postgis.put]
    split
    · exact { h with host := hvalue }
    · exact { h with dbname := hvalue }
    · exact { h with user := hvalue }
    · exact { h with password := hvalue }
    · exact { h with port := by simpa using hvalue }
    · exact { h with table := hvalue }
    · exact h
  | other => exact h

/-- The parameters in a data source are on one line each, whatever data source it is. -/
theorem confined_ofDataSource (dataSource : String) : (ofDataSource dataSource).Confined := by
  have hwords : ∀ word ∈ (Text.words dataSource).map SourceWord.read,
      ∀ value, word.value? = some value → SingleLine value := by
    rw [List.forall_mem_map]
    exact fun word hword value => SourceWord.singleLine_of_read (Text.singleLine_of_mem_words hword)
  have hfold : ∀ (words : List SourceWord) (postgis : Postgis), postgis.Confined →
      (∀ word ∈ words, ∀ value, word.value? = some value → SingleLine value) →
      (words.foldl Postgis.put postgis).Confined := by
    intro words
    induction words with
    | nil => exact fun postgis h _ => h
    | cons word rest ih =>
      intro postgis h hwords
      rw [List.forall_mem_cons] at hwords
      exact ih _ (h.put hwords.1) hwords.2
  refine hfold _ {} ?_ hwords
  constructor <;> decide

/-- The parameters as the map server takes them are on one line. -/
theorem Confined.connectionText {postgis : Postgis} (h : postgis.Confined) :
    SingleLine postgis.connectionText := by
  have hnames : SingleLine "host=" ∧ SingleLine " dbname=" ∧ SingleLine " password=" ∧
      SingleLine " user=" ∧ SingleLine " port=" ∧ SingleLine "" := by decide
  obtain ⟨hhost, hdbname, hpassword, huser, hport, hnone⟩ := hnames
  unfold Postgis.connectionText
  simp only [Text.singleLine_append, h.host, h.dbname, h.user, h.password, hhost, hdbname, hpassword,
    huser, true_and]
  cases hvalue : postgis.port with
  | none => exact hnone
  | some port => exact Text.singleLine_append.mpr ⟨hport, h.port port hvalue⟩

/-- The selection of the geometry column is on one line. -/
theorem Confined.dataStatement {postgis : Postgis} (h : postgis.Confined) :
    SingleLine postgis.dataStatement := by
  have hfrom : SingleLine " FROM " := by decide
  simp only [Postgis.dataStatement, Text.singleLine_append, h.geometryColumn, h.table, hfrom, and_self]

end Postgis

/-- The name of a layer is that of its element, and its connection is the one that its element
has by the provider. -/
theorem Layer.ofElement_name_connection {element : Xml.Element} {index : Nat} {layer : Layer}
    (h : Layer.ofElement element index = .ok layer) :
    element.findContent? "layername" = some layer.name ∧
      Layer.connectionOf element layer.kind layer.provider layer.dataSource = .ok layer.connection := by
  obtain ⟨name, hname, hnamed⟩ := bind_eq_ok_iff.mp h
  obtain ⟨kind, _, h⟩ := bind_eq_ok_iff.mp (inLayer_eq_ok_iff.mp hnamed)
  obtain ⟨dataSource, _, h⟩ := bind_eq_ok_iff.mp h
  obtain ⟨connection, hconnection, h⟩ := bind_eq_ok_iff.mp h
  obtain ⟨proj4, _, h⟩ := bind_eq_ok_iff.mp h
  obtain ⟨transparency, _, h⟩ := bind_eq_ok_iff.mp h
  obtain ⟨renderer, _, h⟩ := bind_eq_ok_iff.mp h
  obtain rfl := Except.ok.inj h
  exact ⟨require_eq_ok_iff.mp (inLayer_eq_ok_iff.mp hname), hconnection⟩

/-- The parameters of a layer that is reached by PostGIS are on one line each. -/
theorem Layer.confined_of_postgis {element : Xml.Element} {index : Nat} {layer : Layer}
    (h : Layer.ofElement element index = .ok layer) {postgis : Postgis}
    (hpostgis : layer.connection = .postgis postgis) : postgis.Confined := by
  have hconnection := (Layer.ofElement_name_connection h).2
  rw [hpostgis] at hconnection
  unfold Layer.connectionOf at hconnection
  split at hconnection
  next =>
    obtain rfl := Connection.postgis.inj (Except.ok.inj hconnection)
    exact Postgis.confined_ofDataSource layer.dataSource
  next =>
    obtain ⟨_, _, hwms⟩ := map_eq_ok_iff.mp hconnection
    cases hwms
  next => cases Except.ok.inj hconnection

/-- The parameters of layers that are read of elements are on one line each. -/
theorem Document.confined_of_readAs {elements : List Xml.Element} {layers : List Layer}
    (h : ReadAs elements layers) :
    ∀ layer ∈ layers, ∀ postgis, layer.connection = .postgis postgis → postgis.Confined := by
  induction h with
  | nil => simp
  | cons hlayer _ ih =>
    rw [List.forall_mem_cons]
    exact ⟨fun _ => Layer.confined_of_postgis (hlayer 0), ih⟩

/-- The names of layers are those of the elements that they are read of. -/
theorem Document.map_layername {A : Type} {elements : List Xml.Element} {layers : List Layer}
    (h : ReadAs elements layers) (f : Option String → A) :
    elements.map (fun element => f (element.findContent? "layername")) =
      layers.map fun layer => f (some layer.name) := by
  induction h with
  | nil => rfl
  | cons hlayer _ ih =>
    rw [List.map_cons, List.map_cons, ih, (Layer.ofElement_name_connection (hlayer 0)).1]

end Project

end Carta
