import Carta.Convert
import Carta.Proofs.MapfileParts
import Carta.Proofs.WrittenArchives

/-!
# Projects in archives

A project in an archive is loaded like a file of its own. It is the first of the entries that is a
project, and whatever else the archive holds before and after it makes no difference. A mapfile tells
only by the comment at its beginning which of the two it is made from.
-/

namespace Carta.Mapfile

/-- A comment outside all blocks is one line. -/
theorem Entry.text_comment (comment : String) :
    text 0 [.comment comment] = "# " ++ comment ++ "\n" := by
  simp [text, linesOfAll, lines, indented, textOfLines]

/-- The line that tells which project a mapfile is made from. -/
def sourceLine (source : String) : String :=
  "# Map file created from QGIS project file " ++ source ++ "\n"

/-- The comment on the source is that line. -/
theorem text_sourceComment (source : String) :
    Entry.text 0 [.comment ("Map file created from QGIS project file " ++ source)] =
      sourceLine source := by
  have hstart : "# " ++ "Map file created from QGIS project file " =
      "# Map file created from QGIS project file " := by decide +kernel
  calc Entry.text 0 [.comment ("Map file created from QGIS project file " ++ source)]
    _ = "# " ++ ("Map file created from QGIS project file " ++ source) ++ "\n" :=
      Entry.text_comment _
    _ = sourceLine source := by
      rw [← String.append_assoc, hstart]
      rfl

/-- Where a project comes from stands in the header of its mapfile, and nowhere else. -/
theorem ofDocument_eq_of_source (options : Options) (root : Xml.Element)
    (source other : Option String) :
    ofDocument options { root, source } =
      (ofDocument options { root, source := other }).map fun mapfile =>
        { mapfile with header := headerComments source } := by
  change _ = (fun mapfile : Mapfile => { mapfile with header := headerComments source }) <$> _
  simp only [ofDocument, map_bind, map_pure]
  rfl

/-- A mapfile tells where its project comes from by its first line, and by nothing else. -/
theorem exists_render_eq (options : Options) (root : Xml.Element) :
    ∃ others : Except Error String, ∀ source,
      render options { root, source := some source } = others.map (sourceLine source ++ ·) := by
  refine ⟨(ofDocument options { root, source := none }).map fun mapfile =>
    Entry.text 0 [.comment "Edit this file to customize for your map interface"] ++
      Entry.textOfLines ["MAP"] ++ Entry.text 1 mapfile.body ++ "END", fun source => ?_⟩
  have hheader : Entry.text 0 (headerComments (some source)) = sourceLine source ++
      Entry.text 0 [.comment "Edit this file to customize for your map interface"] := by
    rw [← text_sourceComment, ← Entry.text_append]
    rfl
  rw [render, ofDocument_eq_of_source options root (some source) none, map_map_outcome,
    map_map_outcome]
  congr 1
  funext mapfile
  simp only [Function.comp_apply, text, hheader, String.append_assoc]

/-- The same holds when the project is read first, whatever comes of that. -/
theorem exists_render_ofSource_eq (options : Options) (input : Xml.Source) :
    ∃ others : Except Error String, ∀ source,
      (Project.Document.ofSource input (some source) >>= render options) =
        others.map (sourceLine source ++ ·) := by
  cases hread : input.read with
  | error fault =>
    refine ⟨.error (.xml fault), fun source => ?_⟩
    rw [Project.Document.ofSource, hread]
    rfl
  | ok root =>
    obtain ⟨others, hothers⟩ := exists_render_eq options root
    refine ⟨others, fun source => ?_⟩
    rw [← hothers, Project.Document.ofSource, hread]
    rfl

end Carta.Mapfile

namespace Carta.Storage

open Carta.Archive (archiveOf entriesFrom headers? lastOfEachName)
open Carta.Project (Document)

/-- Loading an archive is looking for the first project among its entries. -/
theorem loadArchive_eq {bytes : List UInt8} {headers : List Archive.Entry}
    (hheaders : headers? bytes = some headers) {storage : Storage} {path : Path}
    (hopen : storage.open? path = .ok (.file bytes)) :
    storage.loadArchive path =
      (match Archive.firstProject bytes (lastOfEachName headers) with
        | .error fault => .error (.archive fault)
        | .ok none => .error (.noProjectInArchive path.shown)
        | .ok (some source) => .ok source) >>= (Document.ofSource · (some path.shown)) := by
  rw [loadArchive, hopen, ← Archive.projectSource_eq hheaders]
  rfl

/-- The first project among entries that can be read is what is loaded. -/
theorem loadArchive_eq_ofSource {bytes : List UInt8} {headers : List Archive.Entry}
    (hheaders : headers? bytes = some headers)
    (hreadable : ∀ entry ∈ lastOfEachName headers, ∃ content, entry.HasContent bytes content)
    {storage : Storage} {path : Path} (hopen : storage.open? path = .ok (.file bytes))
    {before after : List Archive.Entry} {entry : Archive.Entry} {content : List UInt8}
    (hsplit : lastOfEachName headers = before ++ entry :: after)
    (hbefore : ∀ other ∈ before, other.isProject = false) (hproject : entry.isProject = true)
    (hcontent : entry.HasContent bytes content) :
    storage.loadArchive path = Document.ofSource { bytes := content } (some path.shown) := by
  rw [hsplit] at hreadable
  rw [loadArchive_eq hheaders hopen, hsplit, Archive.firstProject_append (fun other hother =>
    hreadable other (List.mem_append_left _ hother)) hbefore,
    Archive.firstProject_cons hproject hcontent]
  rfl

/-- **A project in an archive is loaded like the file it was made from.** Where none of the entries
of a readable archive is a project, loading it says so. Otherwise loading it is loading the content
of the first project, whatever the entries before and after it are; and its mapfile, and that of any
file with this content, are the same but for the line that names the source. -/
theorem loadArchive_eq_first_project {bytes : List UInt8} {headers : List Archive.Entry}
    (hheaders : headers? bytes = some headers)
    (hreadable : ∀ entry ∈ lastOfEachName headers, ∃ content, entry.HasContent bytes content)
    {storage : Storage} {path : Path} (hopen : storage.open? path = .ok (.file bytes)) :
    ((∀ entry ∈ lastOfEachName headers, entry.isProject = false) →
      storage.loadArchive path = .error (.noProjectInArchive path.shown)) ∧
    ∀ before entry after content, lastOfEachName headers = before ++ entry :: after →
      (∀ other ∈ before, other.isProject = false) → entry.isProject = true →
      entry.HasContent bytes content →
      storage.loadArchive path = Document.ofSource { bytes := content } (some path.shown) ∧
      (path.isArchive = true → ∀ options, ∃ others : Except Error String,
        storage.mapfileOf options path = others.map (Mapfile.sourceLine path.shown ++ ·) ∧
        ∀ (other : Storage) (plain : Path), plain.isArchive = false →
          other.open? plain = .ok (.file content) →
          other.mapfileOf options plain = others.map (Mapfile.sourceLine plain.shown ++ ·)) := by
  refine ⟨fun hnone => ?_, fun before entry after content hsplit hbefore hproject hcontent => ?_⟩
  · have hpassed := Archive.firstProject_append hreadable hnone []
    rw [List.append_nil] at hpassed
    rw [loadArchive_eq hheaders hopen, hpassed]
    rfl
  · have hload := loadArchive_eq_ofSource hheaders hreadable hopen hsplit hbefore hproject hcontent
    refine ⟨hload, fun harchive options => ?_⟩
    obtain ⟨others, hothers⟩ := Mapfile.exists_render_ofSource_eq options { bytes := content }
    refine ⟨others, ?_, fun other plain hplain hfile => ?_⟩
    · rw [← hothers, mapfileOf, load, if_pos harchive, hload]
    · rw [← hothers, mapfileOf, load, if_neg (by simp [hplain]), hfile]
      rfl

/-- Whatever items of different names are put into an archive, the first project among them is what is
loaded. -/
theorem loadArchive_archiveOf {before after : List Archive.Item} {item : Archive.Item}
    (hhold : Archive.canHold (before ++ item :: after) = true)
    (hsound : ∀ other ∈ before ++ item :: after, other.isSound = true)
    (hnames : ((before ++ item :: after).map (·.name)).Nodup)
    (hbefore : ∀ other ∈ before, (other.entry 0).isProject = false)
    (hproject : (item.entry 0).isProject = true) {storage : Storage} {path : Path}
    (hopen : storage.open? path = .ok (.file (archiveOf (before ++ item :: after)))) :
    storage.loadArchive path = Document.ofSource { bytes := item.content } (some path.shown) := by
  have hfits := Archive.fits_of_canHold hhold
  have hlast : lastOfEachName (entriesFrom 0 (before ++ item :: after)) =
      entriesFrom 0 before ++ item.entry (before.flatMap Archive.Item.written).length ::
        entriesFrom ((before.flatMap Archive.Item.written).length + item.written.length) after := by
    rw [Archive.lastOfEachName_eq_self (by rwa [Archive.map_name_entriesFrom]),
      Archive.entriesFrom_append, Nat.zero_add]
    rfl
  have hitem : item ∈ before ++ item :: after := by simp
  refine loadArchive_eq_ofSource (Archive.headers?_archiveOf hhold) (fun entry hentry =>
    Archive.exists_hasContent_archiveOf hfits hsound (Archive.mem_of_mem_lastOfEachName hentry))
    hopen hlast (fun other hother => ?_) hproject
    (Archive.hasContent_archiveOf (hfits item hitem) (hsound item hitem) before after)
  obtain ⟨front, found, back, rfl, rfl⟩ := Archive.exists_of_mem_entriesFrom hother
  exact hbefore found (by simp)

/-- An attachment. -/
def notesItem : Archive.Item where
  name := "notes.txt"
  method := 0
  data := [0x6F, 0x6B]
  content := [0x6F, 0x6B]

/-- A project in compressed form. -/
def surveyItem : Archive.Item where
  name := "Survey.QGS"
  method := 8
  data := [0xB3, 0x49, 0xD4, 0xB7, 0x03, 0x00]
  content := Text.Utf8.encode "<a/>"

/-- A project that is stored as it is. -/
def olderItem (name : String) : Archive.Item where
  name
  method := 0
  data := Text.Utf8.encode "<b/>"
  content := Text.Utf8.encode "<b/>"

/-- An attachment, a project in compressed form, and an older project of some name. -/
def surveyItems (name : String) : List Archive.Item :=
  [notesItem, surveyItem, olderItem name]

/-- A directory with the items in an archive, and with the compressed project as a file of its own. -/
def archiveStorage (name : String) : Storage where
  root := .directory [("plain.qgs", .file (Text.Utf8.encode "<a/>")),
    ("survey.qgz", .file (archiveOf (surveyItems name)))]

section Survey

variable (name : String)

/-- The archive is the file under its name. -/
theorem open?_archiveStorage :
    (archiveStorage name).open? ⟨"survey.qgz"⟩ = .ok (.file (archiveOf (surveyItems name))) := by
  with_unfolding_all rfl

/-- The items are found one after the other. -/
theorem entriesFrom_surveyItems : entriesFrom 0 (surveyItems name) =
    [notesItem.entry 0] ++ surveyItem.entry ([notesItem].flatMap Archive.Item.written).length ::
      [(olderItem name).entry ([notesItem, surveyItem].flatMap Archive.Item.written).length] := by
  have hsplit := Archive.entriesFrom_append 0 [notesItem, surveyItem] [olderItem name]
  rw [Nat.zero_add] at hsplit
  exact hsplit

variable {name} (hhold : Archive.canHold (surveyItems name) = true)
include hhold

/-- All items can be read. -/
theorem hasContent_surveyItems :
    (surveyItem.entry ([notesItem].flatMap Archive.Item.written).length).HasContent
        (archiveOf (surveyItems name)) (Text.Utf8.encode "<a/>") ∧
      ((olderItem name).entry ([notesItem, surveyItem].flatMap Archive.Item.written).length).HasContent
        (archiveOf (surveyItems name)) (Text.Utf8.encode "<b/>") ∧
      ∀ entry ∈ entriesFrom 0 (surveyItems name),
        ∃ content, entry.HasContent (archiveOf (surveyItems name)) content := by
  have hfits := Archive.fits_of_canHold hhold
  have hsound : ∀ item ∈ surveyItems name, item.isSound = true := by
    have holder : (olderItem name).isSound = (olderItem "").isSound := rfl
    simp only [surveyItems, List.forall_mem_cons, holder]
    decide +kernel
  refine ⟨?_, ?_, fun entry h => Archive.exists_hasContent_archiveOf hfits hsound h⟩
  · exact Archive.hasContent_archiveOf (hfits surveyItem (by simp [surveyItems]))
      (hsound surveyItem (by simp [surveyItems])) [notesItem] [olderItem name]
  · exact Archive.hasContent_archiveOf (hfits (olderItem name) (by simp [surveyItems]))
      (hsound (olderItem name) (by simp [surveyItems])) [notesItem, surveyItem] []

end Survey

/-- The compressed project is loaded, and neither the attachment before it nor the project after it
makes a difference. -/
theorem loadArchive_archiveStorage :
    (archiveStorage "old/survey.qgs").loadArchive ⟨"survey.qgz"⟩ =
        Document.ofSource { bytes := Text.Utf8.encode "<a/>" } (some "survey.qgz") ∧
      ∀ options, ∃ others : Except Error String,
        (archiveStorage "old/survey.qgs").mapfileOf options ⟨"survey.qgz"⟩ =
            others.map (Mapfile.sourceLine "survey.qgz" ++ ·) ∧
          (archiveStorage "old/survey.qgs").mapfileOf options ⟨"plain.qgs"⟩ =
            others.map (Mapfile.sourceLine "plain.qgs" ++ ·) := by
  have hhold : Archive.canHold (surveyItems "old/survey.qgs") = true := by decide +kernel
  have hnames : ((entriesFrom 0 (surveyItems "old/survey.qgs")).map (·.name)).Nodup := by
    rw [Archive.map_name_entriesFrom]
    decide
  have hlast := Archive.lastOfEachName_eq_self hnames
  obtain ⟨hcontent, -, hreadable⟩ := hasContent_surveyItems hhold
  rw [← hlast] at hreadable
  have hplain : (archiveStorage "old/survey.qgs").open? ⟨"plain.qgs"⟩ =
      .ok (.file (Text.Utf8.encode "<a/>")) := by with_unfolding_all rfl
  obtain ⟨hload, hmapfiles⟩ := (loadArchive_eq_first_project (Archive.headers?_archiveOf hhold)
    hreadable (open?_archiveStorage _)).2 _ _ _ _ (hlast.trans (entriesFrom_surveyItems _))
    (by decide +kernel) (by decide +kernel) hcontent
  refine ⟨hload, fun options => ?_⟩
  obtain ⟨others, harchive, hfiles⟩ := hmapfiles (by decide +kernel) options
  exact ⟨others, harchive, hfiles _ _ (by decide +kernel) hplain⟩

/-- When the older project has the same name, it is loaded, although the other one is the first. -/
theorem loadArchive_last_of_name :
    (archiveStorage "Survey.QGS").loadArchive ⟨"survey.qgz"⟩ =
        .ok { root := { name := "b" }, source := some "survey.qgz" } ∧
      ¬ ∀ (bytes content : List UInt8) (before after : List Archive.Entry) (entry : Archive.Entry),
        headers? bytes = some (before ++ entry :: after) →
        (∀ other ∈ before ++ entry :: after, ∃ content, other.HasContent bytes content) →
        (∀ other ∈ before, other.isProject = false) → entry.isProject = true →
        entry.HasContent bytes content →
        ∀ (storage : Storage) (path : Path), storage.open? path = .ok (.file bytes) →
          storage.loadArchive path = Document.ofSource { bytes := content } (some path.shown) := by
  have hhold : Archive.canHold (surveyItems "Survey.QGS") = true := by decide +kernel
  have hheaders := Archive.headers?_archiveOf hhold
  obtain ⟨hcontent, holder, hreadable⟩ := hasContent_surveyItems hhold
  have hlast : lastOfEachName (entriesFrom 0 (surveyItems "Survey.QGS")) = [notesItem.entry 0] ++
      (olderItem "Survey.QGS").entry
        ([notesItem, surveyItem].flatMap Archive.Item.written).length :: [] := by
    rw [entriesFrom_surveyItems]
    decide +kernel
  have hload : (archiveStorage "Survey.QGS").loadArchive ⟨"survey.qgz"⟩ =
      .ok { root := { name := "b" }, source := some "survey.qgz" } := by
    rw [loadArchive_eq_ofSource hheaders
      (fun entry hentry => hreadable entry (Archive.mem_of_mem_lastOfEachName hentry))
      (open?_archiveStorage _) hlast (by decide +kernel) (by decide +kernel) holder]
    with_unfolding_all rfl
  refine ⟨hload, fun h => ?_⟩
  have hroot : Document.ofSource { bytes := Text.Utf8.encode "<a/>" } (some "survey.qgz") =
      .ok { root := { name := "a" }, source := some "survey.qgz" } := by with_unfolding_all rfl
  have hfirst := h _ _ _ _ _ (hheaders.trans (congrArg some (entriesFrom_surveyItems _)))
    (entriesFrom_surveyItems _ ▸ hreadable) (by decide +kernel) (by decide +kernel) hcontent _ _
    (open?_archiveStorage _)
  have hnames := congrArg (fun document : Document => document.root.name)
    (Except.ok.inj (hload.symm.trans (hfirst.trans hroot)))
  exact absurd hnames (by decide)

end Carta.Storage
