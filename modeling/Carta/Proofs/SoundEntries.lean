import Carta.Proofs.MapfileParts
import Carta.Proofs.Nesting

/-!
# Entries are nested as they are written

Entries are blocks of blocks, and their lines are nested in the same way as long as no directive
spoils it: its text is one line, begins with a character that is no blank, and is not a keyword of a
block by itself. Such entries are sound. A directive with a keyword of its own is sound whatever
values follow, if these are on one line.
-/

namespace Carta.Mapfile

open Carta.Text (SingleLine isBlank linesOf trim trimEnd)

/-- The words that tell where a block begins or ends. -/
def reservedWords : List String :=
  "END" :: blockKeywords

/-- Whether characters are one word: there are some, and no blank is among them. -/
def isWord (cs : List Char) : Bool :=
  !cs.isEmpty && cs.all (!isBlank ·)

/-- Whether characters are a text of one line that is not blank. -/
def isVisibleLine (cs : List Char) : Bool :=
  !cs.contains '\n' && cs.any (!isBlank ·)

/-- Whether characters are a word that a directive can begin with whatever follows, for it is not
reserved. -/
def isKeyword (cs : List Char) : Bool :=
  isWord cs && !reservedWords.contains (String.ofList cs)

/-- The text of a directive. -/
def directiveText (words : List Word) : String :=
  " ".intercalate (words.map Word.written)

/-- A text that is a line of its own and neither opens nor closes a block. -/
structure Plain (text : String) : Prop where
  singleLine : SingleLine text
  start : ∃ c cs, text.toList = c :: cs ∧ isBlank c = false
  notReserved : trim text ∉ reservedWords

/-- An entry that keeps to its lines: the texts in it are plain, and its blocks are known ones. -/
inductive Entry.Sound : Entry → Prop
  | blank : Sound .blank
  | comment {text : String} (h : SingleLine text) : Sound (.comment text)
  | directive {words : List Word} (h : Plain (directiveText words)) : Sound (.directive words)
  | block {keyword : String} {body : List Entry} (hkeyword : keyword ∈ blockKeywords)
      (hbody : ∀ entry ∈ body, Sound entry) : Sound (.block keyword body)

/-- Entries that are sound one by one. -/
def AllSound (entries : List Entry) : Prop :=
  ∀ entry ∈ entries, entry.Sound

/-- An empty list of entries is sound. -/
@[simp] theorem allSound_nil : AllSound [] :=
  fun _ h => nomatch h

/-- Entries are sound when the first one and the rest are. -/
@[simp] theorem allSound_cons {entry : Entry} {entries : List Entry} :
    AllSound (entry :: entries) ↔ entry.Sound ∧ AllSound entries :=
  List.forall_mem_cons

/-- Entries that stand together are sound when each part is. -/
@[simp] theorem allSound_append {first second : List Entry} :
    AllSound (first ++ second) ↔ AllSound first ∧ AllSound second :=
  List.forall_mem_append

/-- A text is plain when it begins with a character that no reserved word begins with. -/
theorem Plain.of_start {text : String} {c : Char} {cs : List Char} (htext : text.toList = c :: cs)
    (hblank : isBlank c = false) (hstart : ∀ word ∈ reservedWords, word.toList.head? ≠ some c)
    (hline : SingleLine text) : Plain text where
  singleLine := hline
  start := ⟨c, cs, htext, hblank⟩
  notReserved := by
    intro hmem
    apply hstart _ hmem
    rw [Text.toList_trim_cons htext hblank, List.head?_cons]

/-- A word and what follows it after a blank are plain, unless they are a reserved word and blanks. -/
theorem Plain.of_word {cs : List Char} {value : String} (hword : isWord cs = true)
    (hreserved : String.ofList cs ∉ reservedWords ∨ ∃ c ∈ value.toList, isBlank c = false)
    (hvalue : SingleLine value) : Plain (String.ofList cs ++ " " ++ value) := by
  have hparts : cs ≠ [] ∧ ∀ c ∈ cs, isBlank c = false := by simpa [isWord] using hword
  generalize hcs : String.ofList cs = word at hreserved ⊢
  obtain rfl : word.toList = cs := by rw [← hcs, String.toList_ofList]
  obtain ⟨hne, hword⟩ := hparts
  constructor
  · rw [Text.singleLine_append, Text.singleLine_append]
    exact ⟨⟨Text.singleLine_of_not_blank hword, Text.singleLine_ofList rfl⟩, hvalue⟩
  · cases hlist : word.toList with
    | nil => exact absurd hlist hne
    | cons c cs =>
      rw [hlist, List.forall_mem_cons] at hword
      exact ⟨c, cs ++ ' ' :: value.toList, by simp [hlist], hword.1⟩
  · have hspace : ∀ reserved ∈ reservedWords, ' ' ∉ reserved.toList := by decide
    have hnonempty : word ≠ "" := String.toList_eq_nil_iff.not.mp hne
    rcases Text.trim_word_append hnonempty hword value with ⟨htrim, hblank⟩ | htrim
    · rcases hreserved with hreserved | ⟨c, hc, hcblank⟩
      · rwa [htrim]
      · rw [hblank c hc] at hcblank
        cases hcblank
    · exact fun hmem => hspace _ hmem htrim

/-- A bare word is on one line when its text is. -/
@[simp] theorem singleLine_bare {text : String} :
    SingleLine (Word.bare text).written ↔ SingleLine text :=
  Iff.rfl

/-- A quoted word is on one line when its text is. -/
@[simp] theorem singleLine_quoted {text : String} :
    SingleLine (Word.quoted text).written ↔ SingleLine text := by
  have hmark : SingleLine "'" := Text.singleLine_ofList rfl
  simp only [Word.written, Text.singleLine_append, hmark, true_and, and_true]

/-- A quoted word with blanks after it is on one line when its text is. -/
@[simp] theorem singleLine_column {width : Nat} {text : String} :
    SingleLine (Word.column width text).written ↔ SingleLine text := by
  have hmark : SingleLine "'" := Text.singleLine_ofList rfl
  have hfill : SingleLine (String.ofList (List.replicate (width - (text.length + 2)) ' ')) := by
    simp [SingleLine]
  simp only [Word.written, Text.singleLine_append, hmark, hfill, true_and, and_true]

namespace Entry.Sound

/-- A comment that is always the same is sound. -/
theorem fixedComment {cs : List Char} (h : cs.contains '\n' = false) :
    Sound (.comment (String.ofList cs)) :=
  comment (Text.singleLine_ofList h)

/-- A directive is sound after a word when something that is not blank follows, or else the word is
not reserved. -/
theorem ofWord {cs : List Char} {word : Word} {words : List Word} (hkeyword : isWord cs = true)
    (hreserved : String.ofList cs ∉ reservedWords ∨
      ∃ c ∈ (directiveText (word :: words)).toList, isBlank c = false)
    (hwords : ∀ other ∈ word :: words, SingleLine other.written) :
    Sound (.directive (.bare (String.ofList cs) :: word :: words)) := by
  apply directive
  rw [directiveText, List.map_cons, List.map_cons, String.intercalate_cons_cons]
  apply Plain.of_word hkeyword hreserved
  apply Text.singleLine_intercalate (Text.singleLine_ofList rfl)
  rw [List.forall_mem_map]
  exact hwords

/-- A directive is sound after a keyword of its own. -/
theorem led {keyword : List Char} {word : Word} {words : List Word}
    (hkeyword : isKeyword keyword = true)
    (hwords : ∀ other ∈ word :: words, SingleLine other.written) :
    Sound (.directive (.bare (String.ofList keyword) :: word :: words)) := by
  have hparts : isWord keyword = true ∧ String.ofList keyword ∉ reservedWords := by
    simpa [isKeyword] using hkeyword
  exact ofWord hparts.1 (Or.inl hparts.2) hwords

/-- A directive is sound when its first word is quoted. -/
theorem quoted {word : Word} {words : List Word} (hword : ∀ text, word ≠ .bare text)
    (hwords : ∀ other ∈ word :: words, SingleLine other.written) :
    Sound (.directive (word :: words)) := by
  have hwritten : ∃ rest, word.written = "'" ++ rest := by
    cases word with
    | bare text => exact absurd rfl (hword text)
    | quoted text => exact ⟨text ++ "'", by rw [Word.written, String.append_assoc]⟩
    | column width text => exact ⟨_, by rw [Word.written, String.append_assoc, String.append_assoc]⟩
  have htext : ∃ rest, directiveText (word :: words) = "'" ++ rest := by
    obtain ⟨rest, hrest⟩ := hwritten
    cases words with
    | nil => exact ⟨rest, by simp [directiveText, hrest]⟩
    | cons next words =>
      refine ⟨rest ++ (" " ++ " ".intercalate ((next :: words).map Word.written)), ?_⟩
      rw [directiveText, List.map_cons, List.map_cons, String.intercalate_cons_cons, hrest]
      simp only [String.append_assoc]
  apply directive
  obtain ⟨rest, hrest⟩ := htext
  have hlist : (directiveText (word :: words)).toList = Char.ofNat 39 :: rest.toList := by
    rw [hrest, String.toList_append]
    rfl
  apply Plain.of_start hlist
  · decide
  · decide
  · apply Text.singleLine_intercalate (Text.singleLine_ofList rfl)
    rw [List.forall_mem_map]
    exact hwords

/-- A directive with one value is sound after a keyword of its own. -/
theorem setting {keyword : List Char} {value : String} (hkeyword : isKeyword keyword = true)
    (hvalue : SingleLine value) : Sound (.setting (String.ofList keyword) value) :=
  led hkeyword (by simpa using hvalue)

/-- A directive with one quoted value is sound after any word, for the quotes are not blank. -/
theorem quotedSetting {keyword : List Char} {value : String} (hkeyword : isWord keyword = true)
    (hvalue : SingleLine value) : Sound (.quotedSetting (String.ofList keyword) value) := by
  apply ofWord hkeyword (Or.inr ?_) (by simpa using hvalue)
  exact ⟨Char.ofNat 39, by simp [directiveText, Word.written], rfl⟩

/-- A directive that is always the same is sound after any word. -/
theorem fixedSetting {keyword value : List Char} (hkeyword : isWord keyword = true)
    (hvalue : isVisibleLine value = true) :
    Sound (.setting (String.ofList keyword) (String.ofList value)) := by
  have hparts : '\n' ∉ value ∧ ∃ c ∈ value, isBlank c = false := by
    simpa [isVisibleLine] using hvalue
  obtain ⟨hline, hvisible⟩ := hparts
  apply ofWord hkeyword (Or.inr ?_)
  · simpa using Text.singleLine_ofList (by simpa using hline)
  · simpa [directiveText, Word.written] using hvisible

/-- A directive of two quoted texts is sound. -/
theorem pair {key : List Char} {value : String} (hkey : key.contains '\n' = false)
    (hvalue : SingleLine value) : Sound (.pair (String.ofList key) value) :=
  quoted (by simp) (by simpa using ⟨Text.singleLine_ofList hkey, hvalue⟩)

/-- A block is sound when what is in it is. -/
theorem ofBody {keyword : List Char} {body : List Entry}
    (hkeyword : blockKeywords.contains (String.ofList keyword) = true) (hbody : AllSound body) :
    Sound (.block (String.ofList keyword) body) :=
  block (List.contains_iff_mem.mp hkeyword) hbody

end Entry.Sound

/-- The directive for a value that may be absent is sound when it is sound for each value. -/
theorem allSound_optional {entry : String → Entry} {value : Option String}
    (h : ∀ text ∈ value, (entry text).Sound) : AllSound (Entry.optional entry value) := by
  cases value with
  | none => exact allSound_nil
  | some text => simpa [Entry.optional] using h

/-- A setting that may be absent is sound when its value is on one line. -/
theorem allSound_optionalSetting {keyword : List Char} {value : Option String}
    (hkeyword : isKeyword keyword = true) (hvalue : ∀ text ∈ value, SingleLine text) :
    AllSound (Entry.optional (.setting (String.ofList keyword)) value) :=
  allSound_optional fun text htext => .setting hkeyword (hvalue text htext)

/-- A quoted setting that may be absent is sound when its value is on one line. -/
theorem allSound_optionalQuotedSetting {keyword : List Char} {value : Option String}
    (hkeyword : isWord keyword = true) (hvalue : ∀ text ∈ value, SingleLine text) :
    AllSound (Entry.optional (.quotedSetting (String.ofList keyword)) value) :=
  allSound_optional fun text htext => .quotedSetting hkeyword (hvalue text htext)

/-- Indentation does not count when a line is told. -/
theorem trim_indented (depth : Nat) (text : String) : trim (Entry.indented depth text) = trim text :=
  Text.trim_append_of_blank (by simp [isBlank]) text

/-- A text that begins with no blank is indented by two blanks for each block around it. -/
theorem indentation_indented {text : String} (h : ∃ c cs, text.toList = c :: cs ∧ isBlank c = false)
    (depth : Nat) : indentation (Entry.indented depth text) = 2 * depth := by
  obtain ⟨c, cs, htext, hc⟩ := h
  have hne : c ≠ ' ' := by
    rintro rfl
    cases hc
  simp [indentation, Entry.indented, htext, hne]

/-- The line of a plain text neither opens nor closes a block. -/
theorem Plain.opens_closes {text : String} (h : Plain text) (depth : Nat) :
    opens (Entry.indented depth text) = false ∧ closes (Entry.indented depth text) = false := by
  have hreserved := h.notReserved
  rw [reservedWords, List.mem_cons, not_or, ← trim_indented depth] at hreserved
  exact ⟨by simpa [opens] using hreserved.2, by simpa [closes] using hreserved.1⟩

/-- The line of a plain text is nested. -/
theorem Plain.nested {text : String} (h : Plain text) (depth : Nat) :
    Nested depth [Entry.indented depth text] :=
  Nested.line (h.opens_closes depth).1 (h.opens_closes depth).2
    fun _ => indentation_indented h.start depth

/-- A line for a reserved word is the word when it is trimmed, and is indented by its depth. -/
theorem reservedLine {word : String} (hword : word ∈ reservedWords) (depth : Nat) :
    trim (Entry.indented depth word) = word ∧ indentation (Entry.indented depth word) = 2 * depth := by
  have hwords : ∀ word ∈ reservedWords, trim word = word ∧
      word.toList.head?.any (!isBlank ·) = true := by decide
  obtain ⟨htrim, hhead⟩ := hwords word hword
  rw [trim_indented, htrim]
  refine ⟨rfl, indentation_indented ?_ depth⟩
  cases hlist : word.toList with
  | nil => simp [hlist] at hhead
  | cons c cs => exact ⟨c, cs, rfl, by simpa [hlist] using hhead⟩

/-- The line of a block's keyword opens a block. -/
theorem opens_indented {keyword : String} (h : keyword ∈ blockKeywords) (depth : Nat) :
    opens (Entry.indented depth keyword) = true := by
  rw [opens, (reservedLine (List.mem_cons_of_mem _ h) depth).1]
  simpa using h

/-- The last line of a block closes it. -/
theorem closes_indented (depth : Nat) : closes (Entry.indented depth "END") = true := by
  rw [closes, (reservedLine List.mem_cons_self depth).1]
  rfl

/-- The line of a comment is plain. -/
theorem plain_comment {text : String} (h : SingleLine text) : Plain ("# " ++ text) :=
  Plain.of_start (String.toList_append ..) (by decide) (by decide)
    (Text.singleLine_append.mpr ⟨Text.singleLine_ofList rfl, h⟩)

/-- Lines of entries are nested when those of each entry are. -/
theorem nested_linesOfAll {depth : Nat} {entries : List Entry}
    (h : ∀ entry ∈ entries, Nested depth (entry.lines depth)) :
    Nested depth (Entry.linesOfAll depth entries) := by
  induction entries with
  | nil =>
    rw [Entry.linesOfAll]
    exact Nested.nil depth
  | cons entry rest ih =>
    rw [List.forall_mem_cons] at h
    rw [Entry.linesOfAll]
    exact h.1.append (ih h.2)

/-- The lines of a sound entry are nested. -/
theorem Entry.Sound.nested {entry : Entry} (h : entry.Sound) (depth : Nat) :
    Nested depth (entry.lines depth) := by
  induction h generalizing depth with
  | blank =>
    rw [Entry.lines]
    exact Nested.line (by decide) (by decide) (fun hne => absurd (by decide) hne)
  | comment h =>
    rw [Entry.lines]
    exact (plain_comment h).nested depth
  | directive h =>
    rw [Entry.lines]
    exact h.nested depth
  | block hkeyword hbody ih =>
    rw [Entry.lines]
    have hopening := (reservedLine (List.mem_cons_of_mem _ hkeyword) depth).2
    have hclosing := (reservedLine List.mem_cons_self depth).2
    exact Nested.block (opens_indented hkeyword depth) hopening (closes_indented depth) hclosing
      (nested_linesOfAll fun entry hentry => ih entry hentry (depth + 1))

/-- A line at a depth is one line when its text is. -/
theorem singleLine_indented {depth : Nat} {text : String} (h : SingleLine text) :
    SingleLine (Entry.indented depth text) := by
  have hblanks : SingleLine (String.ofList (List.replicate (2 * depth) ' ')) := by simp [SingleLine]
  exact Text.singleLine_append.mpr ⟨hblanks, h⟩

/-- The lines of entries are those of each entry. -/
theorem mem_linesOfAll {depth : Nat} {entries : List Entry} {line : String} :
    line ∈ Entry.linesOfAll depth entries ↔ ∃ entry ∈ entries, line ∈ entry.lines depth := by
  induction entries with
  | nil => simp [Entry.linesOfAll]
  | cons entry rest ih => simp [Entry.linesOfAll, ih]

/-- The lines of a sound entry hold no line feed. -/
theorem Entry.Sound.singleLine {entry : Entry} (h : entry.Sound) (depth : Nat) :
    ∀ line ∈ entry.lines depth, SingleLine line := by
  induction h generalizing depth with
  | blank => simp [Entry.lines, SingleLine]
  | comment h =>
    rw [Entry.lines, List.forall_mem_singleton]
    exact singleLine_indented (plain_comment h).singleLine
  | directive h =>
    rw [Entry.lines, List.forall_mem_singleton]
    exact singleLine_indented h.singleLine
  | @block keyword body hkeyword hbody ih =>
    have hwords : ∀ word ∈ reservedWords, SingleLine word := by decide
    have hopening := hwords keyword (List.mem_cons_of_mem _ hkeyword)
    have hclosing := hwords "END" List.mem_cons_self
    intro line hline
    simp only [Entry.lines, List.mem_cons, List.mem_append, List.not_mem_nil, or_false] at hline
    rcases hline with rfl | hline | rfl
    · exact singleLine_indented hopening
    · obtain ⟨entry, hentry, hline⟩ := mem_linesOfAll.mp hline
      exact ih entry hentry (depth + 1) line hline
    · exact singleLine_indented hclosing

/-- The block that an entry is, if it is one, by its keyword and the line after it. -/
def Entry.block? (depth : Nat) : Entry → Option (String × Option String)
  | .block keyword body =>
    some (keyword, (linesOfAll (depth + 1) body ++ [indented depth "END"]).head?)
  | _ => none

/-- The blocks that are opened at a depth by sound entries are those entries that are blocks. -/
theorem blocksAt_linesOfAll {depth : Nat} {entries : List Entry} (h : AllSound entries)
    (rest : List String) :
    blocksAt depth depth (Entry.linesOfAll depth entries ++ rest) =
      entries.filterMap (Entry.block? depth) ++ blocksAt depth depth rest := by
  induction entries with
  | nil => simp [Entry.linesOfAll]
  | cons entry entries ih =>
    rw [allSound_cons] at h
    have hrest := ih h.2
    rw [Entry.linesOfAll, List.append_assoc]
    cases h.1 with
    | blank =>
      rw [Entry.lines, List.singleton_append, blocksAt_cons_of_plain (by decide) (by decide), hrest]
      rfl
    | comment htext =>
      have hplain := (plain_comment htext).opens_closes depth
      rw [Entry.lines, List.singleton_append, blocksAt_cons_of_plain hplain.1 hplain.2, hrest]
      rfl
    | directive htext =>
      have hplain := htext.opens_closes depth
      rw [Entry.lines, List.singleton_append]
      refine (blocksAt_cons_of_plain hplain.1 hplain.2 _).trans ?_
      rw [hrest]
      rfl
    | @block keyword body hkeyword hbody =>
      have hnested : Nested (depth + 1) (Entry.linesOfAll (depth + 1) body) :=
        nested_linesOfAll fun entry hentry => (hbody entry hentry).nested (depth + 1)
      have hword := (reservedLine (List.mem_cons_of_mem _ hkeyword) depth).1
      rw [Entry.lines, blocksAt_block (opens_indented hkeyword depth) (closes_indented depth) hnested,
        hword, hrest]
      rfl

end Carta.Mapfile
