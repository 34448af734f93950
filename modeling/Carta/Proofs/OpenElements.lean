import Carta.Proofs.KeptTags
import Carta.Proofs.TextRuns
import Mathlib.Algebra.Order.Ring.Int

/-!
# The elements under construction

Reading keeps two stacks, the names of the open tags and the elements under construction, and a
closing tag is checked against the first but completes the innermost of the second. Which tags are
open at a point of a document, and which opening tag a closing tag belongs to, can be told without
either: opening and closing tags are counted. The two stacks are in step with the count wherever
reading comes to. The elements under construction are those of the tags that are open, each with the
elements that were closed directly in it, in order, and with the text directly in it; a closing tag
completes the element of its own opening tag, and that is added behind the children of the innermost
element around it.
-/

namespace Carta.Xml

section Counting

/-- How many tags more are open after a markup than before it. -/
def Markup.change : Markup → Int
  | .opening _ => 1
  | .closing _ => -1
  | _ => 0

/-- How many opening tags more than closing tags are among markups. -/
def tagBalance (markups : List Markup) : Int :=
  (markups.map Markup.change).sum

/-- Markups that close no tag from before them: up to any of them, as many tags are opened as are
closed, or more. -/
def KeepsOpen (markups : List Markup) : Prop :=
  ∀ n, 0 ≤ tagBalance (markups.take n)

/-- Markups that close the tags that they open, and no others. -/
structure Paired (markups : List Markup) : Prop where
  keepsOpen : KeepsOpen markups
  balance : tagBalance markups = 0

instance (markups : List Markup) : Decidable (KeepsOpen markups) :=
  decidable_of_iff (∀ n ≤ markups.length, 0 ≤ tagBalance (markups.take n))
    ⟨fun h n => by
      rcases Nat.le_total n markups.length with hn | hn
      · exact h n hn
      · rw [List.take_of_length_le hn]
        simpa using h markups.length (Nat.le_refl _),
    fun h n _ => h n⟩

/-- The opening tags that markups do not close, in order: those with nothing behind them that closes a
tag from before. -/
def leftOpen : List Markup → List Tag
  | [] => []
  | .opening tag :: later => (if KeepsOpen later then [tag] else []) ++ leftOpen later
  | _ :: later => leftOpen later

/-- The opening tag that a closing tag behind markups belongs to: what is between the two closes the
tags that it opens, and no others. -/
structure OwnOpening (read before : List Markup) (tag : Tag) (inside : List Markup) : Prop where
  read_eq : read = before ++ .opening tag :: inside
  inside : Paired inside

/-- An empty list of markups opens and closes nothing. -/
@[simp] theorem tagBalance_nil : tagBalance [] = 0 :=
  rfl

/-- The balance of markups is the change by the first and the balance of the rest. -/
@[simp] theorem tagBalance_cons (markup : Markup) (markups : List Markup) :
    tagBalance (markup :: markups) = markup.change + tagBalance markups := by
  simp [tagBalance]

/-- The balance of markups that stand together is the sum of their balances. -/
@[simp] theorem tagBalance_append (first second : List Markup) :
    tagBalance (first ++ second) = tagBalance first + tagBalance second := by
  simp [tagBalance]

variable {first second before inside : List Markup} {tag : Tag}

/-- Markups that close no tag from before them open as many tags as they close, or more. -/
theorem KeepsOpen.nonneg (h : KeepsOpen first) : 0 ≤ tagBalance first :=
  List.take_length (l := first) ▸ h first.length

/-- Markups that close no tag from before them can be put behind each other. -/
theorem KeepsOpen.append (hfirst : KeepsOpen first) (hsecond : KeepsOpen second) :
    KeepsOpen (first ++ second) := by
  intro n
  have hn := hfirst n
  have hrest := hsecond (n - first.length)
  rw [List.take_append, tagBalance_append]
  omega

/-- The first of markups that close no tag from before them close none either. -/
theorem KeepsOpen.of_append (h : KeepsOpen (first ++ second)) : KeepsOpen first := by
  intro n
  have hn := h (min n first.length)
  rwa [List.take_append_of_le_length (Nat.min_le_right _ _), ← List.take_eq_take_min] at hn

/-- An opening tag may be put before markups that close no tag from before them. -/
theorem KeepsOpen.opening (h : KeepsOpen inside) (tag : Tag) :
    KeepsOpen (.opening tag :: inside) := by
  intro n
  cases n with
  | zero => exact Int.le_refl _
  | succ n =>
    have hn := h n
    rw [List.take_succ_cons, tagBalance_cons, Markup.change]
    omega

/-- An empty list of markups is paired. -/
theorem Paired.nil : Paired [] :=
  ⟨fun n => by simp, rfl⟩

/-- Paired markups can be put behind each other. -/
theorem Paired.append (hfirst : Paired first) (hsecond : Paired second) : Paired (first ++ second) :=
  ⟨hfirst.keepsOpen.append hsecond.keepsOpen, by
    rw [tagBalance_append, hfirst.balance, hsecond.balance, Int.add_zero]⟩

/-- A markup that is neither an opening nor a closing tag is paired by itself. -/
theorem Paired.single {markup : Markup} (h : markup.change = 0) : Paired [markup] := by
  refine ⟨fun n => ?_, by simp [h]⟩
  cases n <;> simp [h]

/-- An opening tag and its closing tag, around paired markups. -/
theorem Paired.tags (h : Paired inside) (tag : Tag) (name : List UInt8) :
    Paired (.opening tag :: (inside ++ [.closing name])) := by
  refine ⟨fun n => ?_, by simp [h.balance, Markup.change]⟩
  cases n with
  | zero => exact Int.le_refl _
  | succ n =>
    have hinside := h.keepsOpen n
    have hclosing : -1 ≤ tagBalance ([Markup.closing name].take (n - inside.length)) := by
      cases n - inside.length <;> simp [Markup.change]
    rw [List.take_succ_cons, tagBalance_cons, List.take_append, tagBalance_append, Markup.change]
    omega

/-- What is behind a tag that is left open closes no tag from before. -/
theorem exists_of_mem_leftOpen {markups : List Markup} (h : tag ∈ leftOpen markups) :
    ∃ before later, markups = before ++ .opening tag :: later ∧ KeepsOpen later := by
  fun_induction leftOpen markups with
  | case1 => cases h
  | case2 opened later ih =>
    rcases List.mem_append.mp h with hopened | hlater
    · split at hopened
      next hkeeps => exact ⟨[], later, by simp [List.mem_singleton.mp hopened], hkeeps⟩
      next => cases hopened
    · obtain ⟨before, more, rfl, hmore⟩ := ih hlater
      exact ⟨_ :: before, more, rfl, hmore⟩
  | case3 markup later _ ih =>
    obtain ⟨before, more, rfl, hmore⟩ := ih h
    exact ⟨_ :: before, more, rfl, hmore⟩

/-- Paired markups leave no tag open. -/
theorem Paired.leftOpen_eq_nil (h : Paired inside) : leftOpen inside = [] := by
  refine List.eq_nil_iff_forall_not_mem.mpr fun tag hmem => ?_
  obtain ⟨before, later, rfl, hlater⟩ := exists_of_mem_leftOpen hmem
  have hbefore := h.keepsOpen.of_append.nonneg
  have hbalance := h.balance
  have hnonneg := hlater.nonneg
  rw [tagBalance_append, tagBalance_cons, Markup.change] at hbalance
  omega

/-- Markups that close no tag from before them leave those open that were. -/
theorem leftOpen_append (hsecond : KeepsOpen second) (first : List Markup) :
    leftOpen (first ++ second) = leftOpen first ++ leftOpen second := by
  fun_induction leftOpen first with
  | case1 => rfl
  | case2 opened later ih =>
    have hkeeps : KeepsOpen (later ++ second) ↔ KeepsOpen later :=
      ⟨KeepsOpen.of_append, fun h => h.append hsecond⟩
    rw [List.cons_append, leftOpen, ih, if_congr hkeeps rfl rfl, List.append_assoc]
  | case3 markup later hmarkup ih =>
    rw [List.cons_append, leftOpen, ih]
    exact hmarkup

/-- The last tag left open is one with paired markups behind it. -/
theorem leftOpen_inside (h : Paired inside) (before : List Markup) (tag : Tag) :
    leftOpen (before ++ .opening tag :: inside) = leftOpen before ++ [tag] := by
  rw [leftOpen_append (h.keepsOpen.opening tag), leftOpen, if_pos h.keepsOpen, h.leftOpen_eq_nil,
    List.append_nil]

/-- Between an opening tag and the closing tag that belongs to it no other tag is left open. -/
theorem Paired.not_outer (h : Paired inside) (before : List Markup) (tag : Tag) :
    ¬ Paired (before ++ .opening tag :: inside) := by
  intro houter
  have hnil := houter.leftOpen_eq_nil
  rw [leftOpen_inside h] at hnil
  exact List.append_ne_nil_of_right_ne_nil _ (List.cons_ne_nil _ _) hnil

/-- A closing tag belongs to one opening tag. -/
theorem OwnOpening.unique {read before' inside' : List Markup} {tag' : Tag}
    (h : OwnOpening read before tag inside) (h' : OwnOpening read before' tag' inside') :
    before = before' ∧ tag = tag' ∧ inside = inside' := by
  rcases List.append_eq_append_iff.mp (h.read_eq.symm.trans h'.read_eq) with
    ⟨between, hbefore, hread⟩ | ⟨between, hbefore, hread⟩
  · cases between with
    | nil => simpa [hbefore] using hread
    | cons markup between =>
      rw [List.cons_append, List.cons.injEq] at hread
      exact absurd (hread.2 ▸ h.inside) (h'.inside.not_outer between tag')
  · cases between with
    | nil => simpa [hbefore, eq_comm] using hread
    | cons markup between =>
      rw [List.cons_append, List.cons.injEq] at hread
      exact absurd (hread.2 ▸ h'.inside) (h.inside.not_outer between tag)

end Counting

/-- The text that a markup adds to the element it stands in. -/
inductive TextOf : Markup → String → Prop
  | run {bytes : List UInt8} {text : String} (h : textOfRun bytes = .ok text) :
      TextOf (.text bytes) text
  | cdata (bytes : List UInt8) : TextOf (.cdata bytes) (Text.Utf8.decodeLenient bytes)

mutual

/-- The element that markups are, from its tag to the closing tag with the same name. -/
inductive ElementOf : List Markup → Element → Prop
  | emptyElement {tag : Tag} {element : Element} (h : tag.element = .ok element) :
      ElementOf [.emptyElement tag] element
  | tags {tag : Tag} {inside : List Markup} {element : Element}
      (h : tag.element = .ok element.head)
      (hinside : ContentOf inside element.children element.text) :
      ElementOf (.opening tag :: (inside ++ [.closing tag.name])) element

/-- The children and the text that markups are between the tags of an element: the elements that are
closed directly in it, in order, and all text directly in it, joined. -/
inductive ContentOf : List Markup → List Element → String → Prop
  | nil : ContentOf [] [] ""
  | child {inside piece : List Markup} {children : List Element} {text : String}
      {element : Element} (h : ContentOf inside children text) (hpiece : ElementOf piece element) :
      ContentOf (inside ++ piece) (children ++ [element]) text
  | text {inside : List Markup} {children : List Element} {text more : String} {markup : Markup}
      (h : ContentOf inside children text) (hmarkup : TextOf markup more) :
      ContentOf (inside ++ [markup]) children (text ++ more)
  | aside {inside : List Markup} {children : List Element} {text : String}
      (h : ContentOf inside children text) : ContentOf (inside ++ [.aside]) children text

end

/-- Text is no tag. -/
theorem TextOf.change_eq_zero {markup : Markup} {text : String} (h : TextOf markup text) :
    markup.change = 0 := by
  cases h <;> rfl

mutual

/-- The tags of an element are in pairs. -/
theorem ElementOf.paired {piece : List Markup} {element : Element} :
    ElementOf piece element → Paired piece
  | .emptyElement _ => .single rfl
  | .tags _ hinside => hinside.paired.tags _ _

/-- The tags inside of an element are in pairs. -/
theorem ContentOf.paired {inside : List Markup} {children : List Element} {text : String} :
    ContentOf inside children text → Paired inside
  | .nil => .nil
  | .child h hpiece => h.paired.append hpiece.paired
  | .text h hmarkup => h.paired.append (.single hmarkup.change_eq_zero)
  | .aside h => h.paired.append (.single rfl)

end

/-- Reading comes to a point of a source: the markups up to there, the progress that they have made,
and the bytes behind them. -/
inductive Reaches (source : Source) : List Markup → Progress → List UInt8 → Prop
  | start : Reaches source [] {} (withoutMark source.bytes)
  | step {read : List Markup} {progress next : Progress} {bytes rest : List UInt8} {markup : Markup}
      (h : Reaches source read progress bytes)
      (hnext : Markup.next? source bytes = .ok (some (markup, rest)))
      (hread : progress.read markup = .ok next) : Reaches source (read ++ [markup]) next rest

/-- An element under construction: reading came to its opening tag with some progress, and what was
read since is its content so far. -/
structure Begun (source : Source) (before : List Markup) (start : Progress) (tag : Tag)
    (inside : List Markup) (element : Element) : Prop where
  reached : ∃ bytes, Reaches source before start bytes
  head : tag.element = .ok element.head
  content : ContentOf inside element.children element.text

/-- At its opening tag an element has no content. -/
theorem Begun.opening {source : Source} {read : List Markup} {progress : Progress}
    {bytes : List UInt8} {tag : Tag} {element : Element} (h : Reaches source read progress bytes)
    (helement : tag.element = .ok element) : Begun source read progress tag [] element := by
  obtain ⟨name, attributes, children, text⟩ := element
  obtain ⟨rfl, rfl⟩ : children = [] ∧ text = "" := Tag.eq_of_element helement
  exact ⟨⟨bytes, h⟩, helement, .nil⟩

/-- The stacks of reading as markups make them: empty outside of all elements, and inside of one the
stacks before its opening tag with its name and with the element itself, as far as it has been
read. -/
inductive StackOf (source : Source) : List Markup → Progress → Prop
  | outside {read : List Markup} (h : Paired read) (root : Option Element) :
      StackOf source read ⟨[], ⟨[], root⟩⟩
  | inside {before inside : List Markup} {start : Progress} {tag : Tag} {element : Element}
      (h : StackOf source before start) (hbegun : Begun source before start tag inside element) :
      StackOf source (before ++ .opening tag :: inside)
        ⟨tag.name :: start.names, start.builder.begin element⟩

namespace StackOf

variable {source : Source} {read piece : List Markup} {progress : Progress} {element : Element}
  {markup : Markup}

/-- What is read inside of the innermost element becomes part of its content. -/
theorem within {before inside more : List Markup} {start : Progress} {tag : Tag} {grown : Element}
    (h : StackOf source before start) (hbegun : Begun source before start tag inside element)
    (hhead : grown.head = element.head)
    (hcontent : ContentOf (inside ++ more) grown.children grown.text) :
    StackOf source (before ++ .opening tag :: inside ++ more)
      ⟨tag.name :: start.names, start.builder.begin grown⟩ := by
  rw [List.append_assoc, List.cons_append]
  exact .inside h ⟨hbegun.reached, hhead ▸ hbegun.head, hcontent⟩

/-- A complete element is a child of the innermost element around it, or a top-level one. -/
theorem add (h : StackOf source read progress) (hpiece : ElementOf piece element) :
    StackOf source (read ++ piece) ⟨progress.names, progress.builder.add element⟩ := by
  cases h with
  | outside hread => exact .outside (hread.append hpiece.paired) (some element)
  | inside h hbegun => exact within h hbegun rfl (hbegun.content.child hpiece)

/-- Text belongs to the innermost element, if there is one. -/
theorem addText {text : String} (h : StackOf source read progress) (hmarkup : TextOf markup text) :
    StackOf source (read ++ [markup]) ⟨progress.names, progress.builder.addText text⟩ := by
  cases h with
  | outside hread root => exact .outside (hread.append (.single hmarkup.change_eq_zero)) root
  | inside h hbegun => exact within h hbegun rfl (hbegun.content.text hmarkup)

/-- Outside of all elements the stacks stay empty, unless a tag is opened. -/
theorem pass (h : StackOf source read progress) (hmarkup : markup.change = 0)
    (houtside : progress.builder.isOutside = true) : StackOf source (read ++ [markup]) progress := by
  cases h with
  | outside hread root => exact .outside (hread.append (.single hmarkup)) root
  | inside => cases houtside

/-- Asides leave the stacks as they are. -/
theorem aside (h : StackOf source read progress) : StackOf source (read ++ [.aside]) progress := by
  cases h with
  | outside hread root => exact .outside (hread.append (.single rfl)) root
  | inside h hbegun => exact within h hbegun rfl hbegun.content.aside

/-- The stacks stay those of the markups, whichever markup is read. -/
theorem step {bytes : List UInt8} {next : Progress} (h : StackOf source read progress)
    (hreached : Reaches source read progress bytes) (htakes : progress.Takes markup next) :
    StackOf source (read ++ [markup]) next := by
  cases htakes with
  | opening helement => exact .inside h (.opening hreached helement)
  | emptyElement helement => exact h.add (.emptyElement helement)
  | closing hnames =>
    cases h with
    | outside => cases hnames
    | inside h hbegun =>
      -- The name is that of the innermost opening tag, whose element is complete with it.
      obtain ⟨rfl, rfl⟩ := List.cons.inj hnames
      rw [List.append_assoc, List.cons_append]
      exact h.add (.tags hbegun.head hbegun.content)
  | textOutside houtside => exact h.pass rfl houtside
  | text _ htext => exact h.addText (.run htext)
  | cdata => exact h.addText (.cdata _)
  | aside => exact h.aside

/-- The names that closing tags are compared with are those of the tags left open. -/
theorem names_eq (h : StackOf source read progress) :
    progress.names.reverse = (leftOpen read).map Tag.name := by
  induction h with
  | outside hread => rw [hread.leftOpen_eq_nil]; rfl
  | inside h hbegun ih =>
    rw [leftOpen_inside hbegun.content.paired, List.reverse_cons, ih, List.map_append]
    rfl

/-- The elements under construction have the names of the tags left open. -/
theorem elements_eq (h : StackOf source read progress) :
    progress.builder.opened.reverse.map Element.name =
      (leftOpen read).map fun tag => Text.Utf8.decodeLenient tag.name := by
  induction h with
  | outside hread => rw [hread.leftOpen_eq_nil]; rfl
  | @inside before inside start tag element h hbegun ih =>
    have hname : element.name = Text.Utf8.decodeLenient tag.name := by
      obtain ⟨attributes, -, hhead⟩ := bind_eq_ok_iff.mp hbegun.head
      exact (congrArg Element.name (Except.ok.inj hhead)).symm
    rw [leftOpen_inside hbegun.content.paired, Builder.begin, List.reverse_cons, List.map_append,
      ih, List.map_append, List.map_singleton, List.map_singleton, hname]

end StackOf

namespace Reaches

variable {source : Source} {read : List Markup} {progress : Progress} {rest : List UInt8}

/-- Wherever reading comes to, its stacks are those of the markups up to there. -/
theorem stackOf (h : Reaches source read progress rest) : StackOf source read progress := by
  induction h with
  | start => exact .outside .nil none
  | step hreached _ hread ih => exact ih.step hreached (Progress.takes_of_read hread)

/-- What the whole document is read to is what is read to from any point on. -/
theorem readFrom_eq (h : Reaches source read progress rest) :
    readFrom source {} (withoutMark source.bytes) = readFrom source progress rest := by
  induction h with
  | start => rfl
  | step _ hnext hread ih =>
    rw [ih, readFrom_of_some hnext, hread]
    rfl

end Reaches

/-- Reading does not go on behind a point. -/
def EndsAt (source : Source) (progress : Progress) (rest : List UInt8) : Prop :=
  ∀ markup later next, Markup.next? source rest = .ok (some (markup, later)) →
    progress.read markup ≠ .ok next

/-- From any point reading goes on to an end. -/
theorem Reaches.exists_endsAt {source : Source} {read : List Markup} {progress : Progress}
    {bytes : List UInt8} (h : Reaches source read progress bytes) :
    ∃ read progress rest, Reaches source read progress rest ∧ EndsAt source progress rest := by
  fun_induction markupsFrom source bytes generalizing read progress with
  | case1 bytes fault hnext => exact ⟨read, progress, bytes, h, by simp [EndsAt, hnext]⟩
  | case2 bytes hnext => exact ⟨read, progress, bytes, h, by simp [EndsAt, hnext]⟩
  | case3 bytes markup rest hnext ih =>
    cases hread : progress.read markup with
    | ok next => exact ih (h.step hnext hread)
    | error error =>
      refine ⟨read, progress, bytes, h, fun markup' later next hsome hok => ?_⟩
      have hmarkup : markup = markup' :=
        congrArg Prod.fst (Option.some.inj (Except.ok.inj (hnext.symm.trans hsome)))
      rw [← hmarkup, hread] at hok
      cases hok

/-- An element is attached: behind the children of the innermost element under construction, or as the
root when there is none. -/
inductive Attached (element : Element) : Builder → Builder → Prop
  | child (parent : Element) (outer : List Element) (root : Option Element) :
      Attached element ⟨parent :: outer, root⟩
        ⟨{ parent with children := parent.children ++ [element] } :: outer, root⟩
  | root (earlier : Option Element) : Attached element ⟨[], earlier⟩ ⟨[], some element⟩

/-- What a markup does at a point that reading has come to. -/
inductive Moves (source : Source) (read : List Markup) (progress : Progress) :
    Markup → Progress → Prop
  /-- An opening tag pushes its name and its element. -/
  | opening {tag : Tag} {element : Element} (h : tag.element = .ok element) :
      Moves source read progress (.opening tag)
        ⟨tag.name :: progress.names,
          ⟨element :: progress.builder.opened, progress.builder.root⟩⟩
  /-- The element of an empty-element tag is attached at once. -/
  | emptyElement {tag : Tag} {element : Element} {builder : Builder}
      (h : tag.element = .ok element) (hattached : Attached element progress.builder builder) :
      Moves source read progress (.emptyElement tag) ⟨progress.names, builder⟩
  /-- A closing tag belongs to one opening tag and has its name. The element that this one pushed is
  the innermost, above the stacks that were there before it; it is taken off and attached to them. -/
  | closing {before inside : List Markup} {start : Progress} {tag : Tag} {element : Element}
      {builder : Builder} (hown : OwnOpening read before tag inside)
      (honly : ∀ before' tag' inside', OwnOpening read before' tag' inside' →
        before' = before ∧ tag' = tag ∧ inside' = inside)
      (hbegun : Begun source before start tag inside element)
      (hnames : progress.names = tag.name :: start.names)
      (hopened : progress.builder.opened = element :: start.builder.opened)
      (hattached : Attached element start.builder builder) :
      Moves source read progress (.closing tag.name) ⟨start.names, builder⟩
  /-- Text is added to the innermost element. -/
  | text {markup : Markup} {text : String} {element : Element} {outer : List Element}
      (hmarkup : TextOf markup text) (hopened : progress.builder.opened = element :: outer) :
      Moves source read progress markup
        ⟨progress.names,
          ⟨{ element with text := element.text ++ text } :: outer, progress.builder.root⟩⟩
  /-- Outside of all elements a run of text is dropped. -/
  | textOutside {bytes : List UInt8} (hopened : progress.builder.opened = []) :
      Moves source read progress (.text bytes) progress
  /-- Outside of all elements a character data section is dropped. -/
  | cdataOutside {bytes : List UInt8} (hopened : progress.builder.opened = []) :
      Moves source read progress (.cdata bytes) progress
  /-- Asides are dropped. -/
  | aside : Moves source read progress .aside progress

/-- An element is added where it is attached. -/
theorem attached_add (element : Element) (builder : Builder) :
    Attached element builder (builder.add element) := by
  obtain ⟨opened, root⟩ := builder
  cases opened with
  | nil => exact .root root
  | cons parent outer => exact .child parent outer root

/-- Where the stacks are those of the markups, all that a markup can do is one of these. -/
theorem StackOf.moves {source : Source} {read : List Markup} {progress next : Progress}
    {markup : Markup} (h : StackOf source read progress) (htakes : progress.Takes markup next) :
    Moves source read progress markup next := by
  cases htakes with
  | opening helement => exact .opening helement
  | emptyElement helement => exact .emptyElement helement (attached_add _ _)
  | closing hnames =>
    cases h with
    | outside => cases hnames
    | @inside before inside start tag element _ hbegun =>
      obtain ⟨rfl, rfl⟩ := List.cons.inj hnames
      have hown : OwnOpening (before ++ .opening tag :: inside) before tag inside :=
        ⟨rfl, hbegun.content.paired⟩
      exact .closing hown (fun _ _ _ hother => hother.unique hown) hbegun rfl rfl
        (attached_add element start.builder)
  | textOutside houtside => exact .textOutside (List.isEmpty_iff.mp houtside)
  | text hinside htext =>
    obtain ⟨names, ⟨opened, root⟩⟩ := progress
    cases opened with
    | nil => cases hinside
    | cons element outer => exact .text (.run htext) rfl
  | cdata =>
    obtain ⟨names, ⟨opened, root⟩⟩ := progress
    cases opened with
    | nil => exact .cdataOutside rfl
    | cons element outer => exact .text (.cdata _) rfl
  | aside => exact .aside

/-- The two stacks of reading are in step with the tags of a document at a point of it. -/
structure InStep (source : Source) (read : List Markup) (progress : Progress)
    (rest : List UInt8) : Prop where
  /-- The document is read as it is from this point on with this progress. -/
  passed : readFrom source {} (withoutMark source.bytes) = readFrom source progress rest
  /-- The names are those of the opening tags that are not closed, outermost first. -/
  names : progress.names.reverse = (leftOpen read).map Tag.name
  /-- The elements under construction have these names, decoded. -/
  elements : progress.builder.opened.reverse.map Element.name =
    (leftOpen read).map fun tag => Text.Utf8.decodeLenient tag.name
  /-- Each of the elements has the children that were closed directly in it and the text in it. -/
  stack : StackOf source read progress
  /-- Whatever markup is read next, it changes the stacks in this way. -/
  moves : ∀ markup next, progress.read markup = .ok next → Moves source read progress markup next

/-- Reading a document comes to an end, and at every point that it comes to, the stack of elements is
in step with the tags: from the outermost to the innermost, its elements have the names of the
opening tags that are not closed up to there. So a closing tag finds the element that its own opening
tag pushed, an element that is closed becomes the last child of the innermost element still open
around it, and text is added to the innermost open element alone. -/
theorem stack_eq_leftOpen (source : Source) :
    (∃ read progress rest, Reaches source read progress rest ∧ EndsAt source progress rest) ∧
    ∀ read progress rest, Reaches source read progress rest →
      InStep source read progress rest := by
  refine ⟨Reaches.start.exists_endsAt, fun read progress rest h => ?_⟩
  have hstack := h.stackOf
  exact {
    passed := h.readFrom_eq
    names := hstack.names_eq
    elements := hstack.elements_eq
    stack := hstack
    moves := fun _ _ hread => hstack.moves (Progress.takes_of_read hread) }

/-- An element in an element with the same name. -/
def namesakes : Source where
  bytes := Text.Utf8.encode "<a>x<a><b/></a></a>"

/-- Behind `<a>x<a><b/>` two elements with one name are open, and the closing tag that comes next
completes the inner one, which becomes a child of the outer one. -/
theorem namesakes_in_step :
    ∃ read progress rest next, Reaches namesakes read progress rest ∧
      (leftOpen read).map Tag.name = [Text.Utf8.encode "a", Text.Utf8.encode "a"] ∧
      progress.builder.opened.reverse.map Element.name = ["a", "a"] ∧
      progress.read (.closing (Text.Utf8.encode "a")) = .ok next ∧
      next.builder.opened =
        [{ name := "a", children := [{ name := "a", children := [{ name := "b" }] }], text := "x" }] ∧
      Moves namesakes read progress (.closing (Text.Utf8.encode "a")) next := by
  have hreached : Reaches namesakes
      [.opening ⟨Text.Utf8.encode "a", []⟩, .text (Text.Utf8.encode "x"),
        .opening ⟨Text.Utf8.encode "a", []⟩, .emptyElement ⟨Text.Utf8.encode "b", []⟩]
      ⟨[Text.Utf8.encode "a", Text.Utf8.encode "a"],
        ⟨[{ name := "a", children := [{ name := "b" }] }, { name := "a", text := "x" }], none⟩⟩
      (Text.Utf8.encode "</a></a>") := by
    have hfirst : Reaches namesakes [.opening ⟨Text.Utf8.encode "a", []⟩]
        ⟨[Text.Utf8.encode "a"], ⟨[{ name := "a" }], none⟩⟩
        (Text.Utf8.encode "x<a><b/></a></a>") :=
      .step .start (by with_unfolding_all rfl) (by with_unfolding_all rfl)
    have htext : Reaches namesakes
        [.opening ⟨Text.Utf8.encode "a", []⟩, .text (Text.Utf8.encode "x")]
        ⟨[Text.Utf8.encode "a"], ⟨[{ name := "a", text := "x" }], none⟩⟩
        (Text.Utf8.encode "<a><b/></a></a>") :=
      .step hfirst (by with_unfolding_all rfl) (by with_unfolding_all rfl)
    have hsecond : Reaches namesakes
        [.opening ⟨Text.Utf8.encode "a", []⟩, .text (Text.Utf8.encode "x"),
          .opening ⟨Text.Utf8.encode "a", []⟩]
        ⟨[Text.Utf8.encode "a", Text.Utf8.encode "a"],
          ⟨[{ name := "a" }, { name := "a", text := "x" }], none⟩⟩
        (Text.Utf8.encode "<b/></a></a>") :=
      .step htext (by with_unfolding_all rfl) (by with_unfolding_all rfl)
    exact .step hsecond (by with_unfolding_all rfl) (by with_unfolding_all rfl)
  have hstep := (stack_eq_leftOpen namesakes).2 _ _ _ hreached
  exact ⟨_, _, _, _, hreached, by decide +kernel, rfl, rfl, rfl, hstep.moves _ _ rfl⟩

end Carta.Xml
