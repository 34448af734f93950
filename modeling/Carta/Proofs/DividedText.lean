import Carta.Proofs.TextRuns
import Carta.Proofs.Truncation

/-!
# Text that is divided

Comments, processing instructions, character data sections and child elements divide the text of an
element into runs. Each run loses the spaces at its own ends, whatever stands next to it, and the
text is what is left of the runs and the content of the sections, in order. So a space within a text
is lost where a markup is put next to it. The content of an element is still that of its whole text
exactly when no space that a run loses stands between two characters that are no blanks.
-/

namespace Carta.Xml

open Carta.Text (Blank keptOf wholeOf trimmed?)
open Carta.Text.Utf8 (encode encodeChars)

/-- What divides a text and carries nothing that is kept. -/
inductive Aside
  | comment (body : List UInt8)
  | instruction (body : List UInt8)
  deriving Repr, DecidableEq

/-- How an aside is written. -/
def Aside.bytes : Aside → List UInt8
  | .comment body => Byte.less :: Byte.bang :: Byte.dash :: Byte.dash :: body ++
      [Byte.dash, Byte.dash, Byte.greater]
  | .instruction body => Byte.less :: Byte.question :: body ++ [Byte.question, Byte.greater]

/-- Its end is not within an aside. -/
def Aside.Valid : Aside → Prop
  | .comment body => ¬ [Byte.dash, Byte.dash, Byte.greater] <:+: body
  | .instruction body => ¬ [Byte.question, Byte.greater] <:+: Byte.question :: body

mutual

/-- An element as it is written. Of its tag it has the bytes and the element that the tag begins. -/
inductive WrittenNode
  | emptyElement (head : Element) (tag : List UInt8)
  | tags (head : Element) (tag : List UInt8) (content : WrittenContent) (closing : List UInt8)

/-- The content of an element as it is written: runs of text, and between them what divides them. A
run may have no characters. -/
inductive WrittenContent
  | last (run : List Char)
  | aside (run : List Char) (aside : Aside) (rest : WrittenContent)
  | cdata (run content : List Char) (rest : WrittenContent)
  | child (run : List Char) (node : WrittenNode) (rest : WrittenContent)

end

/-- A part of the text of an element: a run, as it is written, or the content of a character data
section. -/
inductive Datum
  | run (written : List Char)
  | cdata (content : List Char)
  deriving Repr, DecidableEq

namespace Datum

/-- The whole text of a part. -/
def whole : Datum → List Char
  | run written => resolved written
  | cdata content => content

/-- The text of a part without the spaces that a run loses. -/
def kept : Datum → List Char
  | run written => resolved (coreOf isRunSpace written)
  | cdata content => content

/-- The characters of the text of a part, each with a mark that tells whether it is kept. -/
def marked : Datum → List (Char × Bool)
  | run written => (leadingOf isRunSpace written).map (·, false) ++
      (resolved (coreOf isRunSpace written)).map (·, true) ++ (trailingOf isRunSpace written).map (·, false)
  | cdata content => content.map (·, true)

/-- A run does not begin a markup, and its references can be resolved. -/
def Valid : Datum → Prop
  | run written => '<' ∉ written ∧ ∃ cs, Resolves written cs
  | cdata content =>
    ¬ [Byte.closingBracket, Byte.closingBracket, Byte.greater] <:+: encodeChars content

end Datum

/-- What is between the angle brackets of an opening tag, or of an empty-element tag with its slash:
nothing else begins as it does, and the tag does not end within it. -/
structure IsTag (content : List UInt8) : Prop where
  head : ∀ b ∈ content.head?, b ≠ Byte.bang ∧ b ≠ Byte.slash ∧ b ≠ Byte.question
  ends : tagExtent.split? none (content ++ [Byte.greater]) = some (content, [])

/-- What is between `</` and the angle bracket of a closing tag for a name. -/
structure Closes (name content : List UInt8) : Prop where
  ends : tagExtent.split? none (content ++ [Byte.greater]) = some (content, [])
  name : closingMarkup content = .ok (.closing name)

mutual

/-- How an element is written. -/
def WrittenNode.bytes : WrittenNode → List UInt8
  | .emptyElement _ tag => Byte.less :: tag ++ [Byte.slash, Byte.greater]
  | .tags _ tag content closing => Byte.less :: tag ++ Byte.greater ::
      (content.bytes ++ (Byte.less :: Byte.slash :: closing ++ [Byte.greater]))

/-- How the content of an element is written. -/
def WrittenContent.bytes : WrittenContent → List UInt8
  | .last run => encodeChars run
  | .aside run aside rest => encodeChars run ++ aside.bytes ++ rest.bytes
  | .cdata run content rest => encodeChars run ++ cdataSection (encodeChars content) ++ rest.bytes
  | .child run node rest => encodeChars run ++ node.bytes ++ rest.bytes

end

/-- The parts of the text of an element, in order. -/
def WrittenContent.data : WrittenContent → List Datum
  | .last run => [.run run]
  | .aside run _ rest => .run run :: rest.data
  | .cdata run content rest => .run run :: .cdata content :: rest.data
  | .child run _ rest => .run run :: rest.data

/-- The parts of the text of an element, in order. -/
def WrittenNode.data : WrittenNode → List Datum
  | .emptyElement _ _ => []
  | .tags _ _ content _ => content.data

mutual

/-- The element that is written. -/
def WrittenNode.element : WrittenNode → Element
  | .emptyElement head _ => head
  | .tags head _ content _ =>
    { head with
      children := content.children
      text := String.ofList (content.data.flatMap Datum.kept) }

/-- The children of an element in its content. -/
def WrittenContent.children : WrittenContent → List Element
  | .last _ => []
  | .aside _ _ rest => rest.children
  | .cdata _ _ rest => rest.children
  | .child _ node rest => node.element :: rest.children

end

mutual

/-- Whether an element is written as it has to be. -/
def WrittenNode.Valid : WrittenNode → Prop
  | .emptyElement head tag =>
    IsTag (tag ++ [Byte.slash]) ∧ (Tag.ofContent tag).element = .ok head
  | .tags head tag content closing =>
    IsTag tag ∧ tag.getLast? ≠ some Byte.slash ∧ (Tag.ofContent tag).element = .ok head ∧
      content.Valid ∧ Closes (Tag.ofContent tag).name closing

/-- Whether the content of an element is written as it has to be. -/
def WrittenContent.Valid : WrittenContent → Prop
  | .last run => (Datum.run run).Valid
  | .aside run aside rest => (Datum.run run).Valid ∧ aside.Valid ∧ rest.Valid
  | .cdata run content rest => (Datum.run run).Valid ∧ (Datum.cdata content).Valid ∧ rest.Valid
  | .child run node rest => (Datum.run run).Valid ∧ node.Valid ∧ rest.Valid

end

mutual

/-- An element and the elements inside of it, in document order. -/
def WrittenNode.nodes : WrittenNode → List WrittenNode
  | .emptyElement head tag => [.emptyElement head tag]
  | .tags head tag content closing => .tags head tag content closing :: content.nodes

/-- The elements inside of an element, in document order. -/
def WrittenContent.nodes : WrittenContent → List WrittenNode
  | .last _ => []
  | .aside _ _ rest => rest.nodes
  | .cdata _ _ rest => rest.nodes
  | .child _ node rest => node.nodes ++ rest.nodes

end

section Reading

variable (source : Source)

/-- An aside is read as one. -/
theorem Aside.next? {aside : Aside} (h : aside.Valid) (rest : List UInt8) :
    Markup.next? source (aside.bytes ++ rest) = .ok (some (.aside, rest)) := by
  cases aside with
  | comment body =>
    have hread := next?_comment source h rest
    simpa [Aside.bytes] using hread
  | instruction body =>
    have hread := next?_instruction source h rest
    simpa [Aside.bytes] using hread

/-- A tag is read as one. -/
theorem IsTag.next? {content : List UInt8} (h : IsTag content) (rest : List UInt8) :
    Markup.next? source (Byte.less :: content ++ Byte.greater :: rest) =
      (tagMarkup content).map fun markup => some (markup, rest) := by
  have hsplit : tagExtent.split? none (content ++ Byte.greater :: rest) = some (content, rest) := by
    have hmore := Extent.split?_more h.ends rest
    simpa using hmore
  have hless : markupAfterLess source (content ++ Byte.greater :: rest) =
      delimitedMarkup source .tag tagExtent none (content ++ Byte.greater :: rest) tagMarkup := by
    cases content with
    | nil =>
      rw [List.nil_append, markupAfterLess, if_neg (by decide), if_neg (by decide),
        if_neg (by decide)]
    | cons b content =>
      obtain ⟨hbang, hslash, hquestion⟩ := h.head b rfl
      rw [List.cons_append, markupAfterLess, if_neg hbang, if_neg hslash, if_neg hquestion]
  rw [List.cons_append, next?_less, hless, delimitedMarkup, hsplit, map_map_outcome]
  rfl

/-- A closing tag is read as one. -/
theorem Closes.next? {name content : List UInt8} (h : Closes name content) (rest : List UInt8) :
    Markup.next? source (Byte.less :: Byte.slash :: content ++ Byte.greater :: rest) =
      .ok (some (.closing name, rest)) := by
  have hsplit : tagExtent.split? none (content ++ Byte.greater :: rest) = some (content, rest) := by
    have hmore := Extent.split?_more h.ends rest
    simpa using hmore
  rw [List.cons_append, List.cons_append, next?_less, markupAfterLess, if_neg (by decide),
    if_pos rfl, delimitedMarkup, hsplit]
  dsimp only
  rw [h.name]
  rfl

/-- A written element begins a markup. -/
theorem WrittenNode.head?_bytes (node : WrittenNode) (rest : List UInt8) :
    (node.bytes ++ rest).head? = some Byte.less := by
  cases node with
  | emptyElement => rfl
  | tags => rfl

/-- An aside begins a markup. -/
theorem Aside.head?_bytes (aside : Aside) (rest : List UInt8) :
    (aside.bytes ++ rest).head? = some Byte.less := by
  cases aside with
  | comment => rfl
  | instruction => rfl

section Content

variable {names : List (List UInt8)} {parent : Element} {outer : List Element}
  {root : Option Element}

/-- A run of a written content adds what is kept of it to the text of the element around it. -/
theorem readFrom_datum {run : List Char} (h : (Datum.run run).Valid) {markup : List UInt8}
    (hmarkup : markup.head? = some Byte.less) :
    readFrom source ⟨names, ⟨parent :: outer, root⟩⟩ (encodeChars run ++ markup) =
      readFrom source ⟨names,
        ⟨{ parent with text := parent.text ++ String.ofList (Datum.run run).kept } :: outer,
          root⟩⟩ markup := by
  obtain ⟨hless, cs, hresolves⟩ := h
  obtain ⟨more, rfl⟩ := List.head?_eq_some_iff.mp hmarkup
  exact readFrom_run source hless hresolves names parent outer root more

/-- A character data section adds its content to the text of the element around it. -/
theorem readFrom_cdata {content : List Char} (h : (Datum.cdata content).Valid)
    (rest : List UInt8) :
    readFrom source ⟨names, ⟨parent :: outer, root⟩⟩
        (cdataSection (encodeChars content) ++ rest) =
      readFrom source ⟨names,
        ⟨{ parent with text := parent.text ++ String.ofList (Datum.cdata content).kept } :: outer,
          root⟩⟩ rest := by
  rw [readFrom_cdataSection source h, Text.Utf8.decodeLenient_encodeChars]
  rfl

end Content

mutual

/-- Reading a written element comes to adding it to the tree. -/
theorem readFrom_node (names : List (List UInt8)) (builder : Builder) :
    ∀ {node : WrittenNode}, node.Valid → ∀ rest,
      readFrom source ⟨names, builder⟩ (node.bytes ++ rest) =
        readFrom source ⟨names, builder.add node.element⟩ rest
  | .emptyElement head tag, hvalid, rest => by
    rw [WrittenNode.Valid] at hvalid
    obtain ⟨htag, hhead⟩ := hvalid
    have hnext := htag.next? source rest
    rw [tagMarkup, if_pos List.getLast?_concat, List.dropLast_concat] at hnext
    have hbytes : (WrittenNode.emptyElement head tag).bytes ++ rest =
        Byte.less :: (tag ++ [Byte.slash]) ++ Byte.greater :: rest := by
      simp [WrittenNode.bytes]
    rw [hbytes]
    refine readFrom_of_next? source hnext ?_
    rw [Progress.read, hhead]
    rfl
  | .tags head tag content closing, hvalid, rest => by
    rw [WrittenNode.Valid] at hvalid
    obtain ⟨htag, hslash, hhead, hcontent, hclosing⟩ := hvalid
    obtain ⟨hchildren, htext⟩ := Tag.eq_of_element hhead
    have hopening := htag.next? source (content.bytes ++ Byte.less ::
      (Byte.slash :: closing ++ Byte.greater :: rest))
    rw [tagMarkup, if_neg hslash] at hopening
    have hbegin : Progress.read ⟨names, builder⟩ (.opening (Tag.ofContent tag)) =
        .ok ⟨(Tag.ofContent tag).name :: names, ⟨head :: builder.opened, builder.root⟩⟩ := by
      rw [Progress.read, hhead]
      rfl
    have hend : Progress.read ⟨(Tag.ofContent tag).name :: names,
        ⟨{ head with
            children := head.children ++ content.children
            text := head.text ++ String.ofList (content.data.flatMap Datum.kept) } ::
          builder.opened, builder.root⟩⟩ (.closing (Tag.ofContent tag).name) =
          .ok ⟨names, builder.add (WrittenNode.tags head tag content closing).element⟩ := by
      rw [hchildren, htext, List.nil_append, String.empty_append, Progress.read]
      exact if_pos rfl
    have hbytes : (WrittenNode.tags head tag content closing).bytes ++ rest =
        Byte.less :: tag ++ Byte.greater :: (content.bytes ++ Byte.less ::
          (Byte.slash :: closing ++ Byte.greater :: rest)) := by
      simp [WrittenNode.bytes]
    rw [hbytes]
    calc
      _ = _ := readFrom_of_next? source hopening hbegin
      _ = _ := readFrom_content _ _ _ _ hcontent _
      _ = _ := readFrom_of_next? source (hclosing.next? source rest) hend

/-- Reading the content of an element adds its children to the element, and to its text what is kept
of the parts that the content divides it into. -/
theorem readFrom_content (names : List (List UInt8)) (parent : Element) (outer : List Element)
    (root : Option Element) :
    ∀ {content : WrittenContent}, content.Valid → ∀ rest,
      readFrom source ⟨names, ⟨parent :: outer, root⟩⟩ (content.bytes ++ Byte.less :: rest) =
        readFrom source ⟨names,
          ⟨{ parent with
              children := parent.children ++ content.children
              text := parent.text ++ String.ofList (content.data.flatMap Datum.kept) } :: outer,
            root⟩⟩ (Byte.less :: rest)
  | .last run, hvalid, rest => by
    rw [WrittenContent.Valid] at hvalid
    rw [WrittenContent.bytes, readFrom_datum source hvalid rfl]
    simp [WrittenContent.children, WrittenContent.data]
  | .aside run aside more, hvalid, rest => by
    rw [WrittenContent.Valid] at hvalid
    obtain ⟨hrun, haside, hmore⟩ := hvalid
    rw [WrittenContent.bytes, List.append_assoc, List.append_assoc,
      readFrom_datum source hrun (aside.head?_bytes _),
      readFrom_of_next? source (Aside.next? source haside _) rfl, readFrom_content _ _ _ _ hmore]
    simp [WrittenContent.children, WrittenContent.data, String.append_assoc]
  | .cdata run content more, hvalid, rest => by
    rw [WrittenContent.Valid] at hvalid
    obtain ⟨hrun, hcontent, hmore⟩ := hvalid
    rw [WrittenContent.bytes, List.append_assoc, List.append_assoc, readFrom_datum source hrun rfl,
      readFrom_cdata source hcontent, readFrom_content _ _ _ _ hmore]
    simp [WrittenContent.children, WrittenContent.data, String.append_assoc]
  | .child run node more, hvalid, rest => by
    rw [WrittenContent.Valid] at hvalid
    obtain ⟨hrun, hnode, hmore⟩ := hvalid
    rw [WrittenContent.bytes, List.append_assoc, List.append_assoc,
      readFrom_datum source hrun (node.head?_bytes _), readFrom_node _ _ hnode, Builder.add,
      readFrom_content _ _ _ _ hmore]
    simp [WrittenContent.children, WrittenContent.data, String.append_assoc]

end

end Reading

mutual

/-- The elements of the tree that is written are those that are written, in order. -/
theorem WrittenNode.map_outline (depth : Nat) : ∀ {node : WrittenNode}, node.Valid →
    (node.element.outline depth).map (·.2) = node.nodes.map WrittenNode.element
  | .emptyElement head tag, hvalid => by
    rw [WrittenNode.Valid] at hvalid
    obtain ⟨hchildren, -⟩ := Tag.eq_of_element hvalid.2
    obtain ⟨name, attributes, children, text⟩ := head
    obtain rfl : children = [] := hchildren
    rfl
  | .tags head tag content closing, hvalid => by
    rw [WrittenNode.Valid] at hvalid
    rw [WrittenNode.element, Element.outline, List.map_cons, WrittenNode.nodes, List.map_cons,
      WrittenContent.map_outline (depth + 1) hvalid.2.2.2.1]
    rfl

/-- The elements below an element are those that are written in its content, in order. -/
theorem WrittenContent.map_outline (depth : Nat) : ∀ {content : WrittenContent}, content.Valid →
    (Element.outlineAmong depth content.children).map (·.2) =
      content.nodes.map WrittenNode.element
  | .last _, _ => rfl
  | .aside _ _ _, hvalid => by
    rw [WrittenContent.Valid] at hvalid
    rw [WrittenContent.children, WrittenContent.nodes, WrittenContent.map_outline depth hvalid.2.2]
  | .cdata _ _ _, hvalid => by
    rw [WrittenContent.Valid] at hvalid
    rw [WrittenContent.children, WrittenContent.nodes, WrittenContent.map_outline depth hvalid.2.2]
  | .child _ node rest, hvalid => by
    rw [WrittenContent.Valid] at hvalid
    rw [WrittenContent.children, Element.outlineAmong, List.map_append, WrittenContent.nodes,
      List.map_append, WrittenNode.map_outline depth hvalid.2.1,
      WrittenContent.map_outline depth hvalid.2.2]

end

mutual

/-- The elements inside of an element are written as they have to be when it is. -/
theorem WrittenNode.valid_of_mem : ∀ {node : WrittenNode}, node.Valid →
    ∀ inner ∈ node.nodes, inner.Valid
  | .emptyElement head tag, hvalid, inner, hinner => List.mem_singleton.mp hinner ▸ hvalid
  | .tags head tag content closing, hvalid, inner, hinner => by
    rcases List.mem_cons.mp hinner with rfl | hinner
    · exact hvalid
    · rw [WrittenNode.Valid] at hvalid
      exact WrittenContent.valid_of_mem hvalid.2.2.2.1 inner hinner

/-- The elements in a content are written as they have to be when the content is. -/
theorem WrittenContent.valid_of_mem : ∀ {content : WrittenContent}, content.Valid →
    ∀ inner ∈ content.nodes, inner.Valid
  | .last _, _, _, hinner => nomatch hinner
  | .aside _ _ _, hvalid, inner, hinner => by
    rw [WrittenContent.Valid] at hvalid
    exact WrittenContent.valid_of_mem hvalid.2.2 inner hinner
  | .cdata _ _ _, hvalid, inner, hinner => by
    rw [WrittenContent.Valid] at hvalid
    exact WrittenContent.valid_of_mem hvalid.2.2 inner hinner
  | .child _ _ _, hvalid, inner, hinner => by
    rw [WrittenContent.Valid] at hvalid
    rcases List.mem_append.mp hinner with hinner | hinner
    · exact WrittenNode.valid_of_mem hvalid.2.1 inner hinner
    · exact WrittenContent.valid_of_mem hvalid.2.2 inner hinner

end

/-- The parts of a text are written as they have to be when the content is. -/
theorem WrittenContent.valid_of_mem_data : ∀ {content : WrittenContent}, content.Valid →
    ∀ part ∈ content.data, part.Valid
  | .last _, hvalid, part, hpart => by
    rw [WrittenContent.Valid] at hvalid
    exact List.mem_singleton.mp hpart ▸ hvalid
  | .aside _ _ _, hvalid, part, hpart => by
    rw [WrittenContent.Valid] at hvalid
    rcases List.mem_cons.mp hpart with rfl | hpart
    · exact hvalid.1
    · exact valid_of_mem_data hvalid.2.2 part hpart
  | .cdata _ _ _, hvalid, part, hpart => by
    rw [WrittenContent.Valid] at hvalid
    rcases List.mem_cons.mp hpart with rfl | hpart
    · exact hvalid.1
    · rcases List.mem_cons.mp hpart with rfl | hpart
      · exact hvalid.2.1
      · exact valid_of_mem_data hvalid.2.2 part hpart
  | .child _ _ _, hvalid, part, hpart => by
    rw [WrittenContent.Valid] at hvalid
    rcases List.mem_cons.mp hpart with rfl | hpart
    · exact hvalid.1
    · exact valid_of_mem_data hvalid.2.2 part hpart

namespace WrittenNode

variable {node : WrittenNode}

/-- The parts of the text of an element are written as they have to be when it is. -/
theorem valid_of_mem_data (h : node.Valid) : ∀ part ∈ node.data, part.Valid := by
  cases node with
  | emptyElement => exact fun _ hpart => nomatch hpart
  | tags =>
    rw [WrittenNode.Valid] at h
    exact WrittenContent.valid_of_mem_data h.2.2.2.1

/-- The text of an element is what is kept of its parts. -/
theorem text_element (h : node.Valid) :
    node.element.text = String.ofList (node.data.flatMap Datum.kept) := by
  cases node with
  | emptyElement =>
    rw [WrittenNode.Valid] at h
    exact (Tag.eq_of_element h.2).2
  | tags => rfl

end WrittenNode

namespace Datum

/-- What a part loses are blanks. -/
theorem isBlank_of_lost {part : Datum} {c : Char} (h : (c, false) ∈ part.marked) :
    Text.isBlank c = true := by
  cases part with
  | run written =>
    simp only [marked, List.mem_append, List.mem_map, Prod.mk.injEq] at h
    rcases h with (⟨d, hd, rfl, -⟩ | ⟨_, _, -, hmark⟩) | ⟨d, hd, rfl, -⟩
    · exact isBlank_of_isRunSpace (of_mem_leadingOf d hd)
    · cases hmark
    · exact isBlank_of_isRunSpace (of_mem_trailingOf d hd)
  | cdata content => simp [marked] at h

/-- The marks tell what is kept of a part. -/
theorem keptOf_marked (part : Datum) : keptOf part.marked = part.kept := by
  cases part with
  | run written => simp [marked, kept, Text.keptOf_append, Text.keptOf_map]
  | cdata content => exact (Text.keptOf_map content).2

/-- All characters together are the whole text of a part. -/
theorem wholeOf_marked {part : Datum} (h : part.Valid) : wholeOf part.marked = part.whole := by
  cases part with
  | run written =>
    obtain ⟨-, cs, hresolves⟩ := h
    obtain ⟨core, hcore, rfl⟩ := exists_resolves_core hresolves
    rw [whole, resolved_eq hresolves, marked, resolved_eq hcore]
    simp [Text.wholeOf_append, Text.wholeOf_map]
  | cdata content => exact Text.wholeOf_map true content

/-- What is kept of parts is what is kept of each. -/
theorem keptOf_flatMap_marked (parts : List Datum) :
    keptOf (parts.flatMap marked) = parts.flatMap kept := by
  induction parts with
  | nil => rfl
  | cons part parts ih =>
    rw [List.flatMap_cons, Text.keptOf_append, keptOf_marked, ih, List.flatMap_cons]

/-- The whole text of parts is that of each. -/
theorem wholeOf_flatMap_marked {parts : List Datum} (h : ∀ part ∈ parts, part.Valid) :
    wholeOf (parts.flatMap marked) = parts.flatMap whole := by
  induction parts with
  | nil => rfl
  | cons part parts ih =>
    rw [List.forall_mem_cons] at h
    rw [List.flatMap_cons, Text.wholeOf_append, wholeOf_marked h.1, ih h.2, List.flatMap_cons]

end Datum

/-- The content of an element is its text when that is trimmed. -/
theorem Element.content?_eq (element : Element) :
    element.content? = trimmed? element.text.toList := by
  rw [content?, trimmed?, Text.trim]
  by_cases hnil : Text.trimChars element.text.toList = []
  · simp [hnil]
  · simp [hnil]

/-- However its text is divided, an element is read as it is written, wherever it stands, and with all
elements inside of it. The content of each is what is left of its runs, when each of them has lost
the spaces at its own ends, and of its character data sections, in order and trimmed. This is the
content of its whole text exactly when no space that is lost stands between two characters that are
no blanks. -/
theorem readFrom_divided {node : WrittenNode} (h : node.Valid) :
    (∀ source names builder rest,
      readFrom source ⟨names, builder⟩ (node.bytes ++ rest) =
        readFrom source ⟨names, builder.add node.element⟩ rest) ∧
    (∀ before after, Gap before → Gap after →
      parse (before ++ node.bytes ++ after) = .ok node.element) ∧
    (node.element.outline 0).map (·.2) = node.nodes.map WrittenNode.element ∧
    ∀ inner ∈ node.nodes,
      inner.element.content? = trimmed? (inner.data.flatMap Datum.kept) ∧
      (inner.element.content? = trimmed? (inner.data.flatMap Datum.whole) ↔
        ∀ before c after, inner.data.flatMap Datum.marked = before ++ (c, false) :: after →
          Blank (wholeOf before) ∨ Blank (wholeOf after)) := by
  have hread (source : Source) (names : List (List UInt8)) (builder : Builder) (rest : List UInt8) :=
    readFrom_node source names builder h rest
  refine ⟨hread, fun before after hbefore hafter => ?_, WrittenNode.map_outline 0 h,
    fun inner hinner => ?_⟩
  · refine parse_gaps hbefore hafter ?_ fun source rest => hread source [] {} rest
    rw [← List.append_nil node.bytes]
    exact node.head?_bytes []
  · have hvalid := WrittenNode.valid_of_mem h inner hinner
    have hcontent : inner.element.content? = trimmed? (inner.data.flatMap Datum.kept) := by
      rw [Element.content?_eq, WrittenNode.text_element hvalid, String.toList_ofList]
    refine ⟨hcontent, ?_⟩
    have hlost : ∀ c, (c, false) ∈ inner.data.flatMap Datum.marked → Text.isBlank c = true := by
      intro c hc
      obtain ⟨part, -, hpart⟩ := List.mem_flatMap.mp hc
      exact Datum.isBlank_of_lost hpart
    rw [hcontent, Text.trimmed?_inj, ← Datum.keptOf_flatMap_marked,
      ← Datum.wholeOf_flatMap_marked (WrittenNode.valid_of_mem_data hvalid)]
    exact Text.trimChars_keptOf_iff hlost

/-- An element with a comment, a child and a character data section in its text. -/
def dividedNode : WrittenNode :=
  .tags { name := "a" } (encode "a")
    (.aside "x ".toList (.comment (encode " c "))
      (.child "&amp;".toList (.emptyElement { name := "b" } (encode "b"))
        (.cdata [] " y".toList (.last []))))
    (encode "a")

/-- How the element is written. -/
def dividedDocument : String :=
  "<a>x <!-- c -->&amp;<b/><![CDATA[ y]]></a>"

/-- The divided document is written by its node. -/
theorem bytes_dividedNode : dividedNode.bytes = encode dividedDocument := by decide +kernel

/-- The node of the divided document is valid. -/
theorem valid_dividedNode : dividedNode.Valid := by
  have hrun {s t : String} (hless : '<' ∉ s.toList) (h : resolve s = .ok t) :
      (Datum.run s.toList).Valid := ⟨hless, t.toList, resolve_eq_ok_iff.mp h⟩
  have hempty : (Datum.run []).Valid := ⟨List.not_mem_nil, [], .nil⟩
  have htag : IsTag (encode "a") := ⟨by rintro _ ⟨⟩; decide, by decide +kernel⟩
  have hclosing : Closes (encode "a") (encode "a") := ⟨by decide +kernel, by with_unfolding_all rfl⟩
  have hchild : (WrittenNode.emptyElement { name := "b" } (encode "b")).Valid := by
    rw [WrittenNode.Valid]
    exact ⟨⟨by rintro _ ⟨⟩; decide, by decide +kernel⟩, by with_unfolding_all rfl⟩
  have hsection : (Datum.cdata " y".toList).Valid := by
    rw [Datum.Valid]
    decide +kernel
  have hcomment : (Aside.comment (encode " c ")).Valid := by
    rw [Aside.Valid]
    decide +kernel
  simp only [dividedNode, WrittenNode.Valid, WrittenContent.Valid]
  refine ⟨htag, by decide +kernel, by with_unfolding_all rfl, ?_, hclosing⟩
  exact ⟨hrun (t := "x ") (by decide) (by decide +kernel), hcomment,
    hrun (t := "&") (by decide) (by decide +kernel), hchild, hempty, hsection, hempty⟩

/-- A space before a comment is lost, though the text goes on behind it. -/
theorem space_lost :
    parse (encode dividedDocument) =
      .ok { name := "a", children := [{ name := "b" }], text := "x& y" } ∧
    trimmed? (dividedNode.data.flatMap Datum.whole) = some "x & y" ∧
    ¬ ∀ (node : WrittenNode) (root : Element), node.Valid → parse node.bytes = .ok root →
      root.content? = trimmed? (node.data.flatMap Datum.whole) := by
  have hparse : parse (encode dividedDocument) =
      .ok { name := "a", children := [{ name := "b" }], text := "x& y" } := by
    with_unfolding_all rfl
  have hwhole : trimmed? (dividedNode.data.flatMap Datum.whole) = some "x & y" := by
    decide +kernel
  refine ⟨hparse, hwhole, fun hall => ?_⟩
  have hcontent := hall dividedNode _ valid_dividedNode (bytes_dividedNode ▸ hparse)
  rw [hwhole] at hcontent
  exact absurd hcontent (by decide +kernel)

/-- The element is read as it is written, without that space. -/
theorem readFrom_dividedNode :
    dividedNode.Valid ∧ parse (encode dividedDocument) = .ok dividedNode.element ∧
    dividedNode.element.content? = some "x& y" := by
  obtain ⟨-, hparse, -, htexts⟩ := readFrom_divided valid_dividedNode
  refine ⟨valid_dividedNode, ?_, ?_⟩
  · have hdocument := hparse [] [] .nil .nil
    rwa [List.nil_append, List.append_nil, bytes_dividedNode] at hdocument
  · rw [(htexts dividedNode List.mem_cons_self).1]
    decide +kernel

end Carta.Xml
