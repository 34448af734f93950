import Carta.Xml.Attribute

/-!
# Markup

A document is a sequence of tags, runs of text, character data sections and asides: comments,
processing instructions and document type declarations, which carry nothing that is kept. What
markup begins at `<` is decided by the next byte or two; where it ends depends on its kind. A text
run stands between two markups, without the spaces at its ends, and there is none where only
spaces stand.

Reading markup always uses up bytes, so a document is read in finitely many steps.
-/

namespace Carta.Xml

/-- The bytes of a document, and what follows them. -/
structure Source where
  bytes : List UInt8
  /-- Why reading on after the bytes fails, unless the document ends there. -/
  failure : Option String := none

/-- What a document consists of. -/
inductive Markup
  | opening (tag : Tag)
  | emptyElement (tag : Tag)
  | closing (name : List UInt8)
  | text (bytes : List UInt8)
  | cdata (bytes : List UInt8)
  | aside
  deriving Repr, DecidableEq

/-- The fault where the bytes run out too early. -/
def Source.outOfBytes (source : Source) (fault : SyntaxFault) : Fault :=
  match source.failure with
  | some reason => .input reason
  | none => .syntaxFault fault

/-- A tag ends outside quoted values. The state is the quote that is open. -/
def tagExtent : Extent (Option UInt8) where
  delimiter := Byte.greater
  advance openQuote b :=
    match openQuote with
    | none => if Byte.isQuote b then some b else none
    | some q => if b = q then none else some q
  ends openQuote := openQuote.isNone

/-- A processing instruction ends after a question mark. The state tells whether one was read. -/
def instructionExtent : Extent Bool where
  delimiter := Byte.greater
  advance _ b := b = Byte.question
  ends asked := asked

/-- A comment ends after two dashes, which are not those that begin it. The state holds the bytes
after `<`, the latest first. -/
def commentExtent : Extent (List UInt8) where
  delimiter := Byte.greater
  advance read b := b :: read
  ends read := 5 ≤ read.length && read.take 2 = [Byte.dash, Byte.dash]

/-- A character data section ends after two closing brackets. The state holds the bytes after `<`,
the latest first. -/
def cdataExtent : Extent (List UInt8) where
  delimiter := Byte.greater
  advance read b := b :: read
  ends read := read.take 2 = [Byte.closingBracket, Byte.closingBracket]

/-- A document type declaration ends where the angle brackets in it are balanced. The state is the
number of those that are open. -/
def doctypeExtent : Extent Nat where
  delimiter := Byte.greater
  advance opened b :=
    if b = Byte.less then opened + 1 else if b = Byte.greater then opened - 1 else opened
  ends opened := opened = 0

/-- The markup in a stretch, when the bytes begin with one. -/
def delimitedMarkup {State : Type} (source : Source) (fault : SyntaxFault) (extent : Extent State)
    (state : State) (bytes : List UInt8) (markup : List UInt8 → Except Fault Markup) :
    Except Fault (Markup × List UInt8) :=
  match extent.split? state bytes with
  | none => .error (source.outOfBytes fault)
  | some (stretch, rest) => (markup stretch).map (·, rest)

/-- A comment, given what follows `<!`. -/
def commentMarkup (content : List UInt8) : Except Fault Markup :=
  if content.take 2 = [Byte.dash, Byte.dash] then .ok .aside else .error (.syntaxFault .comment)

/-- A character data section, given what follows `<!`. -/
def cdataMarkup (content : List UInt8) : Except Fault Markup :=
  if content.take 7 = [0x5B, 0x43, 0x44, 0x41, 0x54, 0x41, 0x5B] then
    .ok (.cdata ((content.drop 7).take (content.length - 9)))
  else .error (.syntaxFault .cdata)

/-- The byte of a capital letter for that of a small one. -/
def capital (b : UInt8) : UInt8 :=
  if 0x61 ≤ b ∧ b ≤ 0x7A then b - 0x20 else b

/-- A document type declaration, given what follows `<!`. It has to name a type. -/
def doctypeMarkup (content : List UInt8) : Except Fault Markup :=
  if (content.take 7).map capital = [0x44, 0x4F, 0x43, 0x54, 0x59, 0x50, 0x45] then
    if (content.drop 7).all Byte.isSpace then .error (.form .namelessDoctype) else .ok .aside
  else .error (.syntaxFault .doctype)

/-- The markup that begins with `<!`, given the bytes after that. -/
def declarationMarkup (source : Source) (bytes : List UInt8) :
    Except Fault (Markup × List UInt8) :=
  match bytes.head? with
  | none => .error (source.outOfBytes .unknownMarkup)
  | some b =>
    if b = Byte.bracket then
      delimitedMarkup source .cdata cdataExtent [Byte.bang] bytes cdataMarkup
    else if b = Byte.dash then
      delimitedMarkup source .comment commentExtent [Byte.bang] bytes commentMarkup
    else if b = 0x44 || b = 0x64 then
      delimitedMarkup source .doctype doctypeExtent 0 bytes doctypeMarkup
    else .error (.syntaxFault .unknownMarkup)

/-- A closing tag, given what follows `</`: its name goes up to the spaces at the end. -/
def closingMarkup (content : List UInt8) : Except Fault Markup :=
  .ok (.closing (if content.all Byte.isSpace then content else Byte.trimEnd content))

/-- A processing instruction, given what follows `<?`. Its question marks are two. -/
def instructionMarkup (content : List UInt8) : Except Fault Markup :=
  if content.isEmpty then .error (.syntaxFault .instruction) else .ok .aside

/-- An opening tag, or an empty-element tag when a slash ends it. -/
def tagMarkup (content : List UInt8) : Except Fault Markup :=
  if content.getLast? = some Byte.slash then .ok (.emptyElement (Tag.ofContent content.dropLast))
  else .ok (.opening (Tag.ofContent content))

/-- The markup that begins with `<`, given the bytes after that. -/
def markupAfterLess (source : Source) : List UInt8 → Except Fault (Markup × List UInt8)
  | [] => .error (source.outOfBytes .tag)
  | b :: bytes =>
    if b = Byte.bang then declarationMarkup source bytes
    else if b = Byte.slash then
      delimitedMarkup source .tag tagExtent none bytes closingMarkup
    else if b = Byte.question then
      delimitedMarkup source .instruction instructionExtent true bytes instructionMarkup
    else delimitedMarkup source .tag tagExtent none (b :: bytes) tagMarkup

/-- The next markup of a source that ends with the given bytes, and the bytes after it. -/
def Markup.next? (source : Source) (bytes : List UInt8) :
    Except Fault (Option (Markup × List UInt8)) :=
  match bytes.dropWhile Byte.isSpace with
  | [] =>
    match source.failure with
    | some reason => .error (.input reason)
    | none => .ok none
  | b :: more =>
    if b = Byte.less then (markupAfterLess source more).map some
    else
      let run := more.takeWhile (· != Byte.less)
      let rest := more.dropWhile (· != Byte.less)
      match rest.isEmpty, source.failure with
      | true, some reason => .error (.input reason)
      | _, _ => .ok (some (.text (Byte.trimEnd (b :: run)), rest))

/-- Reading a delimited markup uses up bytes. -/
private theorem length_of_delimitedMarkup {State : Type} {source : Source} {fault : SyntaxFault}
    {extent : Extent State} {state : State} {bytes rest : List UInt8}
    {markup : List UInt8 → Except Fault Markup} {found : Markup}
    (h : delimitedMarkup source fault extent state bytes markup = .ok (found, rest)) :
    rest.length < bytes.length := by
  rw [delimitedMarkup] at h
  split at h
  next => simp at h
  next stretch rest' hs =>
    cases hm : markup stretch with
    | error e => simp [hm, Except.map] at h
    | ok m =>
      obtain ⟨-, rfl⟩ : m = found ∧ rest' = rest := by simpa [hm, Except.map] using h
      exact Extent.length_of_split? hs

/-- Reading a markup after its less-than sign uses up bytes. -/
private theorem length_of_markupAfterLess {source : Source} {bytes rest : List UInt8}
    {found : Markup} (h : markupAfterLess source bytes = .ok (found, rest)) :
    rest.length < bytes.length := by
  cases bytes with
  | nil => simp [markupAfterLess] at h
  | cons b bytes =>
    simp only [markupAfterLess, declarationMarkup] at h
    simp only [List.length_cons]
    split at h
    next =>
      split at h
      next => simp at h
      next =>
        split at h
        next => exact Nat.lt_succ_of_lt (length_of_delimitedMarkup h)
        next =>
          split at h
          next => exact Nat.lt_succ_of_lt (length_of_delimitedMarkup h)
          next =>
            split at h
            next => exact Nat.lt_succ_of_lt (length_of_delimitedMarkup h)
            next => simp at h
    next =>
      split at h
      next => exact Nat.lt_succ_of_lt (length_of_delimitedMarkup h)
      next =>
        split at h
        next => exact Nat.lt_succ_of_lt (length_of_delimitedMarkup h)
        next => exact length_of_delimitedMarkup h

/-- Reading markup uses up bytes. -/
theorem Markup.length_of_next? {source : Source} {bytes rest : List UInt8} {found : Markup}
    (h : Markup.next? source bytes = .ok (some (found, rest))) : rest.length < bytes.length := by
  have hb : (bytes.dropWhile Byte.isSpace).length ≤ bytes.length :=
    (List.dropWhile_suffix _).length_le
  rw [Markup.next?] at h
  split at h
  next => split at h <;> simp at h
  next b more hd =>
    rw [hd] at hb
    simp only [List.length_cons] at hb
    split at h
    next =>
      cases hm : markupAfterLess source more with
      | error e => simp [hm, Except.map] at h
      | ok result =>
        obtain rfl : result = (found, rest) := by simpa [hm, Except.map] using h
        have := length_of_markupAfterLess hm
        omega
    next =>
      have hr : (more.dropWhile (· != Byte.less)).length ≤ more.length :=
        (List.dropWhile_suffix _).length_le
      dsimp only at h
      split at h
      next => simp at h
      next =>
        obtain ⟨-, rfl⟩ : _ ∧ more.dropWhile (· != Byte.less) = rest := by simpa using h
        omega

end Carta.Xml
