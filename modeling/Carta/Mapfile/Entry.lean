/-!
# The text of a mapfile

A mapfile consists of entries: directives, comments, empty lines and blocks. A block begins with its
keyword, ends with `END` and holds entries of its own, which are indented by two more blanks. Each
entry but a block is one line.
-/

namespace Carta.Mapfile

/-- A word of a directive. -/
inductive Word
  | bare (text : String)
  | quoted (text : String)
  /-- A quoted text and as many blanks after it as it lacks of a width. -/
  | column (width : Nat) (text : String)
  deriving Repr, DecidableEq

/-- The written form of a word. -/
def Word.written : Word → String
  | .bare text => text
  | .quoted text => "'" ++ text ++ "'"
  | .column width text =>
    "'" ++ text ++ "'" ++ String.ofList (List.replicate (width - (text.length + 2)) ' ')

/-- A part of a mapfile. -/
inductive Entry
  | blank
  | comment (text : String)
  | directive (words : List Word)
  | block (keyword : String) (body : List Entry)
  deriving Repr, BEq

namespace Entry

/-- A line at a depth: two blanks for each block around it, and its text. -/
def indented (depth : Nat) (text : String) : String :=
  String.ofList (List.replicate (2 * depth) ' ') ++ text

mutual

/-- The lines of an entry at a depth. -/
def lines (depth : Nat) : Entry → List String
  | .blank => [""]
  | .comment text => [indented depth ("# " ++ text)]
  | .directive words => [indented depth (" ".intercalate (words.map Word.written))]
  | .block keyword body =>
    indented depth keyword :: (linesOfAll (depth + 1) body ++ [indented depth "END"])

/-- The lines of entries at a depth. -/
def linesOfAll (depth : Nat) : List Entry → List String
  | [] => []
  | entry :: rest => lines depth entry ++ linesOfAll depth rest

end

/-- The text of lines, each of them ended. -/
def textOfLines (lines : List String) : String :=
  String.join (lines.map (· ++ "\n"))

/-- The text of entries at a depth. -/
def text (depth : Nat) (entries : List Entry) : String :=
  textOfLines (linesOfAll depth entries)

/-- A directive with a word after its keyword. -/
def setting (keyword value : String) : Entry :=
  .directive [.bare keyword, .bare value]

/-- A directive with a quoted text after its keyword. -/
def quotedSetting (keyword value : String) : Entry :=
  .directive [.bare keyword, .quoted value]

/-- A directive of two quoted texts. -/
def pair (key value : String) : Entry :=
  .directive [.quoted key, .quoted value]

/-- The directive for a value that may be absent. -/
def optional (entry : String → Entry) : Option String → List Entry
  | some value => [entry value]
  | none => []

end Entry

end Carta.Mapfile
