import Carta.Text.Utf8
import Carta.Xml.Entity

/-!
# Faults of a document

A document fails to be read in one of these ways. Each fault has one wording; a fault that wraps
another names the other as its cause, so that a report can show the chain.
-/

namespace Carta.Xml

/-- Markup whose end is missing, by its kind, or whose kind is unknown. -/
inductive SyntaxFault
  | unknownMarkup
  | instruction
  | comment
  | doctype
  | cdata
  | tag
  deriving Repr, DecidableEq

/-- The wording of a missing end. -/
def SyntaxFault.message : SyntaxFault → String
  | .unknownMarkup => "unknown or missed symbol in markup"
  | .instruction =>
    "processing instruction or xml declaration not closed: `?>` not found before end of input"
  | .comment => "comment not closed: `-->` not found before end of input"
  | .doctype => "DOCTYPE not closed: `>` not found before end of input"
  | .cdata => "CDATA not closed: `]]>` not found before end of input"
  | .tag => "tag not closed: `>` not found before end of input"

/-- Complete markup that does not fit where it stands. -/
inductive FormFault
  | unmatchedClosing (found : String)
  | mismatchedClosing (expected found : String)
  | namelessDoctype
  deriving Repr, DecidableEq

/-- The wording of markup that does not fit. -/
def FormFault.message : FormFault → String
  | .unmatchedClosing found => s!"close tag `</{found}>` does not match any open tag"
  | .mismatchedClosing expected found => s!"expected `</{expected}>`, but `</{found}>` was found"
  | .namelessDoctype => "`<!DOCTYPE>` declaration does not contain a name of a document type"

/-- Why the attributes of a tag cannot be told apart. Positions count bytes from just after `<`. -/
inductive AttributeFault
  | expectedEquals (position : Nat)
  | expectedValue (position : Nat)
  | unquotedValue (position : Nat)
  | unclosedQuote (position : Nat) (quote : Char)
  | duplicated (position previous : Nat)
  deriving Repr, DecidableEq

/-- The wording of a fault among attributes. -/
def AttributeFault.message : AttributeFault → String
  | .expectedEquals position =>
    s!"position {position}: attribute key must be directly followed by `=` or space"
  | .expectedValue position => s!"position {position}: `=` must be followed by an attribute value"
  | .unquotedValue position =>
    s!"position {position}: attribute value must be enclosed in `\"` or `'`"
  | .unclosedQuote position quote =>
    s!"position {position}: missing closing quote `{quote}` in attribute value"
  | .duplicated position previous =>
    s!"position {position}: duplicated attribute, previous declaration at position {previous}"

/-- Why the markup or the text of a document cannot be read. -/
inductive Fault
  | syntaxFault (fault : SyntaxFault)
  | form (fault : FormFault)
  | encoding (fault : Text.Utf8.Fault)
  | entity (fault : EntityFault)
  /-- The input cannot be read any further. -/
  | input (reason : String)
  deriving Repr, DecidableEq

/-- The wording of a fault. -/
def Fault.message : Fault → String
  | .syntaxFault fault => "syntax error: " ++ fault.message
  | .form fault => "ill-formed document: " ++ fault.message
  | .encoding fault => "cannot decode input using UTF-8: " ++ fault.message
  | .entity fault => fault.message
  | .input reason => "I/O error: " ++ reason

/-- The wordings of a fault's causes, the nearest first. -/
def Fault.causes : Fault → List String
  | .syntaxFault fault => [fault.message]
  | .form fault => [fault.message]
  | .encoding fault => ["cannot decode input using UTF-8: " ++ fault.message, fault.message]
  | .entity (.number (.numeral fault)) =>
    [(EntityFault.number (.numeral fault)).message, fault.message, fault.message]
  | .entity (.number fault) => [(EntityFault.number fault).message, fault.message]
  | .entity fault => [fault.message]
  | .input reason => [reason]

/-- Why no document tree can be made of an input. -/
inductive Error
  | document (fault : Fault)
  | attributes (fault : AttributeFault)
  /-- No top-level element is closed. -/
  | noRoot
  deriving Repr, DecidableEq

/-- The wording of an error. -/
def Error.message : Error → String
  | .document fault => "XML error: " ++ fault.message
  | .attributes fault => "XML attribute error: " ++ fault.message
  | .noRoot => "project document has no root element"

/-- The wordings of an error's causes, the nearest first. -/
def Error.causes : Error → List String
  | .document fault => fault.message :: fault.causes
  | .attributes fault => [fault.message]
  | .noRoot => []

end Carta.Xml
