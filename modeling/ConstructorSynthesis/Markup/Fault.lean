/-!
What can be wrong with a document as markup, before its elements are given a
meaning. A construct that is not finished is a syntax fault; constructs that are
finished but do not fit together make the document ill-formed.
-/

namespace ConstructorSynthesis.Markup

inductive SyntaxFault where
  | unknownMarkup
  | instructionNotClosed
  | declarationNotClosed
  | commentNotClosed
  | doctypeNotClosed
  | cdataNotClosed
  | tagNotClosed
  | valueNotClosed (quote : Char)
deriving DecidableEq, Repr

inductive FormFault where
  | unnamedDoctype
  | closeWithoutOpen (name : String)
  | closeMismatch (opened found : String)
  | referenceNotClosed
deriving DecidableEq, Repr

inductive Fault where
  | malformed (fault : SyntaxFault)
  | illFormed (fault : FormFault)
deriving DecidableEq, Repr

/-- A construct that begins but does not end. -/
def notClosed (construct terminator : String) : String :=
  construct ++ " not closed: `" ++ terminator ++ "` not found before end of input"

def SyntaxFault.message : SyntaxFault → String
  | .unknownMarkup => "unknown or missed symbol in markup"
  | .instructionNotClosed => notClosed "processing instruction" "?>"
  | .declarationNotClosed => notClosed "XML declaration" "?>"
  | .commentNotClosed => notClosed "comment" "-->"
  | .doctypeNotClosed => notClosed "DOCTYPE" ">"
  | .cdataNotClosed => notClosed "CDATA" "]]>"
  | .tagNotClosed => notClosed "tag" ">"
  | .valueNotClosed quote => notClosed "attribute value" (String.singleton quote)

def FormFault.message : FormFault → String
  | .unnamedDoctype =>
      "`<!DOCTYPE>` declaration does not contain a name of a document type"
  | .closeWithoutOpen name => "close tag `</" ++ name ++ ">` does not match any open tag"
  | .closeMismatch opened found =>
      "expected `</" ++ opened ++ ">`, but `</" ++ found ++ ">` was found"
  | .referenceNotClosed => notClosed "entity or character reference" ";"

/-- The text of the fault without the class it belongs to. -/
def Fault.detail : Fault → String
  | .malformed fault => fault.message
  | .illFormed fault => fault.message

def Fault.message : Fault → String
  | .malformed fault => "syntax error: " ++ fault.message
  | .illFormed fault => "ill-formed document: " ++ fault.message

end ConstructorSynthesis.Markup
