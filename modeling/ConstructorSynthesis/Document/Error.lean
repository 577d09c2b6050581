import ConstructorSynthesis.Files.Fault
import ConstructorSynthesis.Markup.Escape
import ConstructorSynthesis.Markup.Fault

/-!
Why a declaration document cannot be read.
-/

namespace ConstructorSynthesis.Document

inductive Error where
  | markup (fault : Markup.Fault)
  | escape (fault : Markup.EscapeFault)
  | missingAttribute (element key : String)
  | invalidAttribute (element key value : String)
  | badStructure (note : String)
  | file (fault : Files.Fault)
deriving DecidableEq, Repr

def Error.message : Error → String
  | .markup fault => "XML parsing error: " ++ fault.message
  | .escape fault => "XML escape error: " ++ fault.message
  | .missingAttribute element key =>
      "missing required attribute '" ++ key ++ "' on element '" ++ element ++ "'"
  | .invalidAttribute element key value =>
      "invalid value '" ++ value ++ "' for attribute '" ++ key ++ "' on element '" ++ element ++ "'"
  | .badStructure note => "invalid declaration structure: " ++ note
  | .file fault => "IO error: " ++ fault.message

/-- The text of the error, then the text of each fault inside it, from the
outside in. -/
def Error.causes (error : Error) : List String :=
  match error with
  | .markup fault => [error.message, fault.message, fault.detail]
  | .escape fault => error.message :: fault.causes
  | .file fault => [error.message, fault.message]
  | _ => [error.message]

end ConstructorSynthesis.Document
