import ConstructorSynthesis.Document.Error
import ConstructorSynthesis.Declaration.Consistency

/-!
Why a generation run gives no units, or why they cannot be written.
-/

namespace ConstructorSynthesis

inductive GenerationError where
  | document (error : Document.Error)
  | declarations (error : Inconsistency)
  | file (fault : Files.Fault)
  | cancelled
  | failed (note : String)
deriving DecidableEq, Repr

namespace GenerationError

def message : GenerationError → String
  | document error => "declaration parse error: " ++ error.message
  | declarations error => "declaration error: " ++ error.message
  | file fault => "IO error: " ++ fault.message
  | cancelled => "generation cancelled"
  | failed note => "generation error: " ++ note

def isCancelled (error : GenerationError) : Bool := error = cancelled

/-- The text of the error, then the text of each error inside it. -/
def causes (error : GenerationError) : List String :=
  match error with
  | document inner => error.message :: inner.causes
  | declarations inner => [error.message, inner.message]
  | file fault => [error.message, fault.message]
  | _ => [error.message]

end GenerationError

end ConstructorSynthesis
