import ConstructorSynthesis.Source.Page

/-!
Settings of a generation run.
-/

namespace ConstructorSynthesis

structure Settings where
  indent : String
  /-- The first line of every unit, if there is one. -/
  header : Option String
  /-- The declarations have to be consistent. -/
  checks : Bool
deriving DecidableEq, Repr

namespace Settings

def default : Settings where
  indent := Page.defaultIndent
  header := some "// <auto-generated />"
  checks := true

instance : Inhabited Settings := ⟨default⟩

/-- An indent of so many blanks. -/
def blanks (width : Nat) : String := String.ofList (List.replicate width ' ')

end Settings

end ConstructorSynthesis
