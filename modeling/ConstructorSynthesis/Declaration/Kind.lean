/-!
The kinds of declared type that can get a constructor, with the spellings under
which they are declared and the keyword under which they are printed.
-/

namespace ConstructorSynthesis

inductive Kind where
  | classType
  | structType
  | recordType
  | recordStruct
deriving DecidableEq, Repr, Inhabited

namespace Kind

def keyword : Kind → String
  | classType => "class"
  | structType => "struct"
  | recordType => "record"
  | recordStruct => "record struct"

/-- Reads a declared kind. Records have two spellings each; nothing is trimmed
and case matters. -/
def ofSpelling? : String → Option Kind
  | "class" => some classType
  | "struct" => some structType
  | "record" | "record class" => some recordType
  | "record struct" | "recordStruct" => some recordStruct
  | _ => none

theorem ofSpelling?_keyword (kind : Kind) : ofSpelling? kind.keyword = some kind := by
  cases kind <;> rfl

end Kind

end ConstructorSynthesis
