/-!
Generated source units and the files they belong into.
-/

namespace ConstructorSynthesis

structure SourceUnit where
  name : String
  source : String
deriving DecidableEq, Repr, Inhabited

def SourceUnit.fileName (u : SourceUnit) : String := u.name ++ ".g.cs"

/-- The first file name that belongs to two units, behind the names `seen`. -/
def repeatedFileName? (seen : List String) : List SourceUnit → Option String
  | [] => none
  | u :: us =>
      if seen.contains u.fileName then some u.fileName
      else repeatedFileName? (u.fileName :: seen) us

end ConstructorSynthesis
