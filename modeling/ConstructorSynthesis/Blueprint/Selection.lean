import ConstructorSynthesis.Blueprint.Target

/-!
The types of a catalog that ask for a constructor. A type asks by carrying one
of two attributes itself; attributes of its base do not count. Of several
declarations of a type that ask, the first one counts.
-/

namespace ConstructorSynthesis

def requestNames : List String := ["AutoConstruct", "AutoConstructAttribute"]

def Declaration.requestsConstructor (d : Declaration) : Bool := requestNames.any d.hasAttribute

/-- The first declaration of each type that is not among `seen`. -/
def firstOfEachId (seen : List TypeId) : List Declaration → List Declaration
  | [] => []
  | d :: ds =>
      if seen.contains d.id then firstOfEachId seen ds
      else d :: firstOfEachId (d.id :: seen) ds

/-- The targets of a catalog in the order of their declarations. -/
def Catalog.targets (c : Catalog) : List Target :=
  (firstOfEachId [] (c.toList.filter Declaration.requestsConstructor)).map (Target.ofDeclaration c)

end ConstructorSynthesis
