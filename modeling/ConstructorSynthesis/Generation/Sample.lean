import ConstructorSynthesis.Declaration.Catalog

/-!
Families of declarations for measuring: many types side by side, and one chain
in which each type derives from the one before it.
-/

namespace ConstructorSynthesis.Sample

def sampleField (index : Nat) : Field where
  name := "_f" ++ Nat.repr index
  typeName := "int"
  isReadonly := true
  isStatic := false
  isImplicit := false
  hasInitializer := false

def sampleType (name : String) (base : Option TypeId) (fields : Nat) : Declaration where
  name := name
  kind := .classType
  inNamespace := some "Bench"
  enclosing := []
  typeParams := []
  base := base
  attributes := ["AutoConstruct"]
  fields := (List.range fields).map sampleField
  constructors := []

def flatName (index : Nat) : String := "Wide" ++ Nat.repr index

def chainName (index : Nat) : String := "Deep" ++ Nat.repr index

/-- Types without a base. -/
def flatCatalog (count fields : Nat) : Catalog :=
  .ofList ((List.range count).map fun i => sampleType (flatName i) none fields)

/-- The base of a type in the chain. -/
def chainBase : Nat → Option TypeId
  | 0 => none
  | i + 1 => some ⟨"Bench." ++ chainName i⟩

def chainCatalog (depth fields : Nat) : Catalog :=
  .ofList ((List.range depth).map fun i => sampleType (chainName i) (chainBase i) fields)

def fieldText (index : Nat) : String :=
  "      <field name=\"_f" ++ Nat.repr index ++ "\" type=\"int\" readonly=\"true\"/>\n"

def typeText (fields index : Nat) : String :=
  "    <type name=\"" ++ flatName index ++ "\" kind=\"class\">\n"
    ++ "      <attribute name=\"AutoConstruct\"/>\n"
    ++ String.join ((List.range fields).map fieldText)
    ++ "    </type>\n"

/-- The document that declares the types without a base. -/
def flatDocument (count fields : Nat) : String :=
  "<declarations>\n  <namespace name=\"Bench\">\n"
    ++ String.join ((List.range count).map (typeText fields))
    ++ "  </namespace>\n</declarations>\n"

end ConstructorSynthesis.Sample
