import ConstructorSynthesis.Declaration.Catalog

/-!
Targets: types that a constructor is drawn up for, with everything that takes,
among it the constructors that the base declares. A target stands on its own;
its identity is carried and not computed.
-/

namespace ConstructorSynthesis

/-- A field of a target. One that the compiler made up cannot be named. -/
structure TargetField where
  name : String
  typeName : String
  isReadonly : Bool
  isStatic : Bool
  isNameable : Bool
  hasInitializer : Bool
deriving DecidableEq, Repr, Inhabited

namespace TargetField

def ofField (f : Field) : TargetField :=
  ⟨f.name, f.typeName, f.isReadonly, f.isStatic, !f.isImplicit, f.hasInitializer⟩

/-- The constructor has to assign this field. -/
def isAssigned (f : TargetField) : Bool :=
  f.isReadonly && !f.isStatic && f.isNameable && !f.hasInitializer

end TargetField

/-- The base of a type with the constructors it declares; a base that is not
declared has none. -/
structure BaseType where
  id : TypeId
  constructors : List Constructor
deriving DecidableEq, Repr, Inhabited

namespace BaseType

def ofCatalog (c : Catalog) (base : TypeId) : BaseType where
  id := base
  constructors :=
    match c.get? base with
    | some d => d.constructors
    | none => []

/-- The only constructor to which arguments can be passed on. -/
def callee? (b : BaseType) : Option Constructor :=
  match b.constructors.filter Constructor.isForwardable with
  | [c] => some c
  | _ => none

/-- There are several constructors to which arguments could be passed on. -/
def isAmbiguous (b : BaseType) : Bool :=
  1 < (b.constructors.filter Constructor.isForwardable).length

end BaseType

structure Target where
  id : TypeId
  name : String
  kind : Kind
  inNamespace : Option String
  enclosing : List EnclosingType
  typeParams : List String
  base : Option BaseType
  fields : List TargetField
deriving DecidableEq, Repr, Inhabited

namespace Target

def ofDeclaration (c : Catalog) (d : Declaration) : Target where
  id := d.id
  name := d.name
  kind := d.kind
  inNamespace := d.inNamespace
  enclosing := d.enclosing
  typeParams := d.typeParams
  base := d.base.map (BaseType.ofCatalog c)
  fields := d.fields.map TargetField.ofField

def baseId (t : Target) : Option TypeId := t.base.map BaseType.id

def shownName (t : Target) : String := genericName t.name t.typeParams

def fullName (t : Target) : String :=
  dottedPath t.inNamespace (t.enclosing.map EnclosingType.shownName) t.shownName

def assignedFields (t : Target) : List TargetField :=
  t.fields.filter TargetField.isAssigned

/-- The name of the unit that is generated for the type: its qualified name in a
form that can be part of a file name. -/
def stem (t : Target) : String :=
  String.ofList (t.fullName.toList.filterMap fun c =>
    if c = '<' then some '[' else if c = '>' then some ']' else if c = ' ' then none else some c)

end Target

end ConstructorSynthesis
