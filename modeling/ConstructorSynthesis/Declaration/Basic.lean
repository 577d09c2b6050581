import ConstructorSynthesis.Declaration.Id
import ConstructorSynthesis.Declaration.Kind

/-!
Type declarations: what is known of a type before anything is generated for it.
A declaration says where the type stands, and its identity is computed from
that; it names its base by identity only.
-/

namespace ConstructorSynthesis

structure Parameter where
  typeName : String
  name : String
deriving DecidableEq, Repr, Inhabited

/-- A constructor that a type already declares. -/
structure Constructor where
  isStatic : Bool
  parameters : List Parameter
deriving DecidableEq, Repr, Inhabited

/-- A derived type can pass arguments on to this constructor. -/
def Constructor.isForwardable (c : Constructor) : Bool := !c.isStatic && !c.parameters.isEmpty

structure Field where
  name : String
  typeName : String
  isReadonly : Bool
  isStatic : Bool
  isImplicit : Bool
  hasInitializer : Bool
deriving DecidableEq, Repr, Inhabited

/-- A type as it is shown, with its type parameters in angle brackets. -/
def genericName (name : String) (typeParams : List String) : String :=
  if typeParams.isEmpty then name else name ++ "<" ++ ", ".intercalate typeParams ++ ">"

/-- A type as one segment of an identity. -/
def idSegment (name : String) (typeParams : List String) : String :=
  name ++ String.ofList (TypeId.arityMark typeParams.length)

/-- The dotted path from a namespace through the types around a type to the
type itself. -/
def dottedPath (inNamespace : Option String) (outer : List String) (own : String) : String :=
  ".".intercalate (inNamespace.toList ++ outer ++ [own])

/-- A type inside which another one is declared. -/
structure EnclosingType where
  name : String
  kind : Kind
  typeParams : List String
deriving DecidableEq, Repr, Inhabited

def EnclosingType.shownName (t : EnclosingType) : String := genericName t.name t.typeParams

structure Declaration where
  name : String
  kind : Kind
  inNamespace : Option String
  enclosing : List EnclosingType
  typeParams : List String
  base : Option TypeId
  attributes : List String
  fields : List Field
  constructors : List Constructor
deriving DecidableEq, Repr, Inhabited

namespace Declaration

def id (d : Declaration) : TypeId :=
  ⟨dottedPath d.inNamespace (d.enclosing.map fun t => idSegment t.name t.typeParams)
    (idSegment d.name d.typeParams)⟩

def hasAttribute (d : Declaration) (mark : String) : Bool := d.attributes.contains mark

/-- The chain of types around a type that is declared directly inside this one. -/
def inner (d : Declaration) : List EnclosingType :=
  d.enclosing ++ [⟨d.name, d.kind, d.typeParams⟩]

def addAttribute (d : Declaration) (mark : String) : Declaration :=
  { d with attributes := d.attributes ++ [mark] }

def addField (d : Declaration) (field : Field) : Declaration :=
  { d with fields := d.fields ++ [field] }

def addConstructor (d : Declaration) (c : Constructor) : Declaration :=
  { d with constructors := d.constructors ++ [c] }

end Declaration

end ConstructorSynthesis
