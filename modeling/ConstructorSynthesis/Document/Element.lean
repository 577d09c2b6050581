import ConstructorSynthesis.Declaration.Basic
import ConstructorSynthesis.Document.Error
import ConstructorSynthesis.Markup.Event

/-!
What the attributes of a single element declare. Types and fields resolve the
references in all of their attributes, used or not, in the order in which they
are written; the other elements resolve only the attributes that they use.
-/

namespace ConstructorSynthesis.Document

open Markup (Tag Attribute)

/-- The value of an attribute with its references resolved. -/
def valueOf (a : Attribute) : Except Error String :=
  match Markup.unescape a.value with
  | .ok value => .ok value
  | .error fault => .error (.escape fault)

def required (element key : String) (tag : Tag) : Except Error String :=
  match tag.attributes.find? (·.key == key) with
  | some a => valueOf a
  | none => .error (.missingAttribute element key)

def readFlag (element key value : String) : Except Error Bool :=
  match value with
  | "true" => .ok true
  | "false" => .ok false
  | _ => .error (.invalidAttribute element key value)

def demand (element key : String) : Option String → Except Error String
  | some value => .ok value
  | none => .error (.missingAttribute element key)

/-- Type parameters are separated by commas; empty ones do not count. -/
def readTypeParams (value : String) : List String :=
  (((Text.split ',' value.toList).map Text.trim).filter (!·.isEmpty)).map String.ofList

/-- What has been read of the attributes of a type so far. -/
structure TypeHeader where
  name : Option String := none
  kind : Kind := .classType
  base : Option TypeId := none
  typeParams : List String := []
deriving DecidableEq, Repr

def TypeHeader.read (h : TypeHeader) (a : Attribute) : Except Error TypeHeader := do
  let value ← valueOf a
  match a.key with
  | "name" => return { h with name := some value }
  | "kind" =>
      match Kind.ofSpelling? value with
      | some kind => return { h with kind := kind }
      | none => throw (.invalidAttribute "type" "kind" value)
  | "base" => return { h with base := some (TypeId.ofReference value) }
  | "typeParams" => return { h with typeParams := readTypeParams value }
  | _ => return h

/-- The declaration that a type element begins, without its content. -/
def readType (inNamespace : Option String) (enclosing : List EnclosingType) (tag : Tag) :
    Except Error Declaration := do
  let h ← tag.attributes.foldlM TypeHeader.read {}
  let name ← demand "type" "name" h.name
  return {
    name := name
    kind := h.kind
    inNamespace := inNamespace
    enclosing := enclosing
    typeParams := h.typeParams
    base := h.base
    attributes := []
    fields := []
    constructors := []
  }

/-- What has been read of the attributes of a field so far. -/
structure FieldHeader where
  name : Option String := none
  typeName : Option String := none
  isReadonly : Bool := false
  isStatic : Bool := false
  isImplicit : Bool := false
  hasInitializer : Bool := false
deriving DecidableEq, Repr

def FieldHeader.read (h : FieldHeader) (a : Attribute) : Except Error FieldHeader := do
  let value ← valueOf a
  match a.key with
  | "name" => return { h with name := some value }
  | "type" => return { h with typeName := some value }
  | "readonly" => return { h with isReadonly := ← readFlag "field" a.key value }
  | "static" => return { h with isStatic := ← readFlag "field" a.key value }
  | "implicit" => return { h with isImplicit := ← readFlag "field" a.key value }
  | "initializer" => return { h with hasInitializer := ← readFlag "field" a.key value }
  | _ => return h

def readField (tag : Tag) : Except Error Field := do
  let h ← tag.attributes.foldlM FieldHeader.read {}
  let name ← demand "field" "name" h.name
  let typeName ← demand "field" "type" h.typeName
  return ⟨name, typeName, h.isReadonly, h.isStatic, h.isImplicit, h.hasInitializer⟩

/-- What has been read of the attributes of a parameter so far. -/
structure ParameterHeader where
  name : Option String := none
  typeName : Option String := none
deriving DecidableEq, Repr

def ParameterHeader.read (h : ParameterHeader) (a : Attribute) :
    Except Error ParameterHeader := do
  match a.key with
  | "name" => return { h with name := some (← valueOf a) }
  | "type" => return { h with typeName := some (← valueOf a) }
  | _ => return h

def readParameter (tag : Tag) : Except Error Parameter := do
  let h ← tag.attributes.foldlM ParameterHeader.read {}
  let name ← demand "parameter" "name" h.name
  let typeName ← demand "parameter" "type" h.typeName
  return ⟨typeName, name⟩

/-- The constructor that a constructor element begins, without its parameters. -/
def readConstructor (tag : Tag) : Except Error Constructor :=
  match tag.attributes.find? (·.key == "static") with
  | none => return ⟨false, []⟩
  | some a => do
      let value ← valueOf a
      return ⟨← readFlag "constructor" "static" value, []⟩

end ConstructorSynthesis.Document
