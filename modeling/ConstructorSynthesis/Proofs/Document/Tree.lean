import Mathlib.Data.List.Basic
import ConstructorSynthesis.Document.Reading

/-!
Documents as trees of elements, and what such a tree declares. The tree keeps
how an element without content is written, since an empty `namespace` tag is not
asked for its name. Its declarations are defined by recursion on the tree, with
no reader and no stack: every element is read for itself and hands its result to
the element around it. The first fault in document order decides.

A document is well-formed if its tags come without a fault and close every
element. Such tags are the tags of a tree.
-/

namespace ConstructorSynthesis.Markup

deriving instance DecidableEq for Tag, Event, Stream

/-- The sequence ends with the document and closes every element, where `opened`
are the elements that are open before it. -/
def Stream.Closes : List String → Stream → Prop
  | opened, .done => opened = []
  | _, .broken _ => False
  | opened, .next (.start tag) rest => rest.Closes (tag.name :: opened)
  | opened, .next (.empty _) rest => rest.Closes opened
  | opened, .next (.stop name) rest => ∃ outer, opened = name :: outer ∧ rest.Closes outer

/-- An element is a single empty tag, or a start tag and an end tag with the
elements between them. -/
inductive Element where
  | leaf (tag : Tag)
  | node (tag : Tag) (content : List Element)

namespace Element

def tag : Element → Tag
  | leaf tag => tag
  | node tag _ => tag

def content : Element → List Element
  | leaf _ => []
  | node _ content => content

mutual
/-- The tags of an element, before those that follow it. -/
def stream : Element → Stream → Stream
  | leaf tag, rest => .next (.empty tag) rest
  | node tag content, rest => .next (.start tag) (streamAll content (.next (.stop tag.name) rest))

def streamAll : List Element → Stream → Stream
  | [], rest => rest
  | e :: es, rest => e.stream (streamAll es rest)
end

mutual
/-- An element and all elements below it in document order. -/
def inOrder : Element → List Element
  | leaf tag => [leaf tag]
  | node tag content => node tag content :: inOrderAll content

def inOrderAll : List Element → List Element
  | [] => []
  | e :: es => e.inOrder ++ inOrderAll es
end

mutual
theorem closes_stream (e : Element) (opened : List String) (rest : Stream) :
    (e.stream rest).Closes opened ↔ rest.Closes opened := by
  cases e with
  | leaf tag => rfl
  | node tag content =>
      rw [stream, Stream.Closes, closes_streamAll content]
      simp [Stream.Closes]

theorem closes_streamAll (es : List Element) (opened : List String) (rest : Stream) :
    (streamAll es rest).Closes opened ↔ rest.Closes opened := by
  cases es with
  | nil => rfl
  | cons e es => rw [streamAll, closes_stream e, closes_streamAll es]
end

/-- The end tags of open elements from the inside out, each with the elements
that follow it. -/
def closing (ends : List (String × List Element)) : Stream :=
  ends.foldr (fun (name, after) rest => .next (.stop name) (streamAll after rest)) .done

theorem exists_closing {s : Stream} {opened : List String} (h : s.Closes opened) :
    ∃ es ends, ends.map Prod.fst = opened ∧ s = streamAll es (closing ends) := by
  -- An end tag starts a new entry of `ends`; the matching start tag takes it back as an element.
  induction s generalizing opened with
  | done => exact ⟨[], [], h.symm, rfl⟩
  | broken fault => exact h.elim
  | next event rest ih =>
      cases event with
      | start tag =>
          obtain ⟨content, ends, hends, hrest⟩ := ih h
          obtain ⟨⟨name, after⟩, outer, rfl, hname, houter⟩ := List.map_eq_cons_iff.mp hends
          refine ⟨.node tag content :: after, outer, houter, ?_⟩
          rw [hrest, streamAll, stream, ← hname]
          rfl
      | empty tag =>
          obtain ⟨es, ends, hends, hrest⟩ := ih h
          exact ⟨.leaf tag :: es, ends, hends, by rw [hrest, streamAll, stream]⟩
      | stop name =>
          obtain ⟨outer, rfl, houter⟩ := h
          obtain ⟨es, ends, hends, hrest⟩ := ih houter
          exact ⟨[], (name, es) :: ends, by simp [hends], by rw [hrest]; rfl⟩

/-- Exactly the sequences without a fault that close every element are the tags
of a document. -/
theorem closes_iff_exists_document (s : Stream) :
    s.Closes [] ↔ ∃ doc, s = streamAll doc .done := by
  constructor
  · intro h
    obtain ⟨doc, ends, hends, hs⟩ := exists_closing h
    rw [List.map_eq_nil_iff.mp hends] at hs
    exact ⟨doc, hs⟩
  · rintro ⟨doc, rfl⟩
    exact (closes_streamAll doc [] .done).mpr rfl

end Element

end ConstructorSynthesis.Markup

namespace ConstructorSynthesis.Document

open Markup (Element)

/-- What a direct child of a type element adds to the type. -/
inductive Member where
  | mark (name : String)
  | field (field : Field)
  | constructor (built : Constructor)
  | types (declared : List Declaration)
  | nothing

namespace Member

def mark? : Member → Option String
  | mark name => some name
  | _ => none

def field? : Member → Option Field
  | field f => some f
  | _ => none

def constructor? : Member → Option Constructor
  | constructor c => some c
  | _ => none

def declared : Member → List Declaration
  | types ds => ds
  | _ => []

end Member

/-- A type with its attributes, fields and constructors, each in the order of
the children. -/
def addMembers (d : Declaration) (members : List Member) : Declaration :=
  { d with
    attributes := d.attributes ++ members.filterMap Member.mark?
    fields := d.fields ++ members.filterMap Member.field?
    constructors := d.constructors ++ members.filterMap Member.constructor? }

/-- The parameters that stand directly in the content of a constructor. -/
def parametersOf (content : List Element) : Except Error (List Parameter) :=
  (content.filter (·.tag.name = "parameter")).mapM fun e => readParameter e.tag

def constructorOf (e : Element) : Except Error Constructor := do
  let c ← readConstructor e.tag
  let parameters ← parametersOf e.content
  return { c with parameters := c.parameters ++ parameters }

/-- What a child that is no type adds. Unknown children count for nothing, with
all that is below them. -/
def plainMember (e : Element) : Except Error Member :=
  match e.tag.name with
  | "constructor" => return .constructor (← constructorOf e)
  | "attribute" => return .mark (← required "attribute" "name" e.tag)
  | "field" => return .field (← readField e.tag)
  | _ => return .nothing

/-- What a child of a type element adds to the type; `declared` is what the child
declares if it is a type itself. -/
def memberOf (declared : Except Error (List Declaration)) (e : Element) : Except Error Member :=
  if e.tag.name = "type" then Member.types <$> declared else plainMember e

mutual
/-- A type element declares the type itself, then the types inside it, which
have this one at the end of the chain of types around them. -/
def declaredByType (inNamespace : Option String) (enclosing : List EnclosingType) :
    Element → Except Error (List Declaration)
  | .leaf tag => return [← readType inNamespace enclosing tag]
  | .node tag content => do
      let d ← readType inNamespace enclosing tag
      let around := enclosing ++ [⟨d.name, d.kind, d.typeParams⟩]
      let members ← membersOf inNamespace around content
      return addMembers d members :: members.flatMap Member.declared

def membersOf (inNamespace : Option String) (enclosing : List EnclosingType) :
    List Element → Except Error (List Member)
  | [] => return []
  | e :: es => do
      let member ← memberOf (declaredByType inNamespace enclosing e) e
      return member :: (← membersOf inNamespace enclosing es)
end

mutual
/-- What a child of a namespace or of the `declarations` element declares. A
namespace counts if it is written with a start tag and an end tag; its name goes
behind that of the namespace around it, with a dot between them. -/
def declaredByChild (inNamespace : Option String) : Element → Except Error (List Declaration)
  | .leaf tag =>
      if tag.name = "type" then declaredByType inNamespace [] (.leaf tag) else return []
  | .node tag content =>
      match tag.name with
      | "namespace" => do
          let name ← required "namespace" "name" tag
          match inNamespace with
          | none => declaredInScope (some name) content
          | some outer => declaredInScope (some (outer ++ "." ++ name)) content
      | "type" => declaredByType inNamespace [] (.node tag content)
      | _ => return []

def declaredInScope (inNamespace : Option String) :
    List Element → Except Error (List Declaration)
  | [] => return []
  | e :: es => do
      let declared ← declaredByChild inNamespace e
      return declared ++ (← declaredInScope inNamespace es)
end

def isRoot (e : Element) : Bool := e.tag.name = "declarations"

/-- The first `declarations` element in document order, at any depth. -/
def root? (doc : List Element) : Option Element := (Element.inOrderAll doc).find? isRoot

end ConstructorSynthesis.Document
