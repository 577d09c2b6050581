import ConstructorSynthesis.Declaration.Catalog
import ConstructorSynthesis.Document.Element

/-!
Reading the declarations of a document. The reader follows the tags with the
stack of elements that it is inside of, so that it sees each tag once and stops
at the first one it cannot accept. The first `declarations` element counts,
wherever it stands; what comes behind it only has to be markup. Elements that
are open when the document ends are taken as closed there.
-/

namespace ConstructorSynthesis.Document

open Markup (Tag Event Stream)

/-- An element that the reader is inside of, with what it has gathered there. -/
inductive Frame where
  | scope (inNamespace : Option String)
  | type (decl : Declaration) (nested : List Declaration)
  | constructor (built : Constructor)
  | ignored
deriving DecidableEq, Repr

def qualify (outer : Option String) (inner : String) : String :=
  match outer with
  | none => inner
  | some ns => ns ++ "." ++ inner

/-- Enters an element: the frame inside it, and the frame around it with what
the element's own tag adds there. -/
def enter (tag : Tag) (around : Frame) : Except Error (Frame × Frame) := do
  match around with
  | .scope ns =>
      match tag.name with
      | "namespace" =>
          let name ← required "namespace" "name" tag
          return (.scope (some (qualify ns name)), around)
      | "type" => return (.type (← readType ns [] tag) [], around)
      | _ => return (.ignored, around)
  | .type d nested =>
      match tag.name with
      | "type" => return (.type (← readType d.inNamespace d.inner tag) [], around)
      | "constructor" => return (.constructor (← readConstructor tag), around)
      | "attribute" =>
          let mark ← required "attribute" "name" tag
          return (.ignored, .type (d.addAttribute mark) nested)
      | "field" => return (.ignored, .type (d.addField (← readField tag)) nested)
      | _ => return (.ignored, around)
  | .constructor c =>
      match tag.name with
      | "parameter" =>
          let p ← readParameter tag
          return (.ignored, .constructor { c with parameters := c.parameters ++ [p] })
      | _ => return (.ignored, around)
  | .ignored => return (.ignored, around)

/-- Leaves an element: what it gathered goes to the frame around it, or to the
declarations if that frame gathers none. A type stands before the types that are
declared inside it. -/
def leave (declared : List Declaration) (frame around : Frame) : List Declaration × Frame :=
  match frame, around with
  | .type d nested, .type outer inner => (declared, .type outer (inner ++ d :: nested))
  | .type d nested, _ => (declared ++ d :: nested, around)
  | .constructor c, .type outer inner => (declared, .type (outer.addConstructor c) inner)
  | _, _ => (declared, around)

/-- Where a reader is: before the `declarations` element, inside it with the
declarations that are complete so far, or behind it. -/
inductive Reading where
  | before
  | inside (declared : List Declaration) (frame : Frame) (outer : List Frame)
  | behind (declared : List Declaration)
deriving DecidableEq, Repr

namespace Reading

def close (declared : List Declaration) (frame : Frame) : List Frame → Reading
  | [] => .behind declared
  | around :: outer =>
      let (declared, around) := leave declared frame around
      .inside declared around outer

/-- The declarations once every open element is closed. -/
def closeAll (declared : List Declaration) (frame : Frame) : List Frame → List Declaration
  | [] => declared
  | around :: outer =>
      let (declared, around) := leave declared frame around
      closeAll declared around outer

def rootName : String := "declarations"

/-- A namespace without content declares nothing, and its name is not asked for. -/
def isEmptyNamespace (tag : Tag) : Frame → Bool
  | .scope _ => tag.name = "namespace"
  | _ => false

def step (r : Reading) (event : Event) : Except Error Reading :=
  match r, event with
  | .before, .start tag =>
      return if tag.name = rootName then .inside [] (.scope none) [] else .before
  | .before, .empty tag => return if tag.name = rootName then .behind [] else .before
  | .before, .stop _ => return .before
  | .inside declared frame outer, .start tag => do
      let (inner, around) ← enter tag frame
      return .inside declared inner (around :: outer)
  | .inside declared frame outer, .empty tag =>
      if isEmptyNamespace tag frame then return r
      else do
        let (inner, around) ← enter tag frame
        return close declared inner (around :: outer)
  | .inside declared frame outer, .stop _ => return close declared frame outer
  | .behind declared, _ => return .behind declared

def finish : Reading → Except Error (List Declaration)
  | .before => .error (.badStructure "No declarations element found")
  | .inside declared frame outer => .ok (closeAll declared frame outer)
  | .behind declared => .ok declared

def run (r : Reading) : Stream → Except Error (List Declaration)
  | .done => r.finish
  | .broken fault => .error (.markup fault)
  | .next event rest =>
      match r.step event with
      | .error error => .error error
      | .ok next => next.run rest

end Reading

/-- The declarations of a document in the order in which they stand there. -/
def declarationsOf (text : String) : Except Error (List Declaration) :=
  Reading.before.run (Stream.ofText text)

def parse (text : String) : Except Error Catalog :=
  (declarationsOf text).map Catalog.ofList

/-- Reads what was found at the place of a document: its bytes, or why there are
none. -/
def parseFile (content : Except Files.Fault ByteArray) : Except Error Catalog :=
  match content with
  | .error fault => .error (.file fault)
  | .ok bytes =>
      match String.fromUTF8? bytes with
      | none => .error (.file .notText)
      | some text => parse text

end ConstructorSynthesis.Document
