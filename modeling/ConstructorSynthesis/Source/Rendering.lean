import ConstructorSynthesis.Blueprint.Basic
import ConstructorSynthesis.Source.Settings

/-!
The source of a constructor: the target is opened again inside its namespace and
the types around it, with the constructor and the hook that the constructor
calls last.
-/

namespace ConstructorSynthesis

/-- The method that a constructor calls when every field is assigned. -/
def hookName : String := "Initialize"

def Parameter.source (p : Parameter) : String := p.typeName ++ " " ++ p.name

def Assignment.source (a : Assignment) : String := "this." ++ a.field ++ " = " ++ a.parameter ++ ";"

/-- The line that a part of a type begins with. -/
def partHeader (kind : Kind) (shown : String) : String :=
  "partial " ++ kind.keyword ++ " " ++ shown

namespace Blueprint

def signature (b : Blueprint) (name : String) : String :=
  "public " ++ name ++ "(" ++ ", ".intercalate (b.parameters.map Parameter.source) ++ ")"
    ++ match b.baseArguments with
      | none => ""
      | some arguments => " : base(" ++ ", ".intercalate arguments ++ ")"

/-- Adds the constructor of a type of the given name. -/
def addTo (b : Blueprint) (p : Page) (name : String) : Page :=
  let assigned := b.assignments.foldl (fun p a => p.line a.source) (p.enter (b.signature name))
  (assigned.line (hookName ++ "();")).leave

/-- The page of a unit down to the first block. -/
def firstLines (settings : Settings) : Page :=
  match settings.header with
  | none => .start settings.indent
  | some header => ((Page.start settings.indent).line header).blank

/-- The headers of the blocks around a constructor, outermost first. -/
def blockHeaders (t : Target) : List String :=
  (t.inNamespace.map ("namespace " ++ ·)).toList
    ++ t.enclosing.map (fun e => partHeader e.kind e.shownName)
    ++ [partHeader t.kind t.shownName]

def render (settings : Settings) (t : Target) (b : Blueprint) : String :=
  let opened := (blockHeaders t).foldl Page.enter (firstLines settings)
  ((b.addTo opened t.name).blank.line ("partial void " ++ hookName ++ "();")).leaveAll.text

end Blueprint

end ConstructorSynthesis
