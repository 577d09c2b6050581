/-!
Source text that is written line by line, with blocks in braces. Text that is
written never changes; an operation only adds to it and moves the depth.
-/

namespace ConstructorSynthesis

structure Page where
  indent : String
  depth : Nat
  text : String
deriving DecidableEq, Repr, Inhabited

namespace Page

def start (indent : String) : Page := ⟨indent, 0, ""⟩

def defaultIndent : String := "    "

def margin (p : Page) : String := String.join (List.replicate p.depth p.indent)

/-- Adds a line. An empty line gets no margin. -/
def line (p : Page) (content : String) : Page :=
  { p with text := p.text ++ (if content.isEmpty then "\n" else p.margin ++ content ++ "\n") }

def blank (p : Page) : Page := { p with text := p.text ++ "\n" }

/-- Adds a header and an opening brace; what follows is one step deeper. -/
def enter (p : Page) (header : String) : Page :=
  let opened := (p.line header).line "\x7b"
  { opened with depth := opened.depth + 1 }

/-- Closes the innermost block. Outside all blocks nothing happens. -/
def leave (p : Page) : Page :=
  match p.depth with
  | 0 => p
  | depth + 1 => { p with depth := depth }.line "\x7d"

/-- Closes as many blocks as the given number. -/
def leaveTimes (p : Page) : Nat → Page
  | 0 => p
  | n + 1 => p.leave.leaveTimes n

def leaveAll (p : Page) : Page := p.leaveTimes p.depth

end Page

end ConstructorSynthesis
