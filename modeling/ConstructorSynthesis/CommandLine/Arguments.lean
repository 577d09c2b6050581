/-!
The arguments of the command. They are read from left to right, and the first
one that cannot be accepted, or that asks for help, decides. An option with a
value takes it from the rest of its own word or from the next word; a word that
begins with a hyphen is not taken, unless it is nothing but a hyphen. Behind a
word of two hyphens nothing is an option.
-/

namespace ConstructorSynthesis.CommandLine

structure Arguments where
  input : String
  out : Option String
  indent : Nat
  noHeader : Bool
  skipValidation : Bool
  verbosity : Nat
deriving DecidableEq, Repr, Inhabited

/-- Why there is nothing to run. -/
inductive Refusal where
  | help
  | usage
deriving DecidableEq, Repr

inductive Switch where
  | out
  | indent
  | noHeader
  | skipValidation
  | verbose
  | help
deriving DecidableEq, Repr

namespace Switch

def takesValue : Switch → Bool
  | out | indent => true
  | _ => false

/-- Long names are not abbreviated. -/
def ofLong? : String → Option Switch
  | "out" => some out
  | "indent" => some indent
  | "no-header" => some noHeader
  | "skip-validation" => some skipValidation
  | "verbose" => some verbose
  | "help" => some help
  | _ => none

def ofShort? : Char → Option Switch
  | 'o' => some out
  | 'v' => some verbose
  | 'h' => some help
  | _ => none

end Switch

/-- What has been read of the arguments so far. -/
structure Draft where
  input : Option String := none
  out : Option String := none
  indent : Option Nat := none
  noHeader : Bool := false
  skipValidation : Bool := false
  verbosity : Nat := 0
deriving DecidableEq, Repr

/-- A number below 2^64 in decimal digits, with a plus sign in front or without. -/
def readWidth? (value : String) : Option Nat :=
  let digits :=
    match value.toList with
    | '+' :: cs => cs
    | cs => cs
  if digits.isEmpty || !digits.all Char.isDigit then none
  else
    let width := digits.foldl (fun n c => 10 * n + (c.toNat - '0'.toNat)) 0
    if width < UInt64.size then some width else none

namespace Draft

/-- Takes in a word that is no option. There is one such word, and it is not empty. -/
def takeWord (d : Draft) (word : String) : Except Refusal Draft :=
  if d.input.isSome || word.isEmpty then .error .usage
  else .ok { d with input := some word }

/-- Takes in an option without a value. Only verbosity can be asked for twice. -/
def takeFlag (d : Draft) : Switch → Except Refusal Draft
  | .noHeader => if d.noHeader then .error .usage else .ok { d with noHeader := true }
  | .skipValidation =>
      if d.skipValidation then .error .usage else .ok { d with skipValidation := true }
  | .verbose => .ok { d with verbosity := d.verbosity + 1 }
  | .help => .error .help
  | .out | .indent => .error .usage

def takeValue (d : Draft) (switch : Switch) (value : String) : Except Refusal Draft :=
  match switch with
  | .out =>
      if d.out.isSome || value.isEmpty then .error .usage else .ok { d with out := some value }
  | .indent =>
      match d.indent, readWidth? value with
      | none, some width => .ok { d with indent := some width }
      | _, _ => .error .usage
  | _ => .error .usage

/-- Takes in a word of short options, given the text behind its hyphen. The
result names the option that waits for the next word, if one does. -/
def takeShort (d : Draft) : List Char → Except Refusal (Draft × Option Switch)
  | [] => .ok (d, none)
  | c :: cs =>
      match Switch.ofShort? c with
      | none => .error .usage
      | some switch =>
          if switch.takesValue then
            match cs with
            | [] => .ok (d, some switch)
            | '=' :: value => return (← d.takeValue switch (String.ofList value), none)
            | value => return (← d.takeValue switch (String.ofList value), none)
          else
            match d.takeFlag switch with
            | .error refusal => .error refusal
            | .ok next => next.takeShort cs

/-- Takes in a long option, given the text behind its two hyphens. -/
def takeLong (d : Draft) (cs : List Char) : Except Refusal (Draft × Option Switch) :=
  match Switch.ofLong? (String.ofList (cs.takeWhile (· ≠ '='))) with
  | none => .error .usage
  | some switch =>
      match cs.dropWhile (· ≠ '='), switch.takesValue with
      | _ :: value, true => return (← d.takeValue switch (String.ofList value), none)
      | _ :: _, false => .error .usage
      | [], true => .ok (d, some switch)
      | [], false => return (← d.takeFlag switch, none)

/-- Takes in one word outside the value of an option. -/
def take (d : Draft) (word : String) : Except Refusal (Draft × Option Switch) :=
  match word.toList with
  | '-' :: '-' :: cs => d.takeLong cs
  | '-' :: c :: cs => d.takeShort (c :: cs)
  | _ => return (← d.takeWord word, none)

/-- A word that the option before it may take as its value. -/
def isValue (word : String) : Bool :=
  match word.toList with
  | ['-'] => true
  | '-' :: _ => false
  | _ => true

def takeAll (d : Draft) : List String → Except Refusal Draft
  | [] => .ok d
  | word :: words =>
      if word = "--" then words.foldlM takeWord d
      else
        match d.take word with
        | .error refusal => .error refusal
        | .ok (next, none) => next.takeAll words
        | .ok (next, some switch) =>
            match words with
            | [] => .error .usage
            | value :: words =>
                if isValue value then
                  match next.takeValue switch value with
                  | .error refusal => .error refusal
                  | .ok next => next.takeAll words
                else .error .usage

end Draft

def defaultIndent : Nat := 4

def Arguments.read (words : List String) : Except Refusal Arguments := do
  let d ← Draft.takeAll {} words
  match d.input with
  | none => throw .usage
  | some input =>
      return {
        input := input
        out := d.out
        indent := d.indent.getD defaultIndent
        noHeader := d.noHeader
        skipValidation := d.skipValidation
        verbosity := d.verbosity
      }

end ConstructorSynthesis.CommandLine
