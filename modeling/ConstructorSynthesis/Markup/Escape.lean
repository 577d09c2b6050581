/-!
References in attribute values: the five predefined entities and character
references by number. Positions in faults count bytes of the written value.
-/

namespace ConstructorSynthesis.Markup

/-- Why a text is not a number of the given base below 2^32. -/
inductive NumberFault where
  | empty
  | invalidDigit
  | tooLarge
deriving DecidableEq, Repr

inductive CharacterFault where
  | signed
  | number (fault : NumberFault)
  | null
  | notCharacter (code : Nat)
deriving DecidableEq, Repr

inductive EscapeFault where
  | unterminated (start stop : Nat)
  | unknownEntity (start stop : Nat) (name : String)
  | character (fault : CharacterFault)
deriving DecidableEq, Repr

def NumberFault.message : NumberFault → String
  | .empty => "cannot parse integer from empty string"
  | .invalidDigit => "invalid digit found in string"
  | .tooLarge => "number too large to fit in target type"

def CharacterFault.message : CharacterFault → String
  | .signed => "unexpected number sign"
  | .number fault => fault.message
  | .null => "0x0 character is not permitted in XML"
  | .notCharacter code => "`" ++ Nat.repr code ++ "` is not a valid codepoint"

def EscapeFault.message : EscapeFault → String
  | .unterminated start stop =>
      "Error while escaping character at range " ++ Nat.repr start ++ ".." ++ Nat.repr stop
        ++ ": Cannot find ';' after '&'"
  | .unknownEntity start stop name =>
      "at " ++ Nat.repr start ++ ".." ++ Nat.repr stop ++ ": unrecognized entity `" ++ name ++ "`"
  | .character fault => "invalid character reference: " ++ fault.message

/-- The text of the fault, then the text of each fault it consists of. -/
def EscapeFault.causes (fault : EscapeFault) : List String :=
  match fault with
  | .character (.number inner) => [fault.message, inner.message, inner.message]
  | .character inner => [fault.message, inner.message]
  | _ => [fault.message]

/-- The value of a digit in bases up to sixteen. -/
def digitValue (c : Char) : Option Nat :=
  if '0' ≤ c ∧ c ≤ '9' then some (c.toNat - '0'.toNat)
  else if 'a' ≤ c ∧ c ≤ 'f' then some (c.toNat - 'a'.toNat + 10)
  else if 'A' ≤ c ∧ c ≤ 'F' then some (c.toNat - 'A'.toNat + 10)
  else none

/-- Reads digits from left to right and stops at the first one that does not
belong to the base or makes the number too large. -/
def readDigits (base value : Nat) : List Char → Except NumberFault Nat
  | [] => .ok value
  | c :: cs =>
      match digitValue c with
      | none => .error .invalidDigit
      | some d =>
          if base ≤ d then .error .invalidDigit
          else if 2 ^ 32 ≤ value * base + d then .error .tooLarge
          else readDigits base (value * base + d) cs

def readNumber (base : Nat) (cs : List Char) : Except CharacterFault Nat :=
  match cs with
  | [] => .error (.number .empty)
  | c :: _ =>
      if c = '+' || c = '-' then .error .signed
      else
        match readDigits base 0 cs with
        | .ok n => .ok n
        | .error fault => .error (.number fault)

/-- The character of a reference by number, given the text behind the number
sign. A lower case x begins a hexadecimal number. -/
def characterOf (cs : List Char) : Except CharacterFault Char := do
  let code ←
    match cs with
    | 'x' :: digits => readNumber 16 digits
    | digits => readNumber 10 digits
  if code = 0 then throw .null
  else if h : code.isValidChar then pure (Char.ofNatAux code h)
  else throw (.notCharacter code)

def predefinedEntity : String → Option Char
  | "lt" => some '<'
  | "gt" => some '>'
  | "amp" => some '&'
  | "apos" => some '\x27'
  | "quot" => some '\x22'
  | _ => none

/-- The character that a reference stands for, given its text between the
ampersand and the semicolon, which begins at byte `start` of the value. -/
def resolveReference (start : Nat) (text : List Char) : Except EscapeFault Char :=
  match text with
  | '#' :: number =>
      match characterOf number with
      | .ok c => .ok c
      | .error fault => .error (.character fault)
  | _ =>
      let name := String.ofList text
      match predefinedEntity name with
      | some c => .ok c
      | none => .error (.unknownEntity start (start + name.utf8ByteSize) name)

def endsReferenceText (c : Char) : Bool := c = '&' || c = ';'

private theorem length_behind_lt {cs rest : List Char} {c : Char}
    (h : cs.dropWhile (fun x => !endsReferenceText x) = c :: rest) : rest.length < cs.length := by
  have whole := (List.dropWhile_sublist (l := cs) fun x => !endsReferenceText x).length_le
  rw [h] at whole
  exact whole

/-- Resolves the references from byte `offset` of a value of `total` bytes on. -/
def resolveFrom (total offset : Nat) (cs : List Char) : Except EscapeFault (List Char) :=
  match cs with
  | [] => .ok []
  | c :: cs =>
      if c = '&' then
        match behind : cs.dropWhile (fun x => !endsReferenceText x) with
        | [] => .error (.unterminated offset total)
        | e :: rest =>
            if e = '&' then .error (.unterminated offset total)
            else do
              have := length_behind_lt behind
              let text := cs.takeWhile fun x => !endsReferenceText x
              let resolved ← resolveReference (offset + 1) text
              let size := (String.ofList text).utf8ByteSize
              return resolved :: (← resolveFrom total (offset + 1 + size + 1) rest)
      else return c :: (← resolveFrom total (offset + c.utf8Size) cs)
termination_by cs.length

/-- The text that a written value stands for. Nothing is resolved twice. -/
def unescape (value : String) : Except EscapeFault String := do
  return String.ofList (← resolveFrom value.utf8ByteSize 0 value.toList)

end ConstructorSynthesis.Markup
