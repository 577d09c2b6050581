import ConstructorSynthesis.Markup.Scan

/-!
Attributes of a tag. What cannot be read as an attribute does not fail the
document: it is reported beside the attributes, and reading goes on behind it.
Values are kept as they are written, with their references unresolved.
-/

namespace ConstructorSynthesis.Markup

structure Attribute where
  key : String
  value : String
deriving DecidableEq, Repr, Inhabited

/-- Why a piece of a tag is not an attribute. -/
inductive AttributeFault where
  | missingEquals (key : String)
  | repeated (key : String)
  | unquoted (key : String)
  | unclosed (key : String)
deriving DecidableEq, Repr

private theorem tail_lt {p : Char → Bool} {cs tail : List Char} {c : Char}
    (found : cs.dropWhile p = c :: tail) : tail.length < cs.length := by
  have whole := Text.length_dropWhile_le p cs
  rw [found] at whole
  exact whole

/-- A key runs to white space or an equals sign. -/
def continuesKey (c : Char) : Bool := !isBlank c && c ≠ '='

/-- Reads the attributes in the text of a tag behind its name. The first
character of a key is taken whatever it is. A key counts as seen once its equals
sign is found, also if no value follows; behind a repeated key and behind a
value without quotes reading goes on at the next white space. -/
def scanAttributes (seen : List String) (cs : List Char) :
    List (Except AttributeFault Attribute) :=
  match first : cs.dropWhile isBlank with
  | [] => []
  | c :: tail =>
      let key := String.ofList (c :: tail.takeWhile continuesKey)
      have := tail_lt first
      match equals : (tail.dropWhile continuesKey).dropWhile isBlank with
      | [] => [.error (.missingEquals key)]
      | e :: afterEquals =>
          have := tail_lt equals
          if e ≠ '=' then .error (.missingEquals key) :: scanAttributes seen (e :: afterEquals)
          else if seen.contains key then
            .error (.repeated key)
              :: scanAttributes seen (afterEquals.dropWhile fun x => !isBlank x)
          else
            match value : afterEquals.dropWhile isBlank with
            | [] => [.error (.unquoted key)]
            | q :: text =>
                have := tail_lt value
                if isQuote q then
                  match closing : text.dropWhile (· ≠ q) with
                  | [] => [.error (.unclosed key)]
                  | _ :: after =>
                      have := tail_lt closing
                      .ok ⟨key, String.ofList (text.takeWhile (· ≠ q))⟩
                        :: scanAttributes (key :: seen) after
                else
                  .error (.unquoted key)
                    :: scanAttributes (key :: seen) ((q :: text).dropWhile fun x => !isBlank x)
termination_by cs.length
decreasing_by
  all_goals have hkey := Text.length_dropWhile_le continuesKey tail
  · simp only [List.length_cons]
    omega
  · have hrest := Text.length_dropWhile_le (fun x => !isBlank x) afterEquals
    omega
  · omega
  · have hrest := Text.length_dropWhile_le (fun x => !isBlank x) (q :: text)
    simp only [List.length_cons] at hrest
    omega

end ConstructorSynthesis.Markup
