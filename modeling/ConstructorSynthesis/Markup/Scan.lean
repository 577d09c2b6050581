import ConstructorSynthesis.Text.Space

/-!
Moving forward in the text of a document. Each function gives the text behind
what it looked for; that the rest is no longer than the text is what ends the
loops over it.
-/

namespace ConstructorSynthesis.Markup

/-- White space between the parts of markup: blank, tab and the two line ends. -/
def isBlank (c : Char) : Bool := c = ' ' || c = '\t' || c = '\n' || c = '\r'

def isQuote (c : Char) : Bool := c = '\x22' || c = '\x27'

/-- The text behind the first place where the pattern stands. -/
def after? (pattern : List Char) : List Char → Option (List Char)
  | [] => if pattern.isEmpty then some [] else none
  | c :: cs =>
      if pattern.isPrefixOf (c :: cs) then some ((c :: cs).drop pattern.length)
      else after? pattern cs

/-- The quote that is open behind a character, given the one open before it. -/
def nextQuote (quote : Option Char) (c : Char) : Option Char :=
  match quote with
  | some q => if c = q then none else some q
  | none => if isQuote c then some c else none

/-- The text behind the first closing angle bracket outside quotes, where
`quote` is the quote that is open. -/
def afterUnquoted? (quote : Option Char) : List Char → Option (List Char)
  | [] => none
  | c :: cs =>
      if quote = none ∧ c = '>' then some cs else afterUnquoted? (nextQuote quote c) cs

theorem length_after?_le {pattern cs rest : List Char} (h : after? pattern cs = some rest) :
    rest.length ≤ cs.length := by
  induction cs with
  | nil =>
      simp only [after?] at h
      split at h <;> simp_all
  | cons c cs ih =>
      simp only [after?] at h
      split at h
      · cases h
        simp
      · exact Nat.le_succ_of_le (ih h)

theorem length_afterUnquoted?_lt {quote : Option Char} {cs rest : List Char}
    (h : afterUnquoted? quote cs = some rest) : rest.length < cs.length := by
  induction cs generalizing quote with
  | nil => simp [afterUnquoted?] at h
  | cons c cs ih =>
      simp only [afterUnquoted?] at h
      split at h
      · cases h
        simp
      · exact Nat.lt_succ_of_lt (ih h)

end ConstructorSynthesis.Markup
