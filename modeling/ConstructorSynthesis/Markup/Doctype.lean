import ConstructorSynthesis.Markup.Fault
import ConstructorSynthesis.Markup.Scan

/-!
Document type declarations. Nothing in them is used, so all that matters is
where they end: at the first closing bracket outside quotes, or, when there is
an internal subset, at the first one behind the subset. Within the subset a
square bracket inside a markup declaration does not close it.
-/

namespace ConstructorSynthesis.Markup

/-- The text behind one construct of the internal subset, given the text behind
its opening angle bracket. Declarations that may hold literals end outside
quotes; everything else ends at its own terminator. -/
def afterSubsetItem? (cs : List Char) : Option (List Char) :=
  if "?".toList.isPrefixOf cs then after? "?>".toList (cs.drop 1)
  else if "!--".toList.isPrefixOf cs then after? "-->".toList (cs.drop 3)
  else if ["!ENTITY", "!ATTLIST", "!NOTATION"].any (·.toList.isPrefixOf cs) then
    afterUnquoted? none cs
  else after? ">".toList cs

theorem length_afterSubsetItem?_le {cs rest : List Char} (h : afterSubsetItem? cs = some rest) :
    rest.length ≤ cs.length := by
  unfold afterSubsetItem? at h
  split at h
  · exact Nat.le_trans (length_after?_le h) (by simp)
  · split at h
    · exact Nat.le_trans (length_after?_le h) (by simp)
    · split at h
      · exact Nat.le_of_lt (length_afterUnquoted?_lt h)
      · exact length_after?_le h

/-- The text behind the declaration, from inside its internal subset. -/
def afterSubset? (cs : List Char) : Option (List Char) :=
  match cs with
  | [] => none
  | c :: cs =>
      if c = ']' then after? ">".toList cs
      else if c = '<' then
        match h : afterSubsetItem? cs with
        | none => none
        | some rest =>
            have := length_afterSubsetItem?_le h
            afterSubset? rest
      else afterSubset? cs
termination_by cs.length

/-- The text behind the declaration, where `quote` is the quote that is open. -/
def afterDoctype? (quote : Option Char) : List Char → Option (List Char)
  | [] => none
  | c :: cs =>
      if quote = none ∧ c = '>' then some cs
      else if quote = none ∧ c = '[' then afterSubset? cs
      else afterDoctype? (nextQuote quote c) cs

theorem length_afterSubset?_le {cs rest : List Char} (h : afterSubset? cs = some rest) :
    rest.length ≤ cs.length := by
  fun_induction afterSubset? cs with
  | case1 => simp at h
  | case2 cs => exact Nat.le_succ_of_le (length_after?_le h)
  | case3 cs _ _ => simp at h
  | case4 cs _ item hitem short ih =>
      have := ih h
      simp only [List.length_cons]
      omega
  | case5 c cs _ _ ih => exact Nat.le_succ_of_le (ih h)

theorem length_afterDoctype?_le {quote : Option Char} {cs rest : List Char}
    (h : afterDoctype? quote cs = some rest) : rest.length ≤ cs.length := by
  induction cs generalizing quote with
  | nil => simp [afterDoctype?] at h
  | cons c cs ih =>
      simp only [afterDoctype?] at h
      split at h
      · cases h
        simp
      · split at h
        · exact Nat.le_succ_of_le (length_afterSubset?_le h)
        · exact Nat.le_succ_of_le (ih h)

def doctypeKeyword : List Char := "doctype".toList

/-- Skips a declaration, given the text behind `<!`. The keyword may be in any
case, and some character that is not blank has to follow it. -/
def skipDoctype (cs : List Char) : Except Fault (List Char) :=
  let body := cs.drop doctypeKeyword.length
  if (cs.take doctypeKeyword.length).map Char.toLower = doctypeKeyword then
    match afterDoctype? none body with
    | none => .error (.malformed .doctypeNotClosed)
    | some rest =>
        if (body.dropWhile isBlank).head? = some '>' then .error (.illFormed .unnamedDoctype)
        else .ok rest
  else .error (.malformed .doctypeNotClosed)

theorem length_skipDoctype_le {cs rest : List Char} (h : skipDoctype cs = .ok rest) :
    rest.length ≤ cs.length := by
  simp only [skipDoctype] at h
  split at h
  · split at h
    · simp at h
    · next found =>
        split at h
        · simp at h
        · cases h
          exact Nat.le_trans (length_afterDoctype?_le found) (by simp)
  · simp at h

end ConstructorSynthesis.Markup
