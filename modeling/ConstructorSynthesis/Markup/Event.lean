import ConstructorSynthesis.Markup.Attribute
import ConstructorSynthesis.Markup.Doctype

/-!
A document as the sequence of its tags. Text, references, comments, CDATA
sections, instructions and document type declarations carry nothing and are
passed over; a sequence ends either with the document or with the fault that
stopped the reader. Elements that are still open at the end are no fault.
-/

namespace ConstructorSynthesis.Markup

/-- The name of a start tag and everything that follows it, attribute or not. -/
structure Tag where
  name : String
  items : List (Except AttributeFault Attribute)

/-- The attributes that could be read, in the order in which they are written. -/
def Tag.attributes (t : Tag) : List Attribute := t.items.filterMap Except.toOption

inductive Event where
  | start (tag : Tag)
  | empty (tag : Tag)
  | stop (name : String)

inductive Stream where
  | done
  | broken (fault : Fault)
  | next (event : Event) (rest : Stream)

/-- A start tag from its text without the brackets; the name runs to the first
white space and may be empty. -/
def Tag.ofText (cs : List Char) : Tag where
  name := String.ofList (cs.takeWhile fun c => !isBlank c)
  items := scanAttributes [] (cs.dropWhile fun c => !isBlank c)

/-- The name in an end tag: white space behind it is dropped, unless there is
nothing else. -/
def closingName (cs : List Char) : String :=
  let trimmed := (cs.reverse.dropWhile isBlank).reverse
  String.ofList (if trimmed.isEmpty then cs else trimmed)

/-- A tag from its text between the angle brackets. -/
def Event.ofText : List Char → Event
  | '/' :: cs => .stop (closingName cs)
  | cs => if cs.getLast? = some '/' then .empty (Tag.ofText cs.dropLast) else .start (Tag.ofText cs)

/-- Cuts a tag at the first closing angle bracket outside quotes, where `quote`
is the quote that is open. -/
def cutTag (quote : Option Char) : List Char → Except SyntaxFault (List Char × List Char)
  | [] =>
      match quote with
      | none => .error .tagNotClosed
      | some q => .error (.valueNotClosed q)
  | c :: cs =>
      if quote = none ∧ c = '>' then .ok ([], cs)
      else
        match cutTag (nextQuote quote c) cs with
        | .error fault => .error fault
        | .ok (body, rest) => .ok (c :: body, rest)

/-- An instruction is the declaration of the document's own encoding. -/
def isXmlDeclaration (cs : List Char) : Bool :=
  "xml".toList.isPrefixOf cs &&
    match cs.drop 3 with
    | [] => true
    | c :: _ => isBlank c || c = '?'

/-- Passes over an instruction, given the text behind `<?`. -/
def skipInstruction (cs : List Char) : Except SyntaxFault (List Char) :=
  let fault : SyntaxFault :=
    if isXmlDeclaration cs then .declarationNotClosed else .instructionNotClosed
  if cs.head? = some '>' then .error fault
  else
    match after? "?>".toList cs with
    | none => .error fault
    | some rest => .ok rest

/-- Passes over a comment, given the text behind `<!`. -/
def skipComment : List Char → Except SyntaxFault (List Char)
  | '-' :: '-' :: cs =>
      match after? "-->".toList cs with
      | none => .error .commentNotClosed
      | some rest => .ok rest
  | _ => .error .commentNotClosed

/-- Passes over a CDATA section, given the text behind `<!`. -/
def skipCdata (cs : List Char) : Except SyntaxFault (List Char) :=
  if "[CDATA[".toList.isPrefixOf cs then
    match after? "]]>".toList cs with
    | none => .error .cdataNotClosed
    | some rest => .ok rest
  else .error .cdataNotClosed

def orMalformed {α : Type} : Except SyntaxFault α → Except Fault α
  | .ok a => .ok a
  | .error fault => .error (.malformed fault)

/-- Reads one construct, given the text behind its opening angle bracket. -/
def scanMarkup (cs : List Char) : Except Fault (Option Event × List Char) :=
  match cs with
  | '!' :: cs =>
      match cs with
      | '[' :: _ => (orMalformed (skipCdata cs)).map fun rest => (none, rest)
      | '-' :: _ => (orMalformed (skipComment cs)).map fun rest => (none, rest)
      | 'D' :: _ | 'd' :: _ => (skipDoctype cs).map fun rest => (none, rest)
      | _ => .error (.malformed .unknownMarkup)
  | '?' :: cs => (orMalformed (skipInstruction cs)).map fun rest => (none, rest)
  | cs =>
      (orMalformed (cutTag none cs)).map fun (body, rest) => (some (Event.ofText body), rest)

/-- The text behind a reference, given the text behind its ampersand. Any name
will do, but the reference has to end before the next one or the next tag. -/
def afterReference? (cs : List Char) : Option (List Char) :=
  match cs.dropWhile (fun c => c ≠ ';' && c ≠ '&' && c ≠ '<') with
  | ';' :: rest => some rest
  | _ => none

theorem length_cutTag_lt {quote : Option Char} {cs body rest : List Char}
    (h : cutTag quote cs = .ok (body, rest)) : rest.length < cs.length := by
  induction cs generalizing quote body with
  | nil => cases quote <;> simp [cutTag] at h
  | cons c cs ih =>
      simp only [cutTag] at h
      split at h
      · cases h
        simp
      · split at h
        · simp at h
        · next cut =>
            cases h
            exact Nat.lt_succ_of_lt (ih cut)

private theorem length_skipInstruction_le {cs rest : List Char}
    (h : skipInstruction cs = .ok rest) : rest.length ≤ cs.length := by
  simp only [skipInstruction] at h
  split at h
  · simp at h
  · split at h
    · simp at h
    · next found =>
        cases h
        exact length_after?_le found

private theorem length_skipComment_le {cs rest : List Char} (h : skipComment cs = .ok rest) :
    rest.length ≤ cs.length := by
  unfold skipComment at h
  split at h
  · split at h
    · simp at h
    · next found =>
        cases h
        have := length_after?_le found
        simp only [List.length_cons]
        omega
  · simp at h

private theorem length_skipCdata_le {cs rest : List Char} (h : skipCdata cs = .ok rest) :
    rest.length ≤ cs.length := by
  unfold skipCdata at h
  split at h
  · split at h
    · simp at h
    · next found =>
        cases h
        exact length_after?_le found
  · simp at h

private theorem eq_ok_of_skip {skip : Except Fault (List Char)} {event : Option Event}
    {rest : List Char} (h : skip.map (fun rest => (none, rest)) = .ok (event, rest)) :
    skip = .ok rest := by
  cases skip with
  | error => simp [Except.map] at h
  | ok found =>
      simp only [Except.map, Except.ok.injEq, Prod.mk.injEq] at h
      rw [h.2]

private theorem eq_ok_of_orMalformed {α : Type} {result : Except SyntaxFault α} {a : α}
    (h : orMalformed result = .ok a) : result = .ok a := by
  cases result with
  | error => simp [orMalformed] at h
  | ok b => simpa [orMalformed] using h

theorem length_scanMarkup_le {cs rest : List Char} {event : Option Event}
    (h : scanMarkup cs = .ok (event, rest)) : rest.length ≤ cs.length := by
  unfold scanMarkup at h
  split at h
  · apply Nat.le_succ_of_le
    split at h
    · exact length_skipCdata_le (eq_ok_of_orMalformed (eq_ok_of_skip h))
    · exact length_skipComment_le (eq_ok_of_orMalformed (eq_ok_of_skip h))
    · exact length_skipDoctype_le (eq_ok_of_skip h)
    · exact length_skipDoctype_le (eq_ok_of_skip h)
    · simp at h
  · exact Nat.le_succ_of_le (length_skipInstruction_le (eq_ok_of_orMalformed (eq_ok_of_skip h)))
  · cases cut : cutTag none cs with
    | error => simp [cut, orMalformed, Except.map] at h
    | ok pieces =>
        simp only [cut, orMalformed, Except.map, Except.ok.injEq, Prod.mk.injEq] at h
        rw [← h.2]
        exact Nat.le_of_lt (length_cutTag_lt cut)

theorem length_afterReference?_lt {cs rest : List Char} (h : afterReference? cs = some rest) :
    rest.length < cs.length := by
  have whole := Text.length_dropWhile_le (fun c => c ≠ ';' && c ≠ '&' && c ≠ '<') cs
  unfold afterReference? at h
  split at h
  · next found =>
      cases h
      rw [found] at whole
      exact whole
  · simp at h

/-- The tags of a text, without regard to how they are nested. -/
def scanTags (cs : List Char) : Stream :=
  match cs with
  | [] => .done
  | c :: cs =>
      if c = '<' then
        match h : scanMarkup cs with
        | .error fault => .broken fault
        | .ok (event, rest) =>
            have := length_scanMarkup_le h
            match event with
            | none => scanTags rest
            | some event => .next event (scanTags rest)
      else if c = '&' then
        match h : afterReference? cs with
        | none => .broken (.illFormed .referenceNotClosed)
        | some rest =>
            have := length_afterReference?_lt h
            scanTags rest
      else scanTags cs
termination_by cs.length
decreasing_by
  all_goals simp only [List.length_cons]
  all_goals omega

/-- Stops a sequence at the first end tag that does not close the innermost of
the elements that are open. -/
def Stream.nest (opened : List String) : Stream → Stream
  | .done => .done
  | .broken fault => .broken fault
  | .next (.start tag) rest => .next (.start tag) (rest.nest (tag.name :: opened))
  | .next (.empty tag) rest => .next (.empty tag) (rest.nest opened)
  | .next (.stop name) rest =>
      match opened with
      | [] => .broken (.illFormed (.closeWithoutOpen name))
      | innermost :: outer =>
          if name = innermost then .next (.stop name) (rest.nest outer)
          else .broken (.illFormed (.closeMismatch innermost name))

/-- The text without the byte order mark at its front. -/
def dropMark : List Char → List Char
  | '\uFEFF' :: cs => cs
  | cs => cs

/-- The tags of a document. -/
def Stream.ofText (text : String) : Stream := (scanTags (dropMark text.toList)).nest []

end ConstructorSynthesis.Markup
