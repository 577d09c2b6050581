import Mathlib.Data.List.Basic
import Mathlib.Data.List.TakeWhile
import ConstructorSynthesis.Markup.Event
import ConstructorSynthesis.Proofs.Result

/-!
Texts put together. Every construct of a document ends at a terminator of its
own, so a reader that has found the terminator does not look at what follows. For
each scanner there is one statement: if it succeeds on a text, it succeeds on the
text with anything behind it, gives the same result and leaves the same rest with
that behind it. Hence the tags of a text that is markup to its end, followed by
another text, are the tags of the two texts one after the other.
-/

namespace ConstructorSynthesis.Markup

section Terminators

variable {pattern cs rest : List Char}

theorem exists_eq_of_after? (h : after? pattern cs = some rest) :
    ∃ front, cs = front ++ pattern ++ rest := by
  induction cs with
  | nil =>
      simp only [after?, List.isEmpty_iff] at h
      split at h
      · next empty =>
          cases h
          exact ⟨[], by simp [empty]⟩
      · cases h
  | cons c cs ih =>
      simp only [after?] at h
      split at h
      · next starts =>
          cases h
          obtain ⟨back, hback⟩ := List.isPrefixOf_iff_prefix.mp starts
          exact ⟨[], by simp [← hback]⟩
      · obtain ⟨front, hfront⟩ := ih h
        exact ⟨c :: front, by simp [hfront]⟩

theorem exists_eq_of_afterUnquoted? {quote : Option Char}
    (h : afterUnquoted? quote cs = some rest) : ∃ front, cs = front ++ '>' :: rest := by
  induction cs generalizing quote with
  | nil => simp [afterUnquoted?] at h
  | cons c cs ih =>
      simp only [afterUnquoted?] at h
      split at h
      · next ends =>
          cases h
          exact ⟨[], by simp [ends.2]⟩
      · obtain ⟨front, hfront⟩ := ih h
        exact ⟨c :: front, by simp [hfront]⟩

end Terminators

/-- Whether a text begins with a pattern is settled as soon as it holds a
character that is not in the pattern. -/
theorem isPrefixOf_append_of_mem {pattern cs : List Char} {c : Char} (hc : c ∈ cs)
    (other : c ∉ pattern) (more : List Char) :
    pattern.isPrefixOf (cs ++ more) = pattern.isPrefixOf cs := by
  induction pattern generalizing cs with
  | nil => simp
  | cons p pattern ih =>
      cases cs with
      | nil => simp at hc
      | cons d cs =>
          simp only [List.mem_cons, not_or] at hc other
          rcases hc with rfl | later
          · have hfirst : (p == c) = false := beq_eq_false_iff_ne.mpr (Ne.symm other.1)
            simp [List.isPrefixOf, hfirst]
          · simp [List.isPrefixOf, ih later other.2]

section Append

variable {cs rest : List Char} (more : List Char)

theorem after?_append {pattern : List Char} (h : after? pattern cs = some rest) :
    after? pattern (cs ++ more) = some (rest ++ more) := by
  induction cs with
  | nil =>
      simp only [after?, List.isEmpty_iff] at h
      split at h
      · next empty =>
          cases h
          cases more <;> simp [after?, empty]
      · cases h
  | cons c cs ih =>
      simp only [after?] at h
      split at h
      · next starts =>
          cases h
          have hstarts := List.isPrefixOf_iff_prefix.mp starts
          have hmore : pattern.isPrefixOf (c :: (cs ++ more)) = true :=
            List.isPrefixOf_iff_prefix.mpr (hstarts.trans (List.prefix_append _ more))
          rw [List.cons_append, after?, if_pos hmore, ← List.cons_append,
            List.drop_append_of_le_length hstarts.length_le]
      · next starts =>
          -- The pattern still comes, so it is no longer than what is left of the text.
          obtain ⟨front, hfront⟩ := exists_eq_of_after? h
          have hlength : pattern.length ≤ (c :: cs).length := by
            simp only [hfront, List.length_cons, List.length_append]
            omega
          have hmore : ¬ pattern.isPrefixOf (c :: (cs ++ more)) = true := by
            rw [List.isPrefixOf_iff_prefix] at starts ⊢
            intro begins
            exact starts (List.prefix_of_prefix_length_le begins
              (List.prefix_append (c :: cs) more) hlength)
          rw [List.cons_append, after?, if_neg hmore]
          exact ih h

theorem afterUnquoted?_append {quote : Option Char} (h : afterUnquoted? quote cs = some rest) :
    afterUnquoted? quote (cs ++ more) = some (rest ++ more) := by
  induction cs generalizing quote with
  | nil => simp [afterUnquoted?] at h
  | cons c cs ih =>
      simp only [afterUnquoted?, List.cons_append] at h ⊢
      split at h
      · next ends =>
          cases h
          rw [if_pos ends]
      · next ends =>
          rw [if_neg ends]
          exact ih h

theorem cutTag_append {quote : Option Char} {body : List Char}
    (h : cutTag quote cs = .ok (body, rest)) :
    cutTag quote (cs ++ more) = .ok (body, rest ++ more) := by
  induction cs generalizing quote body with
  | nil => cases quote <;> simp [cutTag] at h
  | cons c cs ih =>
      simp only [cutTag, List.cons_append] at h ⊢
      split at h
      · next ends =>
          cases h
          rw [if_pos ends]
      · next ends =>
          rw [if_neg ends]
          split at h
          · cases h
          · next cut =>
              cases h
              rw [ih cut]

/-- A construct of an internal subset ends with a closing angle bracket, which is
in none of the patterns that tell the constructs apart. -/
theorem mem_of_afterSubsetItem? (h : afterSubsetItem? cs = some rest) : '>' ∈ cs := by
  unfold afterSubsetItem? at h
  split at h
  · obtain ⟨front, hfront⟩ := exists_eq_of_after? h
    exact List.mem_of_mem_drop (by rw [hfront]; simp)
  · split at h
    · obtain ⟨front, hfront⟩ := exists_eq_of_after? h
      exact List.mem_of_mem_drop (by rw [hfront]; simp)
    · split at h
      · obtain ⟨front, rfl⟩ := exists_eq_of_afterUnquoted? h
        simp
      · obtain ⟨front, rfl⟩ := exists_eq_of_after? h
        simp

theorem afterSubsetItem?_append (h : afterSubsetItem? cs = some rest) :
    afterSubsetItem? (cs ++ more) = some (rest ++ more) := by
  have hends := mem_of_afterSubsetItem? h
  have hsame (pattern : List Char) (other : '>' ∉ pattern) :=
    isPrefixOf_append_of_mem hends other more
  have hliteral : ["!ENTITY", "!ATTLIST", "!NOTATION"].any (·.toList.isPrefixOf (cs ++ more)) =
      ["!ENTITY", "!ATTLIST", "!NOTATION"].any (·.toList.isPrefixOf cs) := by
    simp only [List.any_cons, List.any_nil, hsame "!ENTITY".toList (by decide),
      hsame "!ATTLIST".toList (by decide), hsame "!NOTATION".toList (by decide)]
  have hdrop {pattern : List Char} (starts : pattern.isPrefixOf cs = true) :
      (cs ++ more).drop pattern.length = cs.drop pattern.length ++ more :=
    List.drop_append_of_le_length (List.isPrefixOf_iff_prefix.mp starts).length_le
  unfold afterSubsetItem? at h ⊢
  rw [hsame "?".toList (by decide), hsame "!--".toList (by decide), hliteral]
  split at h
  · next instruction =>
      rw [if_pos instruction, ← after?_append more h]
      exact congrArg _ (hdrop instruction)
  · next instruction =>
      rw [if_neg instruction]
      split at h
      · next comment =>
          rw [if_pos comment, ← after?_append more h]
          exact congrArg _ (hdrop comment)
      · next comment =>
          rw [if_neg comment]
          split at h
          · next literal =>
              rw [if_pos literal]
              exact afterUnquoted?_append more h
          · next literal =>
              rw [if_neg literal]
              exact after?_append more h

theorem afterSubset?_append (h : afterSubset? cs = some rest) :
    afterSubset? (cs ++ more) = some (rest ++ more) := by
  fun_induction afterSubset? cs with
  | case1 => simp at h
  | case2 cs =>
      rw [List.cons_append, afterSubset?, if_pos rfl]
      exact after?_append more h
  | case3 cs missing => simp at h
  | case4 cs behind item short opens ih =>
      have hitem := afterSubsetItem?_append more item
      rw [List.cons_append, afterSubset?, if_neg (by decide), if_pos rfl]
      split
      · next missing => simp [hitem] at missing
      · next found =>
          rw [hitem] at found
          cases found
          exact ih h
  | case5 c cs closes opens ih =>
      rw [List.cons_append, afterSubset?, if_neg closes, if_neg opens]
      exact ih h

theorem afterDoctype?_append {quote : Option Char} (h : afterDoctype? quote cs = some rest) :
    afterDoctype? quote (cs ++ more) = some (rest ++ more) := by
  induction cs generalizing quote with
  | nil => simp [afterDoctype?] at h
  | cons c cs ih =>
      simp only [afterDoctype?, List.cons_append] at h ⊢
      split at h
      · next ends =>
          cases h
          rw [if_pos ends]
      · next ends =>
          rw [if_neg ends]
          split at h
          · next subset =>
              rw [if_pos subset]
              exact afterSubset?_append more h
          · next subset =>
              rw [if_neg subset]
              exact ih h

theorem exists_not_blank_of_afterDoctype? {quote : Option Char}
    (h : afterDoctype? quote cs = some rest) : ∃ c ∈ cs, isBlank c = false := by
  induction cs generalizing quote with
  | nil => simp [afterDoctype?] at h
  | cons c cs ih =>
      simp only [afterDoctype?] at h
      split at h
      · next ends => exact ⟨c, List.mem_cons_self, by rw [ends.2]; rfl⟩
      · split at h
        · next subset => exact ⟨c, List.mem_cons_self, by rw [subset.2]; rfl⟩
        · obtain ⟨d, member, hd⟩ := ih h
          exact ⟨d, List.mem_cons_of_mem c member, hd⟩

theorem afterReference?_append (h : afterReference? cs = some rest) :
    afterReference? (cs ++ more) = some (rest ++ more) := by
  unfold afterReference? at h ⊢
  split at h
  · next found =>
      cases h
      rw [List.dropWhile_append, found]
      rfl
  · cases h

end Append

/-- What a scanner passes over, and where it stops, does not depend on what
follows there. -/
def IsLocal {ε : Type} (skip : List Char → Except ε (List Char)) : Prop :=
  ∀ cs rest more, skip cs = .ok rest → skip (cs ++ more) = .ok (rest ++ more)

theorem isLocal_skipDoctype : IsLocal skipDoctype := by
  intro cs rest more h
  simp only [skipDoctype] at h ⊢
  split at h
  · next keyword =>
      have hlength : doctypeKeyword.length ≤ cs.length := by
        have hkeyword := congrArg List.length keyword
        rw [List.length_map, List.length_take] at hkeyword
        omega
      rw [List.take_append_of_le_length hlength, if_pos keyword,
        List.drop_append_of_le_length hlength]
      split at h
      · cases h
      · next found =>
          rw [afterDoctype?_append more found]
          obtain ⟨c, member, hc⟩ := exists_not_blank_of_afterDoctype? found
          have hfirst : ((cs.drop doctypeKeyword.length).dropWhile isBlank).isEmpty = false := by
            rw [List.isEmpty_eq_false_iff, Ne, List.dropWhile_eq_nil_iff]
            intro blank
            simp [blank c member] at hc
          rw [List.dropWhile_append, hfirst]
          split at h
          · cases h
          · next named =>
              cases h
              rw [List.isEmpty_eq_false_iff] at hfirst
              simp [List.head?_append_of_ne_nil _ hfirst, named]
  · cases h

theorem isLocal_skipInstruction : IsLocal skipInstruction := by
  intro cs rest more h
  simp only [skipInstruction] at h ⊢
  split at h
  · cases h
  · next first =>
      split at h
      · cases h
      · next found =>
          cases h
          obtain ⟨front, hfront⟩ := exists_eq_of_after? found
          have hnonempty : cs ≠ [] := by
            rintro rfl
            simp at hfront
          rw [List.head?_append_of_ne_nil _ hnonempty, if_neg first, after?_append more found]

theorem isLocal_skipComment : IsLocal skipComment := by
  intro cs rest more h
  unfold skipComment at h
  split at h
  · split at h
    · cases h
    · next found =>
        cases h
        simp only [skipComment, List.cons_append, after?_append more found]
  · cases h

theorem isLocal_skipCdata : IsLocal skipCdata := by
  intro cs rest more h
  unfold skipCdata at h ⊢
  split at h
  · next begins =>
      have hmore : "[CDATA[".toList.isPrefixOf (cs ++ more) = true := by
        rw [List.isPrefixOf_iff_prefix] at begins ⊢
        exact begins.trans (List.prefix_append cs more)
      rw [if_pos hmore]
      split at h
      · cases h
      · next found =>
          cases h
          rw [after?_append more found]
  · cases h

theorem orMalformed_eq_ok_iff {α : Type} {result : Except SyntaxFault α} {a : α} :
    orMalformed result = .ok a ↔ result = .ok a := by
  cases result <;> simp [orMalformed]

namespace IsLocal

variable {cs rest : List Char} {event : Option Event}

theorem scan_append {skip : List Char → Except Fault (List Char)} (hskip : IsLocal skip)
    (h : (skip cs).map (fun rest => (none, rest)) = .ok (event, rest)) (more : List Char) :
    (skip (cs ++ more)).map (fun rest => (none, rest)) = .ok (event, rest ++ more) := by
  obtain ⟨behind, hbehind, hevent⟩ := exists_of_map_eq_ok h
  cases hevent
  rw [hskip cs rest more hbehind]
  rfl

theorem orMalformed_scan_append {skip : List Char → Except SyntaxFault (List Char)}
    (hskip : IsLocal skip)
    (h : (orMalformed (skip cs)).map (fun rest => (none, rest)) = .ok (event, rest))
    (more : List Char) :
    (orMalformed (skip (cs ++ more))).map (fun rest => (none, rest)) =
      .ok (event, rest ++ more) := by
  have hlocal : IsLocal fun cs => orMalformed (skip cs) := by
    intro cs rest more hscan
    rw [orMalformed_eq_ok_iff] at hscan ⊢
    exact hskip cs rest more hscan
  exact hlocal.scan_append h more

end IsLocal

/-- What is neither a declaration nor an instruction is a tag. -/
theorem scanMarkup_of_tag {c : Char} (declares : c ≠ '!') (instructs : c ≠ '?') (cs : List Char) :
    scanMarkup (c :: cs) =
      (orMalformed (cutTag none (c :: cs))).map fun (body, rest) =>
        (some (Event.ofText body), rest) := by
  unfold scanMarkup
  split
  · next first => exact absurd (List.cons.inj first).1 declares
  · next first => exact absurd (List.cons.inj first).1 instructs
  · rfl

/-- A construct that is read to its end is read alike before any text. -/
theorem scanMarkup_append {cs rest : List Char} {event : Option Event}
    (h : scanMarkup cs = .ok (event, rest)) (more : List Char) :
    scanMarkup (cs ++ more) = .ok (event, rest ++ more) := by
  cases cs with
  | nil => cases h
  | cons c cs =>
      by_cases declares : c = '!'
      · subst declares
        simp only [scanMarkup] at h
        split at h
        · exact isLocal_skipCdata.orMalformed_scan_append h more
        · exact isLocal_skipComment.orMalformed_scan_append h more
        · exact isLocal_skipDoctype.scan_append h more
        · exact isLocal_skipDoctype.scan_append h more
        · cases h
      by_cases instructs : c = '?'
      · subst instructs
        exact isLocal_skipInstruction.orMalformed_scan_append h more
      · rw [scanMarkup_of_tag declares instructs] at h
        obtain ⟨⟨body, behind⟩, hcut, hevent⟩ := exists_of_map_eq_ok h
        rw [orMalformed_eq_ok_iff] at hcut
        cases hevent
        rw [List.cons_append, scanMarkup_of_tag declares instructs, ← List.cons_append,
          cutTag_append more hcut]
        rfl

section Tags

variable {cs rest : List Char}

theorem scanTags_nil : scanTags [] = .done := by rw [scanTags]

theorem scanTags_skip (h : scanMarkup cs = .ok (none, rest)) :
    scanTags ('<' :: cs) = scanTags rest := by
  rw [scanTags, if_pos rfl]
  split
  · next fails => simp [h] at fails
  · next found =>
      rw [h] at found
      cases found
      rfl

theorem scanTags_tag {event : Event} (h : scanMarkup cs = .ok (some event, rest)) :
    scanTags ('<' :: cs) = .next event (scanTags rest) := by
  rw [scanTags, if_pos rfl]
  split
  · next fails => simp [h] at fails
  · next found =>
      rw [h] at found
      cases found
      rfl

theorem scanTags_reference (h : afterReference? cs = some rest) :
    scanTags ('&' :: cs) = scanTags rest := by
  rw [scanTags, if_neg (by decide), if_pos rfl]
  split
  · next fails => simp [h] at fails
  · next found =>
      rw [h] at found
      cases found
      rfl

theorem scanTags_text {c : Char} (opens : c ≠ '<') (refers : c ≠ '&') (cs : List Char) :
    scanTags (c :: cs) = scanTags cs := by
  rw [scanTags, if_neg opens, if_neg refers]

end Tags

/-- The elements that are open behind a tag, from the inside out, where `opened`
are those that are open before it. -/
def Event.openBehind (opened : List String) : Event → List String
  | .start tag => tag.name :: opened
  | .empty _ => opened
  | .stop _ => opened.tail

namespace Stream

/-- The fault that stops a sequence, if it does not end with the document. -/
def fault? : Stream → Option Fault
  | .done => none
  | .broken fault => some fault
  | .next _ rest => rest.fault?

/-- One sequence behind another. What stands behind a fault is not reached. -/
def append : Stream → Stream → Stream
  | .done, t => t
  | .broken fault, _ => .broken fault
  | .next event rest, t => .next event (rest.append t)

/-- The elements that are open where a sequence ends. -/
def openAtEnd (opened : List String) : Stream → List String
  | .done => opened
  | .broken _ => opened
  | .next event rest => rest.openAtEnd (event.openBehind opened)

theorem nest_append (s t : Stream) (opened : List String) :
    (s.append t).nest opened = (s.nest opened).append (t.nest (s.openAtEnd opened)) := by
  induction s generalizing opened with
  | done => rfl
  | broken fault => rfl
  | next event rest ih =>
      cases event with
      | start tag => simp only [append, nest, openAtEnd, Event.openBehind, ih]
      | empty tag => simp only [append, nest, openAtEnd, Event.openBehind, ih]
      | stop name =>
          cases opened with
          | nil => rfl
          | cons innermost outer =>
              by_cases same : name = innermost
              · simp only [append, nest, openAtEnd, Event.openBehind, if_pos same, ih,
                  List.tail_cons]
              · simp only [append, nest, if_neg same]

end Stream

/-- The tags of a text that is markup to its end, and then those of what follows. -/
theorem scanTags_append {cs : List Char} (whole : (scanTags cs).fault? = none)
    (more : List Char) :
    scanTags (cs ++ more) = (scanTags cs).append (scanTags more) := by
  fun_induction scanTags cs with
  | case1 => rfl
  | case2 cs fault fails => cases whole
  | case3 cs rest found _ short ih =>
      rw [List.cons_append, scanTags_skip (scanMarkup_append found more), ih whole]
  | case4 cs rest event found _ short ih =>
      rw [List.cons_append, scanTags_tag (scanMarkup_append found more), ih whole]
      rfl
  | case5 cs fails other => cases whole
  | case6 cs rest found short other ih =>
      rw [List.cons_append, scanTags_reference (afterReference?_append more found), ih whole]
  | case7 c cs opens refers ih =>
      rw [List.cons_append, scanTags_text opens refers, ih whole]

end ConstructorSynthesis.Markup
