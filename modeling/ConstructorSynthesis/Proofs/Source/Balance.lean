import Mathlib.Data.List.Infix
import Mathlib.Data.List.TakeWhile
import ConstructorSynthesis.Proofs.Declaration.Path
import ConstructorSynthesis.Proofs.Source.Layout

/-!
What a page holds after any calls. A page keeps a depth beside its text, and the
braces of the text show the same: as many blocks are open as there are opening
braces without a closing one, and each line is indented by the blocks that are open
where it begins. `Typeset` says of which lines a text is made up, each at its depth.
A call adds such lines, and all the rest is read off a typeset text, without the
calls that led to it.
-/

namespace ConstructorSynthesis

def openingBrace : Char := '\x7b'

def closingBrace : Char := '\x7d'

def braces : List Char := [openingBrace, closingBrace]

/-- A text that neither opens nor closes a block nor ends a line. -/
def IsPlainText (text : String) : Prop := Text.Avoids ('\n' :: braces) text.toList

instance (text : String) : Decidable (IsPlainText text) :=
  inferInstanceAs (Decidable (Text.Avoids ('\n' :: braces) text.toList))

/-- The braces of a text that are opened and not closed. -/
def openBraces (cs : List Char) : Nat := cs.count openingBrace - cs.count closingBrace

/-- No brace is closed before it is opened. -/
def NeverOverclosed (cs : List Char) : Prop :=
  ∀ front, front <+: cs → front.count closingBrace ≤ front.count openingBrace

structure Balanced (cs : List Char) : Prop where
  ordered : NeverOverclosed cs
  settled : cs.count openingBrace = cs.count closingBrace

theorem NeverOverclosed.append {text more : List Char} (h : NeverOverclosed text)
    (enough : text.count closingBrace + more.count closingBrace ≤ text.count openingBrace) :
    NeverOverclosed (text ++ more) := by
  intro front hfront
  rcases List.prefix_or_prefix_of_prefix hfront (List.prefix_append text more) with within | beyond
  · exact h front within
  · obtain ⟨part, rfl⟩ := beyond
    have hpart : part <+: more := (List.prefix_append_right_inj text).mp hfront
    have hcount := hpart.sublist.count_le closingBrace
    rw [List.count_append, List.count_append]
    omega

/-- So many indents one behind the other. -/
def marginText (indent : String) (depth : Nat) : List Char :=
  (List.replicate depth indent.toList).flatten

/-- A line at a depth, without its end. An empty line has no margin. -/
def lineChars (indent : String) (depth : Nat) (content : String) : List Char :=
  if content = "" then [] else marginText indent depth ++ content.toList

/-- The depth of a line behind a text: the braces that are open there, without the
one that the line closes if it is a closing brace. -/
def depthBehind (front : List Char) (content : String) : Nat :=
  if content = "\x7d" then openBraces front - 1 else openBraces front

section Lines

/-- The text is empty or ends with a line end. -/
def IsWholeLines (cs : List Char) : Prop := ∀ c ∈ cs.getLast?, c = '\n'

theorem isWholeLines_concat (cs : List Char) : IsWholeLines (cs ++ ['\n']) := by
  intro c last
  simpa using last.symm

variable {text front line last : List Char}

theorem IsWholeLines.eq_nil_of_append (h : IsWholeLines (front ++ line)) (single : '\n' ∉ line) :
    line = [] := by
  rcases List.eq_nil_or_concat line with rfl | ⟨init, c, rfl⟩
  · rfl
  · have hlast : c = '\n' := h c (by simp)
    simp [hlast] at single

/-- There is one way to take the last line off a text. -/
theorem IsWholeLines.split_unique (hfront : IsWholeLines front) (htext : IsWholeLines text)
    (hline : '\n' ∉ line) (hlast : '\n' ∉ last) (same : front ++ line = text ++ last) :
    front = text ∧ line = last := by
  rcases List.append_eq_append_iff.mp same with ⟨between, rfl, rfl⟩ | ⟨between, rfl, rfl⟩
  · simp only [List.mem_append, not_or] at hline
    simp [htext.eq_nil_of_append hline.1]
  · simp only [List.mem_append, not_or] at hlast
    simp [hfront.eq_nil_of_append hlast.1]

/-- The text has this line behind its lines `front`. -/
structure HasLine (text front line : List Char) : Prop where
  begins : IsWholeLines front
  single : '\n' ∉ line
  stands : front ++ (line ++ ['\n']) <+: text

/-- A line of a text with one line more is that line or a line of the text. -/
theorem HasLine.of_append (h : HasLine (text ++ (last ++ ['\n'])) front line)
    (whole : IsWholeLines text) (hlast : '\n' ∉ last) :
    HasLine text front line ∨ front = text ∧ line = last := by
  obtain ⟨begins, single, stands⟩ := h
  rcases List.prefix_or_prefix_of_prefix stands (List.prefix_append text _) with within | beyond
  · exact .inl ⟨begins, single, within⟩
  obtain ⟨more, hmore⟩ := beyond
  rw [← hmore, List.prefix_append_right_inj] at stands
  rcases List.prefix_concat_iff.mp stands with rfl | short
  · have same : front ++ line = text ++ last := by
      simpa [← List.append_assoc] using hmore.symm
    exact .inr (begins.split_unique whole single hlast same)
  · have hwhole : IsWholeLines (text ++ more) := by
      rw [hmore, ← List.append_assoc]
      exact isWholeLines_concat _
    obtain rfl := hwhole.eq_nil_of_append fun member => hlast (short.subset member)
    exact .inl ⟨begins, single, by rw [← hmore, List.append_nil]⟩

/-- What stands on the last line of a text. -/
def lastLine (cs : List Char) : List Char := (cs.reverse.takeWhile (· ≠ '\n')).reverse

theorem not_mem_lastLine (cs : List Char) : '\n' ∉ lastLine cs := by
  intro member
  have hbreak := List.mem_takeWhile_imp (List.mem_reverse.mp member)
  simp at hbreak

theorem exists_eq_append_lastLine (cs : List Char) :
    ∃ front, IsWholeLines front ∧ cs = front ++ lastLine cs := by
  let rest := cs.reverse.dropWhile (· ≠ '\n')
  refine ⟨rest.reverse, ?_, ?_⟩
  · intro c last
    rw [List.getLast?_reverse] at last
    have hstop := List.head?_dropWhile_not (fun c : Char => decide (c ≠ '\n')) cs.reverse
    rw [Option.mem_def.mp last] at hstop
    simpa using hstop
  · rw [lastLine, ← List.reverse_append, List.takeWhile_append_dropWhile, List.reverse_reverse]

end Lines

/-- How a line of a page goes with the depth: the depth before the line, that of
the line itself, and the depth behind it. -/
inductive LineStep : String → Nat → Nat → Nat → Prop where
  | plain {content : String} {depth : Nat} (plain : IsPlainText content) :
      LineStep content depth depth depth
  | opening {depth : Nat} : LineStep "\x7b" depth depth (depth + 1)
  | closing {depth : Nat} : LineStep "\x7d" (depth + 1) depth depth

/-- The text is made up of these lines, and so many blocks are open at its end. -/
inductive Typeset (indent : String) : List String → Nat → List Char → Prop where
  | nil : Typeset indent [] 0 []
  | line {lines : List String} {text : List Char} {content : String} {before own behind : Nat}
      (above : Typeset indent lines before text) (step : LineStep content before own behind) :
      Typeset indent (lines ++ [content]) behind
        (text ++ (lineChars indent own content ++ ['\n']))

section Plain

variable {text : String} (h : IsPlainText text)

include h

theorem IsPlainText.count_brace {brace : Char} (hbrace : brace ∈ braces) :
    text.toList.count brace = 0 :=
  List.count_eq_zero.mpr fun member => h brace member (List.mem_cons_of_mem _ hbrace)

theorem IsPlainText.ne_opening : text ≠ "\x7b" := by
  rintro rfl
  revert h
  decide

theorem IsPlainText.ne_closing : text ≠ "\x7d" := by
  rintro rfl
  revert h
  decide

theorem IsPlainText.not_mem_break : '\n' ∉ text.toList := fun member => h _ member (by decide)

theorem IsPlainText.not_mem_marginText {c : Char} (special : c ∈ '\n' :: braces) (depth : Nat) :
    c ∉ marginText text depth := by
  intro member
  obtain ⟨copy, hcopy, hc⟩ := List.mem_flatten.mp member
  rw [List.eq_of_mem_replicate hcopy] at hc
  exact h c hc special

theorem IsPlainText.count_marginText {brace : Char} (hbrace : brace ∈ braces) (depth : Nat) :
    (marginText text depth).count brace = 0 :=
  List.count_eq_zero.mpr (h.not_mem_marginText (List.mem_cons_of_mem _ hbrace) depth)

end Plain

namespace LineStep

variable {content : String} {before own behind : Nat} (h : LineStep content before own behind)

include h

theorem count_eq :
    behind + content.toList.count closingBrace = before + content.toList.count openingBrace := by
  cases h with
  | plain plain => rw [plain.count_brace (by decide), plain.count_brace (by decide)]
  | opening => rfl
  | closing => rfl

theorem count_closingBrace_le : content.toList.count closingBrace ≤ before := by
  cases h with
  | plain plain =>
      rw [plain.count_brace (by decide)]
      exact Nat.zero_le _
  | opening => exact Nat.zero_le _
  | closing => exact Nat.succ_le_succ (Nat.zero_le _)

theorem not_mem_break : '\n' ∉ content.toList := by
  cases h with
  | plain plain => exact plain.not_mem_break
  | opening => decide
  | closing => decide

theorem own_eq : own = if content = "\x7d" then before - 1 else before := by
  cases h with
  | plain plain => rw [if_neg plain.ne_closing]
  | opening => rfl
  | closing => rfl

theorem count_line_eq : behind + [content].count "\x7d" = before + [content].count "\x7b" := by
  cases h with
  | plain plain =>
      rw [List.count_cons_of_ne plain.ne_closing, List.count_cons_of_ne plain.ne_opening]
      rfl
  | opening => rfl
  | closing => rfl

/-- A line with a brace holds nothing else. -/
theorem eq_singleton_of_mem {brace : Char} (hbrace : brace ∈ braces)
    (member : brace ∈ content.toList) : content = String.singleton brace := by
  cases h with
  | plain plain => exact absurd (List.mem_cons_of_mem _ hbrace) (plain brace member)
  | opening =>
      obtain rfl : brace = openingBrace := by simpa [openingBrace] using member
      rfl
  | closing =>
      obtain rfl : brace = closingBrace := by simpa [closingBrace] using member
      rfl

end LineStep

section LineText

variable {indent content : String} (plain : IsPlainText indent)

include plain

/-- The braces of a line are those of its content. -/
theorem count_lineChars (brace : Char) (hbrace : brace ∈ braces) (depth : Nat) :
    (lineChars indent depth content).count brace = content.toList.count brace := by
  unfold lineChars
  split
  · next empty =>
      rw [empty]
      rfl
  · rw [List.count_append, plain.count_marginText hbrace, Nat.zero_add]

theorem openBraces_append_marginText (front : List Char) (depth : Nat) :
    openBraces (front ++ marginText indent depth) = openBraces front := by
  rw [openBraces, List.count_append, List.count_append, plain.count_marginText (by decide),
    plain.count_marginText (by decide), openBraces, Nat.add_zero, Nat.add_zero]

theorem not_mem_lineChars (single : '\n' ∉ content.toList) (depth : Nat) :
    '\n' ∉ lineChars indent depth content := by
  unfold lineChars
  split
  · simp
  · simp [single, plain.not_mem_marginText]

end LineText

namespace Typeset

variable {indent : String} {lines : List String} {depth : Nat} {text : List Char}

theorem isWholeLines (h : Typeset indent lines depth text) : IsWholeLines text := by
  cases h with
  | nil => simp [IsWholeLines]
  | line _ _ =>
      rw [← List.append_assoc]
      exact isWholeLines_concat _

theorem count_lines_eq (h : Typeset indent lines depth text) :
    depth + lines.count "\x7d" = lines.count "\x7b" := by
  induction h with
  | nil => rfl
  | line above step ih =>
      have hstep := step.count_line_eq
      rw [List.count_append, List.count_append]
      omega

variable (plain : IsPlainText indent)

include plain

theorem count_eq (h : Typeset indent lines depth text) :
    depth + text.count closingBrace = text.count openingBrace := by
  induction h with
  | nil => rfl
  | line above step ih =>
      have hstep := step.count_eq
      have hbreak : ['\n'].count closingBrace = 0 ∧ ['\n'].count openingBrace = 0 := by decide
      simp only [List.count_append, hbreak, count_lineChars plain openingBrace (by decide),
        count_lineChars plain closingBrace (by decide)]
      omega

theorem neverOverclosed (h : Typeset indent lines depth text) : NeverOverclosed text := by
  induction h with
  | nil =>
      intro front hfront
      rw [List.prefix_nil.mp hfront]
      exact Nat.le_refl 0
  | line above step ih =>
      apply ih.append
      have hcount := above.count_eq plain
      have hstep := step.count_closingBrace_le
      have hbreak : ['\n'].count closingBrace = 0 := by decide
      rw [List.count_append, hbreak, count_lineChars plain closingBrace (by decide)]
      omega

theorem count_break (h : Typeset indent lines depth text) : text.count '\n' = lines.length := by
  induction h with
  | nil => rfl
  | @line lines text content before own behind above step ih =>
      have hline : (lineChars indent own content).count '\n' = 0 :=
        List.count_eq_zero.mpr (not_mem_lineChars plain step.not_mem_break own)
      simp [ih, hline]

theorem depthBehind_eq (h : Typeset indent lines depth text) {content : String} {own behind : Nat}
    (step : LineStep content depth own behind) : depthBehind text content = own := by
  have hcount := h.count_eq plain
  rw [step.own_eq, depthBehind, openBraces, ← hcount, Nat.add_sub_cancel_right]

/-- Each line of the text is one of the lines that it is made up of, in their order,
and stands at the depth that the text before it shows. -/
theorem exists_content (h : Typeset indent lines depth text) {front line : List Char}
    (hline : HasLine text front line) :
    ∃ content, lines[front.count '\n']? = some content ∧
      line = lineChars indent (depthBehind front content) content := by
  induction h with
  | nil =>
      have hnothing := List.prefix_nil.mp hline.stands
      simp at hnothing
  | @line lines text content before own behind above step ih =>
      have hsingle := not_mem_lineChars plain step.not_mem_break own
      rcases hline.of_append above.isWholeLines hsingle with earlier | ⟨rfl, rfl⟩
      · obtain ⟨content, hcontent, hline⟩ := ih earlier
        refine ⟨content, ?_, hline⟩
        rw [List.getElem?_append_left (List.getElem?_eq_some_iff.mp hcontent).1, hcontent]
      · refine ⟨content, ?_, ?_⟩
        · rw [above.count_break plain, List.getElem?_concat_length]
        · rw [above.depthBehind_eq plain step]

omit plain in
theorem exists_step (h : Typeset indent lines depth text) {content : String}
    (member : content ∈ lines) : ∃ before own behind, LineStep content before own behind := by
  induction h with
  | nil => cases member
  | line above step ih =>
      rcases List.mem_append.mp member with earlier | last
      · exact ih earlier
      · obtain rfl := List.mem_singleton.mp last
        exact ⟨_, _, _, step⟩

/-- A brace has nothing but its margin before it on its line. -/
theorem lastLine_before_brace (h : Typeset indent lines depth text) {front back : List Char}
    {brace : Char} (hbrace : brace ∈ braces) (hsplit : text = front ++ brace :: back) :
    lastLine front = marginText indent (depthBehind front (String.singleton brace)) := by
  have hbreak : '\n' ≠ brace := by
    rcases List.mem_pair.mp hbrace with rfl | rfl <;> decide
  have hends : '\n' ∈ back := by
    by_contra single
    have hnothing : brace :: back = [] := by
      apply IsWholeLines.eq_nil_of_append (hsplit ▸ h.isWholeLines)
      simp [hbreak, single]
    cases hnothing
  obtain ⟨rest, after, rfl, hrest⟩ := List.eq_append_cons_of_mem hends
  obtain ⟨before, hbefore, hfront⟩ := exists_eq_append_lastLine front
  have hline : HasLine text before (lastLine front ++ brace :: rest) := by
    refine ⟨hbefore, ?_, after, ?_⟩
    · simp [not_mem_lastLine, hbreak, hrest]
    · rw [hsplit]
      nth_rewrite 2 [hfront]
      simp
  obtain ⟨content, hcontent, hchars⟩ := h.exists_content plain hline
  obtain ⟨_, _, _, step⟩ := h.exists_step (List.mem_of_getElem? hcontent)
  have hmargin := plain.not_mem_marginText (List.mem_cons_of_mem _ hbrace)
  -- The brace is not in the margin, so it is the content of the line.
  have hmember : brace ∈ lineChars indent (depthBehind before content) content := by
    simp [← hchars]
  obtain rfl : content = String.singleton brace := by
    refine step.eq_singleton_of_mem hbrace ?_
    unfold lineChars at hmember
    split at hmember
    · cases hmember
    · exact (List.mem_append.mp hmember).resolve_left (hmargin _)
  have hindented : lastLine front = marginText indent (depthBehind before (.singleton brace)) := by
    rw [lineChars, if_neg (by simp), String.toList_singleton] at hchars
    exact ((List.append_cons_inj_of_notMem (hmargin _) List.not_mem_nil).mp hchars.symm).1.symm
  have hsame : openBraces front = openBraces before := by
    rw [hfront, hindented, openBraces_append_marginText plain]
  rw [hindented, depthBehind, depthBehind, hsame]

/-- Two braces that belong together are indented alike. -/
theorem lastLine_of_matching (h : Typeset indent lines depth text) {front inner back : List Char}
    (hsplit : text = front ++ openingBrace :: (inner ++ closingBrace :: back))
    (between : Balanced inner) :
    lastLine front = marginText indent (openBraces front) ∧
    lastLine (front ++ openingBrace :: inner) = marginText indent (openBraces front) := by
  have hopening := h.lastLine_before_brace plain (by decide) hsplit
  have hlater : text = (front ++ openingBrace :: inner) ++ closingBrace :: back := by
    rw [hsplit]
    simp
  have hclosing := h.lastLine_before_brace plain (by decide) hlater
  have hdepth : openBraces (front ++ openingBrace :: inner) - 1 = openBraces front := by
    have hother : openingBrace ≠ closingBrace := by decide
    have hsettled := between.settled
    rw [openBraces, List.count_append, List.count_append, List.count_cons_self,
      List.count_cons_of_ne hother, openBraces]
    omega
  refine ⟨hopening, hclosing.trans ?_⟩
  rw [← hdepth]
  rfl

end Typeset

namespace Page

/-- What can be asked of a page. -/
inductive Call where
  | line (content : String)
  | blank
  | enter (header : String)
  | leave
  | leaveAll

/-- The texts that the call is given are plain. -/
def Call.IsPlain : Call → Prop
  | line content => IsPlainText content
  | enter header => IsPlainText header
  | _ => True

instance : (call : Call) → Decidable call.IsPlain
  | .line content => inferInstanceAs (Decidable (IsPlainText content))
  | .enter header => inferInstanceAs (Decidable (IsPlainText header))
  | .blank => isTrue trivial
  | .leave => isTrue trivial
  | .leaveAll => isTrue trivial

def perform (p : Page) : Call → Page
  | .line content => p.line content
  | .blank => p.blank
  | .enter header => p.enter header
  | .leave => p.leave
  | .leaveAll => p.leaveAll

def performAll (p : Page) (calls : List Call) : Page := calls.foldl perform p

/-- The lines that a call asks for while so many blocks are open. -/
def Call.lines (opened : Nat) : Call → List String
  | line content => [content]
  | blank => [""]
  | enter header => [header, "\x7b"]
  | leave => if opened = 0 then [] else ["\x7d"]
  | leaveAll => List.replicate opened "\x7d"

/-- The blocks that are open behind some lines. -/
def openBlocks (lines : List String) : Nat := lines.count "\x7b" - lines.count "\x7d"

/-- The lines that calls ask for, one call after the other. -/
def linesOf (calls : List Call) : List String :=
  calls.foldl (fun above call => above ++ call.lines (openBlocks above)) []

/-- The page is made up of these lines. -/
def Shows (p : Page) (lines : List String) : Prop := Typeset p.indent lines p.depth p.text.toList

theorem toList_margin (p : Page) : p.margin.toList = marginText p.indent p.depth := by
  rw [margin, String.toList_join, List.flatMap_def, List.map_replicate, marginText]

theorem toList_line (p : Page) (content : String) :
    (p.line content).text.toList =
      p.text.toList ++ (lineChars p.indent p.depth content ++ ['\n']) := by
  unfold line lineChars
  by_cases empty : content = "" <;> simp [empty, toList_margin]

theorem blank_eq_line (p : Page) : p.blank = p.line "" := by
  rw [blank_eq_lay, line_eq_lay]

theorem depth_leave (p : Page) : p.leave.depth = p.depth - 1 := by
  unfold leave
  split
  · next outside => rw [outside]
  · next inside =>
      rw [inside]
      rfl

theorem depth_leaveAll (p : Page) : p.leaveAll.depth = 0 := by
  have htimes (n : Nat) (p : Page) : (p.leaveTimes n).depth = p.depth - n := by
    induction n generalizing p with
    | zero => rfl
    | succ n ih =>
        rw [leaveTimes, ih, depth_leave]
        omega
  rw [leaveAll, htimes, Nat.sub_self]

namespace Shows

variable {p : Page} {lines : List String} (h : p.Shows lines)

include h

theorem openBlocks_eq : openBlocks lines = p.depth := by
  rw [openBlocks, ← Typeset.count_lines_eq h, Nat.add_sub_cancel_right]

theorem line {content : String} (plain : IsPlainText content) :
    (p.line content).Shows (lines ++ [content]) := by
  rw [Shows, toList_line]
  exact Typeset.line h (.plain plain)

theorem enter {header : String} (plain : IsPlainText header) :
    (p.enter header).Shows (lines ++ [header, "\x7b"]) := by
  have hopened := Typeset.line (h.line plain) .opening
  rw [List.append_assoc, ← toList_line] at hopened
  exact hopened

theorem leave (inside : p.depth ≠ 0) : p.leave.Shows (lines ++ ["\x7d"]) := by
  obtain ⟨depth, hdepth⟩ := Nat.exists_eq_succ_of_ne_zero inside
  rw [Shows, hdepth] at h
  have hclosed := Typeset.line h .closing
  simp only [Page.leave, hdepth]
  rw [Shows, toList_line]
  exact hclosed

theorem leaveTimes {n : Nat} (bound : n ≤ p.depth) :
    (p.leaveTimes n).Shows (lines ++ List.replicate n "\x7d") := by
  induction n generalizing p lines with
  | zero => simpa [Page.leaveTimes] using h
  | succ n ih =>
      have hleft := h.leave (by omega)
      have hrest : n ≤ p.leave.depth := by
        rw [depth_leave]
        omega
      have hall := ih hleft hrest
      rw [List.append_assoc, List.singleton_append, ← List.replicate_succ] at hall
      exact hall

/-- A call adds the lines that it asks for. -/
theorem perform {call : Call} (plain : call.IsPlain) :
    (p.perform call).Shows (lines ++ call.lines (openBlocks lines)) := by
  rw [h.openBlocks_eq]
  cases call with
  | line content => exact h.line plain
  | blank =>
      rw [Page.perform, blank_eq_line]
      exact h.line (by decide)
  | enter header => exact h.enter plain
  | leave =>
      by_cases outside : p.depth = 0
      · have hsame : p.leave = p := by simp [Page.leave, outside]
        simpa [Page.perform, hsame, Call.lines, outside] using h
      · rw [Call.lines, if_neg outside]
        exact h.leave outside
  | leaveAll => exact h.leaveTimes (Nat.le_refl p.depth)

end Shows

theorem performAll_append (p : Page) (earlier later : List Call) :
    p.performAll (earlier ++ later) = (p.performAll earlier).performAll later :=
  List.foldl_append

theorem shows_performAll (indent : String) {calls : List Call}
    (plain : ∀ call ∈ calls, call.IsPlain) :
    ((start indent).performAll calls).Shows (linesOf calls) := by
  have hrun {p : Page} {lines : List String} (h : p.Shows lines) :
      (p.performAll calls).Shows
        (calls.foldl (fun above call => above ++ call.lines (openBlocks above)) lines) := by
    induction calls generalizing p lines with
    | nil => exact h
    | cons call calls ih =>
        simp only [List.forall_mem_cons] at plain
        exact ih plain.2 (h.perform plain.1)
  exact hrun Typeset.nil

/-- The second page has the text of the first one and perhaps more behind it. -/
structure Extends (p q : Page) : Prop where
  indent : q.indent = p.indent
  text : p.text.toList <+: q.text.toList

theorem Extends.refl (p : Page) : p.Extends p := ⟨rfl, List.prefix_rfl⟩

theorem Extends.trans {p q r : Page} (first : p.Extends q) (second : q.Extends r) : p.Extends r :=
  ⟨second.indent.trans first.indent, first.text.trans second.text⟩

theorem extends_line (p : Page) (content : String) : p.Extends (p.line content) := by
  refine ⟨rfl, ?_⟩
  rw [toList_line]
  exact List.prefix_append _ _

theorem extends_leave (p : Page) : p.Extends p.leave := by
  unfold leave
  split
  · exact .refl p
  · next depth _ =>
      have hline := extends_line { p with depth := depth } "\x7d"
      exact ⟨hline.indent, hline.text⟩

theorem extends_leaveTimes (p : Page) (n : Nat) : p.Extends (p.leaveTimes n) := by
  induction n generalizing p with
  | zero => exact .refl p
  | succ n ih => exact p.extends_leave.trans (ih p.leave)

theorem extends_perform (p : Page) (call : Call) : p.Extends (p.perform call) := by
  cases call with
  | line content => exact p.extends_line content
  | blank =>
      rw [perform, blank_eq_line]
      exact p.extends_line ""
  | enter header =>
      have hboth := (p.extends_line header).trans ((p.line header).extends_line "\x7b")
      exact ⟨hboth.indent, hboth.text⟩
  | leave => exact p.extends_leave
  | leaveAll => exact p.extends_leaveTimes p.depth

/-- Calls only add to the text. -/
theorem extends_performAll (p : Page) (calls : List Call) : p.Extends (p.performAll calls) := by
  induction calls generalizing p with
  | nil => exact .refl p
  | cons call calls ih => exact (p.extends_perform call).trans (ih (p.perform call))

theorem typeset_performAll (indent : String) {calls : List Call}
    (plain : ∀ call ∈ calls, call.IsPlain) :
    Typeset indent (linesOf calls) ((start indent).performAll calls).depth
      ((start indent).performAll calls).text.toList := by
  have hindent := (extends_performAll (start indent) calls).indent
  have hshows := shows_performAll indent plain
  rw [Shows, hindent] at hshows
  exact hshows

/-- After any calls with plain texts, the braces of the text match and the depth is
the number of those that are open. The lines of the text are those that the calls ask
for, in their order, each indented by the braces that are open before it; so two
braces that belong together are indented alike. What is written is never changed, and
closing all blocks leaves none open. -/
theorem blocks_match_after_calls {indent : String} (plainIndent : IsPlainText indent)
    {calls : List Call} (plainCalls : ∀ call ∈ calls, call.IsPlain) :
    let page := (start indent).performAll calls
    let text := page.text.toList
    NeverOverclosed text ∧
    page.depth + text.count closingBrace = text.count openingBrace ∧
    (IsWholeLines text ∧ text.count '\n' = (linesOf calls).length ∧
      ∀ front line, HasLine text front line →
        ∃ content, (linesOf calls)[front.count '\n']? = some content ∧
          line = lineChars indent (depthBehind front content) content) ∧
    (∀ front inner back, text = front ++ openingBrace :: (inner ++ closingBrace :: back) →
      Balanced inner →
      lastLine front = marginText indent (openBraces front) ∧
      lastLine (front ++ openingBrace :: inner) = marginText indent (openBraces front)) ∧
    (∀ earlier later, calls = earlier ++ later →
      ((start indent).performAll earlier).text.toList <+: text) ∧
    (page.perform .leaveAll).depth = 0 ∧ Balanced (page.perform .leaveAll).text.toList := by
  intro page text
  have hpage := typeset_performAll indent plainCalls
  refine ⟨hpage.neverOverclosed plainIndent, hpage.count_eq plainIndent,
    ⟨hpage.isWholeLines, hpage.count_break plainIndent,
      fun front line => hpage.exists_content plainIndent⟩,
    fun front inner back => hpage.lastLine_of_matching plainIndent, ?_, ?_⟩
  · rintro earlier later rfl
    have hlater := (extends_performAll ((start indent).performAll earlier) later).text
    rw [← performAll_append] at hlater
    exact hlater
  · have hplain : ∀ call ∈ calls ++ [.leaveAll], call.IsPlain :=
      List.forall_mem_append.mpr ⟨plainCalls, by simp [Call.IsPlain]⟩
    have hall := typeset_performAll indent hplain
    have hdepth : (page.perform .leaveAll).depth = 0 := page.depth_leaveAll
    rw [performAll_append] at hall
    change Typeset indent _ (page.perform .leaveAll).depth (page.perform .leaveAll).text.toList at hall
    rw [hdepth] at hall
    have hcount := hall.count_eq plainIndent
    exact ⟨hdepth, hall.neverOverclosed plainIndent, by omega⟩

/-- Blocks without a header, a call to close a block where none is open, and all
blocks closed in the middle. -/
theorem blocks_match_after_mixed_calls :
    let calls : List Call :=
      [.leave, .enter "", .line "a", .blank, .enter "b", .leaveAll, .line "", .enter "c", .line "d"]
    let page := (start "\t").performAll calls
    (IsPlainText "\t" ∧ ∀ call ∈ calls, call.IsPlain) ∧
    page.text = "\n\x7b\n\ta\n\n\tb\n\t\x7b\n\t\x7d\n\x7d\n\nc\n\x7b\n\td\n" ∧
    NeverOverclosed page.text.toList ∧
    page.depth + page.text.toList.count closingBrace = page.text.toList.count openingBrace ∧
    Balanced (page.perform .leaveAll).text.toList := by
  intro calls page
  have plainIndent : IsPlainText "\t" := by decide
  have plainCalls : ∀ call ∈ calls, call.IsPlain := by decide
  obtain ⟨hordered, hdepth, -, -, -, -, hbalanced⟩ := blocks_match_after_calls plainIndent plainCalls
  exact ⟨⟨plainIndent, plainCalls⟩, by decide, hordered, hdepth, hbalanced⟩

end Page

end ConstructorSynthesis
