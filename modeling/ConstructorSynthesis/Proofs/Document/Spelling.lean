import ConstructorSynthesis.Proofs.Declaration.Path
import ConstructorSynthesis.Proofs.Document.Reading
import ConstructorSynthesis.Proofs.Markup.Concatenation

/-!
The two spellings of an element without content: one empty tag, or a start tag
directly followed by its end tag. The texts differ in one place, so their tags do,
and the reader comes to that place in the same state. What it does there is the
same for both spellings, with one exception: inside `declarations` or a
`namespace`, an empty `namespace` tag is passed over, while a start tag has to give
the name of the namespace.
-/

namespace ConstructorSynthesis.Markup

/-- The name in the text of a tag. -/
def nameText (body : List Char) : List Char := body.takeWhile fun c => !isBlank c

/-- The text of an element's tag without its brackets, as far as it is the same
in both spellings. -/
structure IsElementText (body : List Char) : Prop where
  /-- All quotes are closed, and the first bracket outside of them is the one
  behind the text. -/
  whole : cutTag none (body ++ ['>']) = .ok (body, [])
  /-- The tag is no end tag, no declaration and no instruction. -/
  first : body.head? ∉ [none, some '/', some '!', some '?']
  last : body.getLast? ≠ some '/'
  name : Text.Avoids ['>', '\x22', '\x27'] (nameText body)

instance (body : List Char) : Decidable (IsElementText body) :=
  decidable_of_iff
    (cutTag none (body ++ ['>']) = .ok (body, []) ∧
      body.head? ∉ [none, some '/', some '!', some '?'] ∧ body.getLast? ≠ some '/' ∧
      Text.Avoids ['>', '\x22', '\x27'] (nameText body))
    ⟨fun h => ⟨h.1, h.2.1, h.2.2.1, h.2.2.2⟩, fun h => ⟨h.whole, h.first, h.last, h.name⟩⟩

/-- An element without content as an empty tag. -/
def emptyTagText (body : List Char) : List Char := '<' :: (body ++ ['/', '>'])

/-- An element without content as a start tag and an end tag. -/
def tagPairText (body : List Char) : List Char :=
  '<' :: (body ++ '>' :: '<' :: '/' :: (nameText body ++ ['>']))

/-- A text without an open quote is cut with whatever follows it. -/
theorem cutTag_of_whole {quote : Option Char} {body tail cut rest : List Char}
    (whole : cutTag quote (body ++ ['>']) = .ok (body, []))
    (htail : cutTag none tail = .ok (cut, rest)) :
    cutTag quote (body ++ tail) = .ok (body ++ cut, rest) := by
  induction body generalizing quote with
  | nil =>
      cases quote with
      | none => exact htail
      | some q => cases hquote : nextQuote (some q) '>' <;> simp [cutTag, hquote] at whole
  | cons c body ih =>
      simp only [cutTag, List.cons_append] at whole ⊢
      split at whole
      · cases whole
      · next inside =>
          rw [if_neg inside]
          split at whole
          · cases whole
          · next hcut =>
              cases whole
              rw [ih hcut]

theorem cutTag_plain {name : List Char} (plain : Text.Avoids ['>', '\x22', '\x27'] name) :
    cutTag none (name ++ ['>']) = .ok (name, []) := by
  induction name with
  | nil => rfl
  | cons c name ih =>
      have hc := plain c List.mem_cons_self
      simp only [List.mem_cons, List.not_mem_nil, or_false, not_or] at hc
      have hquote : isQuote c = false := by simp [isQuote, hc]
      have hrest := ih fun d member => plain d (List.mem_cons_of_mem c member)
      simp [cutTag, nextQuote, hc.1, hquote, hrest]

theorem closingName_of_not_blank {name : List Char} (visible : ∀ c ∈ name, isBlank c = false) :
    closingName name = String.ofList name := by
  have hkept : name.reverse.dropWhile isBlank = name.reverse := by
    cases hreverse : name.reverse with
    | nil => rfl
    | cons c cs =>
        have hc : isBlank c = false := visible c (List.mem_reverse.mp (by simp [hreverse]))
        rw [List.dropWhile_cons_of_neg (by simp [hc])]
  simp only [closingName, hkept, List.reverse_reverse]
  split
  · rfl
  · rfl

/-- An end tag with the text behind it. -/
theorem scanTags_stop {name : List Char} (plain : Text.Avoids ['>', '\x22', '\x27'] name)
    (visible : ∀ c ∈ name, isBlank c = false) (rest : List Char) :
    scanTags ('<' :: '/' :: (name ++ '>' :: rest)) =
      .next (.stop (String.ofList name)) (scanTags rest) := by
  have hplain : Text.Avoids ['>', '\x22', '\x27'] ('/' :: name) := by
    intro c member
    rcases List.mem_cons.mp member with rfl | later
    · decide
    · exact plain c later
  have hcut : cutTag none ('/' :: name ++ '>' :: rest) = .ok ('/' :: name ++ [], rest) :=
    cutTag_of_whole (cutTag_plain hplain) rfl
  rw [List.append_nil, List.cons_append] at hcut
  have hstop : scanMarkup ('/' :: (name ++ '>' :: rest)) =
      .ok (some (.stop (closingName name)), rest) := by
    rw [scanMarkup_of_tag (by decide) (by decide), hcut]
    rfl
  rw [scanTags_tag hstop, closingName_of_not_blank visible]

namespace IsElementText

variable {body : List Char} (element : IsElementText body)

include element

theorem exists_cons : ∃ c cs, body = c :: cs ∧ c ≠ '/' ∧ c ≠ '!' ∧ c ≠ '?' := by
  have hfirst := element.first
  cases body with
  | nil => simp at hfirst
  | cons c cs => exact ⟨c, cs, rfl, by simpa using hfirst⟩

theorem ofText_eq_start : Event.ofText body = .start (Tag.ofText body) := by
  obtain ⟨c, cs, rfl, hslash, -, -⟩ := element.exists_cons
  unfold Event.ofText
  split
  · next h => exact absurd (List.cons.inj h).1 hslash
  · rw [if_neg element.last]

theorem ofText_eq_empty : Event.ofText (body ++ ['/']) = .empty (Tag.ofText body) := by
  obtain ⟨c, cs, rfl, hslash, -, -⟩ := element.exists_cons
  unfold Event.ofText
  split
  · next h => exact absurd (List.cons.inj h).1 hslash
  · rw [if_pos List.getLast?_concat, List.dropLast_concat]

/-- What follows the opening bracket is read as a tag up to where it is cut. -/
theorem scanMarkup_of_cut {tail cut rest : List Char}
    (hcut : cutTag none (body ++ tail) = .ok (cut, rest)) :
    scanMarkup (body ++ tail) = .ok (some (Event.ofText cut), rest) := by
  obtain ⟨c, cs, rfl, -, hdeclares, hinstructs⟩ := element.exists_cons
  rw [List.cons_append, scanMarkup_of_tag hdeclares hinstructs, ← List.cons_append, hcut]
  rfl

theorem scanTags_start (rest : List Char) :
    scanTags ('<' :: (body ++ '>' :: rest)) = .next (.start (Tag.ofText body)) (scanTags rest) := by
  have hcut : cutTag none (body ++ '>' :: rest) = .ok (body ++ [], rest) :=
    cutTag_of_whole element.whole rfl
  rw [scanTags_tag (element.scanMarkup_of_cut hcut), List.append_nil, element.ofText_eq_start]

theorem scanTags_empty (rest : List Char) :
    scanTags ('<' :: (body ++ '/' :: '>' :: rest)) =
      .next (.empty (Tag.ofText body)) (scanTags rest) := by
  have hcut : cutTag none (body ++ '/' :: '>' :: rest) = .ok (body ++ ['/'], rest) :=
    cutTag_of_whole element.whole rfl
  rw [scanTags_tag (element.scanMarkup_of_cut hcut), element.ofText_eq_empty]

theorem scanTags_emptyTagText :
    scanTags (emptyTagText body) = .next (.empty (Tag.ofText body)) .done := by
  rw [emptyTagText, element.scanTags_empty, scanTags_nil]

theorem scanTags_tagPairText :
    scanTags (tagPairText body) =
      .next (.start (Tag.ofText body)) (.next (.stop (Tag.ofText body).name) .done) := by
  have hvisible : ∀ c ∈ nameText body, isBlank c = false := by
    intro c member
    simpa using List.mem_takeWhile_imp member
  rw [tagPairText, element.scanTags_start, scanTags_stop element.name hvisible, scanTags_nil]
  rfl

end IsElementText

theorem dropMark_append_tag (before cs : List Char) :
    dropMark (before ++ '<' :: cs) = dropMark before ++ '<' :: cs := by
  cases before with
  | nil => rfl
  | cons c before =>
      by_cases mark : c = '\uFEFF'
      · subst mark
        rfl
      · have hkept (rest : List Char) : dropMark (c :: rest) = c :: rest := by
          unfold dropMark
          split
          · next h => exact absurd (List.cons.inj h).1 mark
          · rfl
        rw [List.cons_append, hkept, hkept, List.cons_append]

/-- The tags of a document in which an element stands behind complete markup: those
before it, its own, and those behind it. -/
theorem Stream.ofText_around {before element : List Char} {tags : Stream}
    (whole : (scanTags (dropMark before)).fault? = none) (opens : element.head? = some '<')
    (htags : scanTags element = tags) (closed : tags.fault? = none) (behind : List Char) :
    Stream.ofText (String.ofList (before ++ element ++ behind)) =
      ((scanTags (dropMark before)).nest []).append
        ((tags.append (scanTags behind)).nest ((scanTags (dropMark before)).openAtEnd [])) := by
  obtain ⟨cs, rfl⟩ := List.head?_eq_some_iff.mp opens
  subst htags
  rw [Stream.ofText, String.toList_ofList, List.append_assoc, List.cons_append, dropMark_append_tag,
    scanTags_append whole, ← List.cons_append, scanTags_append closed, Stream.nest_append]

end ConstructorSynthesis.Markup

namespace ConstructorSynthesis.Document

open Markup

namespace Reading

/-- The name of a namespace is missing or cannot be read, and that is the result. -/
def LacksNamespaceName (tag : Tag) (result : Except Error (List Declaration)) : Prop :=
  tag.name = "namespace" ∧
    ∃ error, required "namespace" "name" tag = .error error ∧ result = .error error

/-- Both spellings leave the reader in the same state, unless it is asked for
the name of a namespace. -/
theorem run_spellings (r : Reading) (tag : Tag) (rest : Stream) :
    let pair := r.run (.next (.start tag) (.next (.stop tag.name) rest))
    r.run (.next (.empty tag) rest) = pair ∨ LacksNamespaceName tag pair := by
  intro pair
  cases r with
  | before =>
      left
      simp only [pair, run, step_before_start, step_before_empty]
      split <;> rfl
  | behind declared => exact Or.inl rfl
  | inside declared frame outer =>
      cases hskipped : isEmptyNamespace tag frame with
      | false =>
          left
          simp only [pair]
          rw [run_empty _ _ _ hskipped, run_start]
          rfl
      | true =>
          cases frame with
          | scope ns =>
              have hname : tag.name = "namespace" := of_decide_eq_true hskipped
              simp only [pair]
              rw [run_empty_namespace _ _ _ hname, run_start, enter_namespace hname]
              cases hrequired : required "namespace" "name" tag with
              | error e => exact Or.inr ⟨hname, e, hrequired, rfl⟩
              | ok name => exact Or.inl rfl
          | type d nested => cases hskipped
          | constructor c => cases hskipped
          | ignored => cases hskipped

/-- What can only differ behind a common beginning only differs there. -/
theorem run_append_spellings {tag : Tag} {t u : Stream}
    (h : ∀ r : Reading, r.run t = r.run u ∨ LacksNamespaceName tag (r.run u)) (s : Stream)
    (r : Reading) :
    r.run (s.append t) = r.run (s.append u) ∨ LacksNamespaceName tag (r.run (s.append u)) := by
  induction s generalizing r with
  | done => exact h r
  | broken fault => exact Or.inl rfl
  | next event rest ih =>
      simp only [Stream.append, run]
      cases r.step event with
      | error e => exact Or.inl rfl
      | ok next => exact ih next

end Reading

/-- An element without content, anywhere in a document, may be written as an
empty tag or as a start tag and an end tag. Both documents are read alike, with
their errors, but for a `namespace` whose name is missing or cannot be read: then
the second document may be refused for it while the first is not. -/
theorem parse_spellings {before body : List Char}
    (whole : (scanTags (dropMark before)).fault? = none) (element : IsElementText body)
    (behind : List Char) :
    let tag := Tag.ofText body
    let single := String.ofList (before ++ emptyTagText body ++ behind)
    let pair := String.ofList (before ++ tagPairText body ++ behind)
    parse single = parse pair ∨
      (tag.name = "namespace" ∧
        ∃ error, required "namespace" "name" tag = .error error ∧ parse pair = .error error) := by
  intro tag single pair
  let opened := (scanTags (dropMark before)).openAtEnd []
  have hsingle : Stream.ofText single = ((scanTags (dropMark before)).nest []).append
      (.next (.empty tag) ((scanTags behind).nest opened)) := by
    exact Stream.ofText_around whole rfl element.scanTags_emptyTagText rfl behind
  have hpair : Stream.ofText pair = ((scanTags (dropMark before)).nest []).append
      (.next (.start tag) (.next (.stop tag.name) ((scanTags behind).nest opened))) := by
    refine (Stream.ofText_around whole rfl element.scanTags_tagPairText rfl behind).trans ?_
    simp only [Stream.append, Stream.nest, if_pos, tag, opened]
  have hread := Reading.run_append_spellings
    (fun r => Reading.run_spellings r tag ((scanTags behind).nest opened))
    ((scanTags (dropMark before)).nest []) .before
  rw [← hsingle, ← hpair, ← declarationsOf, ← declarationsOf] at hread
  rcases hread with same | ⟨hname, error, hrequired, hfails⟩
  · left
    rw [parse, parse, same]
  · right
    refine ⟨hname, error, hrequired, ?_⟩
    rw [parse, hfails]
    rfl

/-- An element with quoted brackets, between a comment that looks like a tag and a
reference. -/
theorem parse_spellings_of_type :
    let before := "<declarations><!-- <type> --><namespace name='N'>".toList
    let body := "type name='A' base='B&lt;int>'".toList
    let behind := "&copy;<type name='C'/></namespace></declarations>".toList
    ((scanTags (dropMark before)).fault? = none ∧ IsElementText body) ∧
    parse (String.ofList (before ++ emptyTagText body ++ behind)) =
      parse (String.ofList (before ++ tagPairText body ++ behind)) := by
  intro before body behind
  have whole : (scanTags (dropMark before)).fault? = none := by decide +kernel
  have element : IsElementText body := by decide +kernel
  refine ⟨⟨whole, element⟩, ?_⟩
  rcases parse_spellings whole element behind with same | ⟨hname, -⟩
  · exact same
  · exact absurd hname (by decide +kernel)

/-- A namespace without a name is accepted as an empty tag and refused as a start
tag and an end tag. -/
theorem parse_namespace_spellings_differ :
    parse "<declarations><namespace/></declarations>" = .ok .empty ∧
    parse "<declarations><namespace></namespace></declarations>" =
      .error (.missingAttribute "namespace" "name") := by
  have hsingle : declarationsOf "<declarations><namespace/></declarations>" = .ok [] := by
    decide +kernel
  have hpair : declarationsOf "<declarations><namespace></namespace></declarations>" =
      .error (.missingAttribute "namespace" "name") := by
    decide +kernel
  rw [parse, parse, hsingle, hpair]
  exact ⟨rfl, rfl⟩

end ConstructorSynthesis.Document
