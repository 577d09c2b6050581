import ConstructorSynthesis.Proofs.Document.Spelling

/-!
Tags as they are written. A tag has a name and attributes with distinct keys; each
attribute has white space before it and perhaps around its equals sign, and its
value in quotes of either kind. However it is written, the reader finds the name and
the attributes in their order, and goes on behind the tag.
-/

namespace ConstructorSynthesis

theorem Document.attributes_tagOf (name : String) (attributes : List (String × String)) :
    (tagOf name attributes).attributes = attributes.map fun a => ⟨a.1, a.2⟩ := by
  rw [Markup.Tag.attributes, tagOf, List.filterMap_map, ← List.filterMap_eq_map]
  rfl

namespace Markup

/-- The characters that end a name or give what it begins another meaning. -/
def nameBreakers : List Char :=
  [' ', '\t', '\n', '\r', '=', '/', '!', '?', '>', '\x22', '\x27']

/-- A name that is read as it is written, of a tag or of an attribute. -/
structure IsPlainName (name : String) : Prop where
  nonempty : name.toList ≠ []
  plain : Text.Avoids nameBreakers name.toList

instance (name : String) : Decidable (IsPlainName name) :=
  decidable_of_iff (name.toList ≠ [] ∧ Text.Avoids nameBreakers name.toList)
    ⟨fun h => ⟨h.1, h.2⟩, fun h => ⟨h.nonempty, h.plain⟩⟩

theorem takeWhile_until {p : Char → Bool} {cs rest : List Char} {c : Char}
    (inside : ∀ x ∈ cs, p x = true) (stop : p c = false) :
    (cs ++ c :: rest).takeWhile p = cs := by
  rw [List.takeWhile_append_of_pos inside, List.takeWhile_cons_of_neg (by simp [stop]),
    List.append_nil]

theorem dropWhile_until {p : Char → Bool} {cs rest : List Char} {c : Char}
    (inside : ∀ x ∈ cs, p x = true) (stop : p c = false) :
    (cs ++ c :: rest).dropWhile p = c :: rest := by
  rw [List.dropWhile_append_of_pos inside, List.dropWhile_cons_of_neg (by simp [stop])]

namespace IsPlainName

variable {name : String} (h : IsPlainName name)

include h

theorem avoids {banned : List Char} (part : banned ⊆ nameBreakers) :
    Text.Avoids banned name.toList :=
  fun c member hc => h.plain c member (part hc)

variable {c : Char} (member : c ∈ name.toList)

include member

theorem isBlank_eq_false : isBlank c = false := by
  have hc := h.plain c member
  simp only [nameBreakers, List.mem_cons, not_or] at hc
  simp [isBlank, hc]

theorem continuesKey_eq_true : continuesKey c = true := by
  have hc := h.plain c member
  simp only [nameBreakers, List.mem_cons, not_or] at hc
  simp [continuesKey, h.isBlank_eq_false member, hc]

end IsPlainName

/-- One attribute with all its pieces: a key, an equals sign, an opening quote and
the closing one. -/
theorem scanAttributes_of_pieces {seen : List String} {cs tail afterEquals text after : List Char}
    {c q e : Char} (first : cs.dropWhile isBlank = c :: tail)
    (equals : (tail.dropWhile continuesKey).dropWhile isBlank = '=' :: afterEquals)
    (fresh : String.ofList (c :: tail.takeWhile continuesKey) ∉ seen)
    (value : afterEquals.dropWhile isBlank = q :: text) (quote : isQuote q = true)
    (closing : text.dropWhile (· ≠ q) = e :: after) :
    let key := String.ofList (c :: tail.takeWhile continuesKey)
    scanAttributes seen cs =
      .ok ⟨key, String.ofList (text.takeWhile (· ≠ q))⟩ :: scanAttributes (key :: seen) after := by
  rw [scanAttributes]
  split
  · next found => cases first.symm.trans found
  · next found =>
      cases first.symm.trans found
      split
      · next found => cases equals.symm.trans found
      · next found =>
          cases equals.symm.trans found
          rw [if_neg (by simp), if_neg (by simpa using fresh)]
          split
          · next found => cases value.symm.trans found
          · next found =>
              cases value.symm.trans found
              rw [if_pos quote]
              split
              · next found => cases closing.symm.trans found
              · next found =>
                  cases closing.symm.trans found
                  rfl

theorem isBlank_of_isQuote {q : Char} (quote : isQuote q = true) : isBlank q = false := by
  simp only [isQuote, Bool.or_eq_true, decide_eq_true_eq] at quote
  rcases quote with rfl | rfl <;> rfl

/-- White space between the parts of a tag. -/
def IsBlankText (cs : List Char) : Prop := cs.all isBlank = true

instance (cs : List Char) : Decidable (IsBlankText cs) :=
  inferInstanceAs (Decidable (cs.all isBlank = true))

theorem IsBlankText.isBlank_eq_true {cs : List Char} (h : IsBlankText cs) {c : Char}
    (member : c ∈ cs) : isBlank c = true :=
  List.all_eq_true.mp h c member

/-- All quotes in the text are closed, and no bracket outside of them ends it. -/
def IsWhole (cs : List Char) : Prop := cutTag none (cs ++ ['>']) = .ok (cs, [])

theorem IsWhole.append {cs ds : List Char} (hcs : IsWhole cs) (hds : IsWhole ds) :
    IsWhole (cs ++ ds) := by
  rw [IsWhole, List.append_assoc]
  exact cutTag_of_whole hcs hds

theorem isWhole_name {name : String} (h : IsPlainName name) : IsWhole name.toList :=
  cutTag_plain (h.avoids (by decide))

theorem IsBlankText.isWhole {cs : List Char} (h : IsBlankText cs) : IsWhole cs := by
  apply cutTag_plain
  intro c member special
  have hblank := h.isBlank_eq_true member
  simp only [List.mem_cons, List.not_mem_nil, or_false] at special
  rcases special with rfl | rfl | rfl <;> simp [isBlank] at hblank

theorem isWhole_quoted {q : Char} (quote : isQuote q = true) {cs : List Char} (inside : q ∉ cs) :
    IsWhole (q :: (cs ++ [q])) := by
  have hinside : cutTag (some q) (cs ++ [q] ++ ['>']) = .ok (cs ++ [q], []) := by
    induction cs with
    | nil => simp [cutTag, nextQuote]
    | cons c cs ih =>
        simp only [List.mem_cons, not_or] at inside
        simp only [List.cons_append, cutTag, nextQuote, if_neg (Ne.symm inside.1), ih inside.2]
        simp
  have hopens : nextQuote none q = some q := by simp [nextQuote, quote]
  have hother : q ≠ '>' := by
    rintro rfl
    cases quote
  rw [IsWhole, List.cons_append, cutTag, if_neg (by simp [hother]), hopens, hinside]

/-- An attribute as it stands in a tag. -/
structure WrittenAttribute where
  space : List Char
  key : String
  beforeEquals : List Char
  afterEquals : List Char
  quote : Char
  value : String
  space_blank : IsBlankText space := by decide
  space_nonempty : space ≠ [] := by decide
  key_plain : IsPlainName key := by decide
  beforeEquals_blank : IsBlankText beforeEquals := by decide
  afterEquals_blank : IsBlankText afterEquals := by decide
  quote_isQuote : isQuote quote = true := by decide
  quote_notMem_value : quote ∉ value.toList := by decide

namespace WrittenAttribute

variable (a : WrittenAttribute)

/-- The value in its quotes. -/
def quoted : List Char := a.quote :: (a.value.toList ++ [a.quote])

/-- What stands between the key and the quotes. -/
def equalsText : List Char := a.beforeEquals ++ '=' :: a.afterEquals

def text : List Char := a.space ++ (a.key.toList ++ (a.equalsText ++ a.quoted))

theorem isWhole_text : IsWhole a.text := by
  have hequals : IsWhole ['='] := rfl
  have hsign : IsWhole a.equalsText :=
    a.beforeEquals_blank.isWhole.append (hequals.append a.afterEquals_blank.isWhole)
  exact a.space_blank.isWhole.append ((isWhole_name a.key_plain).append
    (hsign.append (isWhole_quoted a.quote_isQuote a.quote_notMem_value)))

/-- An attribute is read, and reading goes on behind it. -/
theorem scanAttributes_text {seen : List String} (fresh : a.key ∉ seen) (rest : List Char) :
    scanAttributes seen (a.text ++ rest) =
      .ok ⟨a.key, a.value⟩ :: scanAttributes (a.key :: seen) rest := by
  obtain ⟨c, cs, hkey⟩ := List.exists_cons_of_ne_nil a.key_plain.nonempty
  have hvisible : isBlank c = false := a.key_plain.isBlank_eq_false (by simp [hkey])
  have hcontinues : ∀ x ∈ cs, continuesKey x = true :=
    fun x member => a.key_plain.continuesKey_eq_true (by simp [hkey, member])
  let behindKey := a.beforeEquals ++ '=' :: (a.afterEquals ++ a.quote :: (a.value.toList ++
    a.quote :: rest))
  have htext : a.text ++ rest = a.space ++ c :: (cs ++ behindKey) := by
    simp [text, equalsText, quoted, hkey, behindKey]
  -- The key ends at the white space behind it, or at the equals sign if there is none.
  obtain ⟨stop, more, hbehind, hstop⟩ : ∃ stop more, behindKey = stop :: more ∧
      continuesKey stop = false := by
    cases hbefore : a.beforeEquals with
    | nil => exact ⟨'=', _, by simp only [behindKey, hbefore]; rfl, rfl⟩
    | cons blank blanks =>
        have hblank : isBlank blank = true :=
          a.beforeEquals_blank.isBlank_eq_true (by simp [hbefore])
        exact ⟨blank, _, by simp only [behindKey, hbefore]; rfl, by simp [continuesKey, hblank]⟩
  have hinside : ∀ x ∈ a.value.toList, decide (x ≠ a.quote) = true := by
    intro x member
    apply decide_eq_true
    rintro rfl
    exact a.quote_notMem_value member
  have first : (a.text ++ rest).dropWhile isBlank = c :: (cs ++ behindKey) := by
    rw [htext]
    exact dropWhile_until (fun x member => a.space_blank.isBlank_eq_true member) hvisible
  have equals : ((cs ++ behindKey).dropWhile continuesKey).dropWhile isBlank =
      '=' :: (a.afterEquals ++ a.quote :: (a.value.toList ++ a.quote :: rest)) := by
    rw [hbehind, dropWhile_until hcontinues hstop, ← hbehind]
    exact dropWhile_until (fun x member => a.beforeEquals_blank.isBlank_eq_true member) rfl
  have hname : String.ofList (c :: (cs ++ behindKey).takeWhile continuesKey) = a.key := by
    rw [hbehind, takeWhile_until hcontinues hstop, ← hkey, String.ofList_toList]
  have value : (a.afterEquals ++ a.quote :: (a.value.toList ++ a.quote :: rest)).dropWhile isBlank =
      a.quote :: (a.value.toList ++ a.quote :: rest) :=
    dropWhile_until (fun x member => a.afterEquals_blank.isBlank_eq_true member)
      (isBlank_of_isQuote a.quote_isQuote)
  have closing : (a.value.toList ++ a.quote :: rest).dropWhile (· ≠ a.quote) = a.quote :: rest :=
    dropWhile_until hinside (by simp)
  have hread := scanAttributes_of_pieces first equals (hname.symm ▸ fresh) value a.quote_isQuote
    closing
  rw [hname, takeWhile_until hinside (by simp), String.ofList_toList] at hread
  exact hread

end WrittenAttribute

/-- A start tag or an empty tag as it is written. -/
structure WrittenTag where
  name : String
  attributes : List WrittenAttribute
  space : List Char
  isEmpty : Bool
  name_plain : IsPlainName name := by decide
  keys_distinct : (attributes.map WrittenAttribute.key).Nodup := by decide
  space_blank : IsBlankText space := by decide

namespace WrittenTag

variable (t : WrittenTag)

/-- What follows the name. -/
def rest : List Char := t.attributes.flatMap WrittenAttribute.text ++ t.space

/-- The text between the brackets, without the slash of an empty tag. -/
def body : List Char := t.name.toList ++ t.rest

def text : List Char :=
  '<' :: (t.body ++ if t.isEmpty then ['/', '>'] else ['>'])

/-- The tag that is written. -/
def tag : Tag := Document.tagOf t.name (t.attributes.map fun a => (a.key, a.value))

def event : Event := if t.isEmpty then .empty t.tag else .start t.tag

theorem isBlank_of_head?_rest {c : Char} (first : t.rest.head? = some c) : isBlank c = true := by
  rw [rest] at first
  cases hattributes : t.attributes with
  | nil =>
      rw [hattributes] at first
      exact t.space_blank.isBlank_eq_true (List.mem_of_mem_head? first)
  | cons a as =>
      obtain ⟨blank, blanks, hspace⟩ := List.exists_cons_of_ne_nil a.space_nonempty
      have hblank : isBlank blank = true := a.space_blank.isBlank_eq_true (by simp [hspace])
      simp only [hattributes, List.flatMap_cons, WrittenAttribute.text, hspace, List.cons_append,
        List.head?_cons, Option.some.injEq] at first
      rw [← first]
      exact hblank

theorem name_visible : ∀ c ∈ t.name.toList, (!isBlank c) = true := by
  intro c member
  simp [t.name_plain.isBlank_eq_false member]

theorem nameText_body : nameText t.body = t.name.toList := by
  have hstop : t.rest.takeWhile (fun c => !isBlank c) = [] := by
    cases hrest : t.rest with
    | nil => rfl
    | cons c cs =>
        have hblank : isBlank c = true := t.isBlank_of_head?_rest (by simp [hrest])
        exact List.takeWhile_cons_of_neg (by simp [hblank])
  rw [nameText, body, List.takeWhile_append_of_pos t.name_visible, hstop, List.append_nil]

theorem dropWhile_body : t.body.dropWhile (fun c => !isBlank c) = t.rest := by
  rw [body, List.dropWhile_append_of_pos t.name_visible]
  cases hrest : t.rest with
  | nil => rfl
  | cons c cs =>
      have hblank : isBlank c = true := t.isBlank_of_head?_rest (by simp [hrest])
      exact List.dropWhile_cons_of_neg (by simp [hblank])

theorem scanAttributes_rest :
    scanAttributes [] t.rest = t.attributes.map fun a => .ok ⟨a.key, a.value⟩ := by
  have hspace (seen : List String) : scanAttributes seen t.space = [] := by
    have hnothing : t.space.dropWhile isBlank = [] :=
      List.dropWhile_eq_nil_iff.mpr fun c member => t.space_blank.isBlank_eq_true member
    rw [scanAttributes]
    split
    · rfl
    · next found => cases hnothing.symm.trans found
  have hall {as : List WrittenAttribute} (distinct : (as.map WrittenAttribute.key).Nodup)
      {seen : List String} (fresh : ∀ a ∈ as, a.key ∉ seen) :
      scanAttributes seen (as.flatMap WrittenAttribute.text ++ t.space) =
        as.map fun a => .ok ⟨a.key, a.value⟩ := by
    induction as generalizing seen with
    | nil => exact hspace seen
    | cons a as ih =>
        simp only [List.forall_mem_cons, List.map_cons, List.nodup_cons] at distinct fresh
        have hlater : ∀ b ∈ as, b.key ∉ a.key :: seen := by
          intro b member
          rw [List.mem_cons, not_or]
          refine ⟨?_, fresh.2 b member⟩
          intro same
          exact distinct.1 (same ▸ List.mem_map_of_mem member)
        rw [List.flatMap_cons, List.append_assoc, a.scanAttributes_text fresh.1,
          ih distinct.2 hlater, List.map_cons]
  exact hall t.keys_distinct (by simp)

theorem ofText_body : Tag.ofText t.body = t.tag := by
  have hname := t.nameText_body
  rw [nameText] at hname
  rw [Tag.ofText, hname, t.dropWhile_body, t.scanAttributes_rest, String.ofList_toList, tag,
    Document.tagOf, List.map_map]
  rfl

theorem isWhole_body : IsWhole t.body := by
  apply (isWhole_name t.name_plain).append
  rw [rest]
  induction t.attributes with
  | nil => exact t.space_blank.isWhole
  | cons a as ih =>
      rw [List.flatMap_cons, List.append_assoc]
      exact a.isWhole_text.append ih

theorem getLast?_body : t.body.getLast? ≠ some '/' := by
  intro slash
  rcases List.eq_nil_or_concat t.space with hspace | ⟨blanks, blank, hspace⟩
  · rcases List.eq_nil_or_concat t.attributes with hnone | ⟨others, a, hattributes⟩
    · rw [body, rest, hnone, hspace, List.flatMap_nil, List.append_nil, List.append_nil] at slash
      exact t.name_plain.plain '/' (List.mem_of_getLast? slash) (by decide)
    · have hends : t.body = t.name.toList ++ others.flatMap WrittenAttribute.text ++ a.space ++
          a.key.toList ++ a.equalsText ++ a.quote :: a.value.toList ++ [a.quote] := by
        simp [body, rest, hattributes, hspace, WrittenAttribute.text, WrittenAttribute.quoted]
      have hquote : a.quote = '/' := by
        rw [hends, List.getLast?_concat] at slash
        exact Option.some.inj slash
      have hother := a.quote_isQuote
      rw [hquote] at hother
      cases hother
  · have hblank : blank = '/' := by simpa [body, rest, hspace] using slash
    have hother : isBlank blank = true := t.space_blank.isBlank_eq_true (by simp [hspace])
    rw [hblank] at hother
    cases hother

theorem isElementText_body : IsElementText t.body where
  whole := t.isWhole_body
  first := by
    obtain ⟨c, cs, hname⟩ := List.exists_cons_of_ne_nil t.name_plain.nonempty
    have hc := t.name_plain.plain c (by simp [hname])
    simp only [nameBreakers, List.mem_cons, not_or] at hc
    simp [body, hname, hc]
  last := t.getLast?_body
  name := by
    rw [t.nameText_body]
    exact t.name_plain.avoids (by decide)

/-- A tag is read, and reading goes on behind it. -/
theorem scanTags_text (more : List Char) :
    scanTags (t.text ++ more) = .next t.event (scanTags more) := by
  cases hempty : t.isEmpty with
  | true =>
      have hread := t.isElementText_body.scanTags_empty more
      rw [t.ofText_body] at hread
      simpa [text, event, hempty] using hread
  | false =>
      have hread := t.isElementText_body.scanTags_start more
      rw [t.ofText_body] at hread
      simpa [text, event, hempty] using hread

end WrittenTag

theorem IsPlainName.scanTags_stop {name : String} (h : IsPlainName name) (rest : List Char) :
    scanTags ('<' :: '/' :: (name.toList ++ '>' :: rest)) = .next (.stop name) (scanTags rest) := by
  have hvisible : ∀ c ∈ name.toList, isBlank c = false := fun c member => h.isBlank_eq_false member
  rw [Markup.scanTags_stop (h.avoids (by decide)) hvisible, String.ofList_toList]

end Markup

end ConstructorSynthesis
