import ConstructorSynthesis.Proofs.Markup.Writing

/-!
Trees written as text. A tag is printed as its name and its attributes, each value
in double quotes; between the tags there may be any text that opens nothing. If the
names are plain and no value holds a quote, then the reader finds in the text the
tags of the tree, and behind them it goes on with what follows the text.
-/

namespace ConstructorSynthesis.Markup

/-- A value that is read as it is written, between double quotes. -/
def IsPlainValue (value : String) : Prop := Text.Avoids ['\x22', '&'] value.toList

instance (value : String) : Decidable (IsPlainValue value) :=
  inferInstanceAs (Decidable (Text.Avoids ['\x22', '&'] value.toList))

/-- An attribute as it is printed, with the blank before it. -/
def attributeText (a : String × String) : List Char :=
  ' ' :: (a.1.toList ++ '=' :: '\x22' :: (a.2.toList ++ ['\x22']))

/-- The text of a tag without its brackets. -/
def tagText (name : String) (attributes : List (String × String)) : List Char :=
  name.toList ++ attributes.flatMap attributeText

/-- A tag that is read as it is printed. -/
structure IsPrintable (name : String) (attributes : List (String × String)) : Prop where
  name : IsPlainName name
  keys : ∀ a ∈ attributes, IsPlainName a.1
  distinct : (attributes.map Prod.fst).Nodup
  values : ∀ a ∈ attributes, IsPlainValue a.2

instance (name : String) (attributes : List (String × String)) :
    Decidable (IsPrintable name attributes) :=
  decidable_of_iff
    (IsPlainName name ∧ (∀ a ∈ attributes, IsPlainName a.1) ∧ (attributes.map Prod.fst).Nodup ∧
      ∀ a ∈ attributes, IsPlainValue a.2)
    ⟨fun h => ⟨h.1, h.2.1, h.2.2.1, h.2.2.2⟩, fun h => ⟨h.name, h.keys, h.distinct, h.values⟩⟩

/-- Any plain value may stand in place of the first one. -/
theorem IsPrintable.replace_first {name key old value : String} {others : List (String × String)}
    (h : IsPrintable name ((key, old) :: others)) (plain : IsPlainValue value) :
    IsPrintable name ((key, value) :: others) where
  name := h.name
  keys := by simpa using h.keys
  distinct := h.distinct
  values := by
    rw [List.forall_mem_cons]
    exact ⟨plain, (List.forall_mem_cons.mp h.values).2⟩

/-- A printed attribute is written with one blank before it and double quotes. -/
def printedAttribute (a : String × String) (plain : IsPlainName a.1 ∧ IsPlainValue a.2) :
    WrittenAttribute where
  space := [' ']
  key := a.1
  beforeEquals := []
  afterEquals := []
  quote := '\x22'
  value := a.2
  space_blank := rfl
  space_nonempty := by simp
  key_plain := plain.1
  beforeEquals_blank := rfl
  afterEquals_blank := rfl
  quote_isQuote := rfl
  quote_notMem_value := fun member => plain.2 _ member (by decide)

namespace IsPrintable

variable {name : String} {attributes : List (String × String)} (h : IsPrintable name attributes)

/-- The printed tag as a written one. -/
def written (isEmpty : Bool) : WrittenTag where
  name := name
  attributes := attributes.pmap printedAttribute fun a member => ⟨h.keys a member, h.values a member⟩
  space := []
  isEmpty := isEmpty
  name_plain := h.name
  keys_distinct := by
    have hkeys := h.distinct
    rw [List.map_pmap]
    simpa [printedAttribute] using hkeys
  space_blank := rfl

theorem body_written (isEmpty : Bool) : (h.written isEmpty).body = tagText name attributes := by
  have hattributes : (h.written isEmpty).attributes.map WrittenAttribute.text =
      attributes.map attributeText := by
    rw [written, List.map_pmap]
    change List.pmap (fun a _ => attributeText a) attributes _ = _
    rw [List.pmap_eq_map]
  rw [WrittenTag.body, WrittenTag.rest, List.flatMap_def, hattributes, ← List.flatMap_def, tagText]
  simp [written]

theorem tag_written (isEmpty : Bool) :
    (h.written isEmpty).tag = Document.tagOf name attributes := by
  simp [WrittenTag.tag, written, List.map_pmap, printedAttribute]

include h

theorem scanTags_start (rest : List Char) :
    scanTags ('<' :: (tagText name attributes ++ '>' :: rest)) =
      .next (.start (Document.tagOf name attributes)) (scanTags rest) := by
  have hread := (h.written false).scanTags_text rest
  have hstart : (h.written false).isEmpty = false := rfl
  simpa [WrittenTag.text, WrittenTag.event, hstart, h.body_written, h.tag_written] using hread

theorem scanTags_empty (rest : List Char) :
    scanTags ('<' :: (tagText name attributes ++ '/' :: '>' :: rest)) =
      .next (.empty (Document.tagOf name attributes)) (scanTags rest) := by
  have hread := (h.written true).scanTags_text rest
  have hempty : (h.written true).isEmpty = true := rfl
  simpa [WrittenTag.text, WrittenTag.event, hempty, h.body_written, h.tag_written] using hread

end IsPrintable

/-- The text prints these elements, with other text between the tags. -/
inductive Printed : List Element → List Char → Prop where
  | nil : Printed [] []
  | text {es : List Element} {cs : List Char} {c : Char} (opens : c ≠ '<') (refers : c ≠ '&')
      (rest : Printed es cs) : Printed es (c :: cs)
  | leaf {name : String} {attributes : List (String × String)} {es : List Element}
      {cs : List Char} (tag : IsPrintable name attributes) (rest : Printed es cs) :
      Printed (.leaf (Document.tagOf name attributes) :: es)
        ('<' :: (tagText name attributes ++ '/' :: '>' :: cs))
  | node {name : String} {attributes : List (String × String)} {content es : List Element}
      {inner cs : List Char} (tag : IsPrintable name attributes) (inside : Printed content inner)
      (rest : Printed es cs) :
      Printed (.node (Document.tagOf name attributes) content :: es)
        ('<' :: (tagText name attributes ++ '>' :: (inner ++
          '<' :: '/' :: (name.toList ++ '>' :: cs))))

/-- The reader finds the tags of the elements in the text. -/
theorem Printed.scanTags_append {es : List Element} {cs : List Char} (h : Printed es cs)
    (more : List Char) : scanTags (cs ++ more) = Element.streamAll es (scanTags more) := by
  induction h generalizing more with
  | nil => rfl
  | text opens refers _ ih => rw [List.cons_append, scanTags_text opens refers, ih]
  | leaf tag _ ih =>
      rw [Element.streamAll, Element.stream, ← ih, ← tag.scanTags_empty]
      simp
  | @node name attributes _ _ _ cs tag _ _ ihInside ihRest =>
      have hstop := tag.name.scanTags_stop (cs ++ more)
      have hname : (Document.tagOf name attributes).name = name := rfl
      rw [Element.streamAll, Element.stream, hname, ← ihRest, ← hstop, ← ihInside,
        ← tag.scanTags_start]
      simp

theorem Printed.append {es fs : List Element} {cs ds : List Char} (h : Printed es cs)
    (g : Printed fs ds) : Printed (es ++ fs) (cs ++ ds) := by
  induction h with
  | nil => exact g
  | text opens refers _ ih => exact .text opens refers ih
  | leaf tag _ ih =>
      rw [List.cons_append, List.cons_append, List.append_assoc]
      exact .leaf tag ih
  | node tag inside _ _ ih =>
      have hnode := Printed.node tag inside ih
      simpa using hnode

theorem printed_flatMap {α : Type} {xs : List α} {element : α → Element} {text : α → List Char}
    (each : ∀ x ∈ xs, Printed [element x] (text x)) :
    Printed (xs.map element) (xs.flatMap text) := by
  induction xs with
  | nil => exact .nil
  | cons x xs ih =>
      simp only [List.forall_mem_cons] at each
      rw [List.map_cons, List.flatMap_cons]
      exact each.1.append (ih each.2)

/-- Text between tags, such as line ends and margins. -/
theorem printed_text {layout : List Char} (plain : Text.Avoids ['<', '&'] layout) :
    Printed [] layout := by
  induction layout with
  | nil => exact .nil
  | cons c layout ih =>
      have hc := plain c List.mem_cons_self
      simp only [List.mem_cons, List.not_mem_nil, or_false, not_or] at hc
      exact .text hc.1 hc.2 (ih fun d member => plain d (List.mem_cons_of_mem c member))

theorem Printed.behind_text {es : List Element} {cs layout : List Char} (h : Printed es cs)
    (plain : Text.Avoids ['<', '&'] layout) : Printed es (layout ++ cs) :=
  (printed_text plain).append h

theorem Printed.before_text {es : List Element} {cs layout : List Char} (h : Printed es cs)
    (plain : Text.Avoids ['<', '&'] layout) : Printed es (cs ++ layout) := by
  have hall := h.append (printed_text plain)
  rw [List.append_nil] at hall
  exact hall

mutual
/-- The end tags of an element close it. -/
theorem nest_stream (e : Element) (rest : Stream) (opened : List String) :
    (e.stream rest).nest opened = e.stream (rest.nest opened) := by
  cases e with
  | leaf tag => rfl
  | node tag content =>
      rw [Element.stream, Stream.nest, nest_streamAll content, Stream.nest, if_pos rfl,
        Element.stream]

theorem nest_streamAll (es : List Element) (rest : Stream) (opened : List String) :
    (Element.streamAll es rest).nest opened = Element.streamAll es (rest.nest opened) := by
  cases es with
  | nil => rfl
  | cons e es => rw [Element.streamAll, nest_stream e, nest_streamAll es, Element.streamAll]
end

theorem Printed.ofText_eq {es : List Element} {text : String} (h : Printed es text.toList)
    (opens : text.toList.head? = some '<') : Stream.ofText text = Element.streamAll es .done := by
  obtain ⟨cs, hcs⟩ := List.head?_eq_some_iff.mp opens
  have hmark : dropMark text.toList = text.toList := by
    rw [hcs]
    rfl
  have hscan := h.scanTags_append []
  rw [List.append_nil, scanTags_nil] at hscan
  rw [Stream.ofText, hmark, hscan, nest_streamAll]
  rfl

theorem resolveFrom_plain {cs : List Char} (plain : '&' ∉ cs) (total offset : Nat) :
    resolveFrom total offset cs = .ok cs := by
  induction cs generalizing offset with
  | nil => rw [resolveFrom]
  | cons c cs ih =>
      simp only [List.mem_cons, not_or] at plain
      rw [resolveFrom, if_neg (Ne.symm plain.1), ih plain.2]
      rfl

theorem unescape_plain {value : String} (plain : IsPlainValue value) : unescape value = .ok value := by
  have hplain : '&' ∉ value.toList := fun member => plain '&' member (by decide)
  rw [unescape, resolveFrom_plain hplain]
  exact congrArg Except.ok String.ofList_toList

end ConstructorSynthesis.Markup

namespace ConstructorSynthesis.Document

theorem valueOf_plain {key value : String} (plain : Markup.IsPlainValue value) :
    valueOf ⟨key, value⟩ = .ok value := by
  rw [valueOf, Markup.unescape_plain plain]

end ConstructorSynthesis.Document
