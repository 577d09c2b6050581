import Mathlib.Data.List.Nodup
import Mathlib.Logic.Function.Basic
import ConstructorSynthesis.Proofs.Document.Completion
import ConstructorSynthesis.Proofs.Markup.Writing
import ConstructorSynthesis.Proofs.Repetition

/-!
The order of attributes does not matter. What is read of a type, a field or a
parameter is a table of the values of its attributes, and reading an attribute
writes the place of its own key, so attributes with different keys can be read in
either order. If several attributes are wrong, the order decides which one is
reported, but not whether the document is accepted. Hence a document in which tags
have been written anew, with their attributes in another order, declares the same
or is refused as the first one is.
-/

namespace ConstructorSynthesis.Document

open Markup (Tag Attribute)

section Table

variable {η : Type}

/-- What has been read is a table of values, and reading an attribute sets the place
of its key, if the attribute has a value that can stand there. -/
def SetsOwnPlace (read : η → Attribute → Except Error η) (value? : Attribute → Option String)
    (ofValues : (String → Option String) → η) : Prop :=
  ∀ values a, (read (ofValues values) a).toOption =
    (value? a).map fun value => ofValues (Function.update values a.key (some value))

/-- The order in which attributes with distinct keys are read is of no consequence. -/
theorem SetsOwnPlace.foldlM_perm {read : η → Attribute → Except Error η}
    {value? : Attribute → Option String} {ofValues : (String → Option String) → η}
    (sets : SetsOwnPlace read value? ofValues) {as bs : List Attribute} (perm : as.Perm bs)
    (distinct : (as.map Attribute.key).Nodup) (values : String → Option String) :
    (as.foldlM read (ofValues values)).toOption = (bs.foldlM read (ofValues values)).toOption := by
  induction perm generalizing values with
  | nil => rfl
  | cons a _ ih =>
      rw [List.foldlM_cons, List.foldlM_cons, toOption_bind, toOption_bind, sets]
      cases value? a with
      | none => rfl
      | some value => exact ih (List.nodup_cons.mp distinct).2 _
  | swap a b rest =>
      have different : b.key ≠ a.key := by
        intro same
        simp [same] at distinct
      simp only [List.foldlM_cons, toOption_bind, sets values]
      cases ha : value? a with
      | none => cases value? b <;> simp [sets _ a, ha]
      | some first =>
          cases hb : value? b with
          | none => simp [sets _ b, hb]
          | some second =>
              simp only [Option.map_some, Option.bind_some, sets _ a, sets _ b, ha, hb]
              rw [Function.update_comm different]
  | trans first _ ih₁ ih₂ =>
      have distinct' := (first.map Attribute.key).nodup_iff.mp distinct
      exact (ih₁ distinct values).trans (ih₂ distinct' values)

theorem update_other {key other : String} (h : key = other → False)
    (values : String → Option String) (value : String) :
    Function.update values key (some value) other = values other :=
  Function.update_of_ne (fun same => h same.symm) _ _

end Table

/-- The value that an attribute of a type gives to its place, if it can stand there. -/
def TypeHeader.value? (a : Attribute) : Option String :=
  (valueOf a).toOption.filter fun value => a.key ≠ "kind" || (Kind.ofSpelling? value).isSome

def TypeHeader.ofValues (values : String → Option String) : TypeHeader where
  name := values "name"
  kind := ((values "kind").bind Kind.ofSpelling?).getD .classType
  base := (values "base").map TypeId.ofReference
  typeParams := ((values "typeParams").map readTypeParams).getD []

theorem TypeHeader.setsOwnPlace : SetsOwnPlace read value? ofValues := by
  intro values a
  rw [read, toOption_bind, value?]
  cases (valueOf a).toOption with
  | none => rfl
  | some value =>
      rw [Option.bind_some, Option.filter_some]
      split
      · next hkey => simp [hkey, ofValues]
      · next hkey => cases hkind : Kind.ofSpelling? value <;> simp [hkey, hkind, ofValues]
      · next hkey => simp [hkey, ofValues]
      · next hkey => simp [hkey, ofValues]
      · next hname hkind hbase hparams =>
          rw [if_pos (by simpa using .inl hkind)]
          simp only [ofValues, toOption_pure, Option.map_some, update_other hname, update_other hkind,
            update_other hbase, update_other hparams]

theorem toOption_readFlag (element key value : String) :
    (readFlag element key value).toOption =
      if value ∈ ["true", "false"] then some (decide (value = "true")) else none := by
  unfold readFlag
  split
  · rfl
  · rfl
  · next htrue hfalse =>
      rw [if_neg (by simpa using ⟨htrue, hfalse⟩)]
      rfl

namespace FieldHeader

def flagKeys : List String := ["readonly", "static", "implicit", "initializer"]

/-- The value that an attribute of a field gives to its place, if it can stand there. -/
def value? (a : Attribute) : Option String :=
  (valueOf a).toOption.filter fun value => a.key ∉ flagKeys || value ∈ ["true", "false"]

def ofValues (values : String → Option String) : FieldHeader where
  name := values "name"
  typeName := values "type"
  isReadonly := values "readonly" = some "true"
  isStatic := values "static" = some "true"
  isImplicit := values "implicit" = some "true"
  hasInitializer := values "initializer" = some "true"

theorem setsOwnPlace : SetsOwnPlace read value? ofValues := by
  intro values a
  rw [read, toOption_bind, value?]
  cases (valueOf a).toOption with
  | none => rfl
  | some value =>
      rw [Option.bind_some, Option.filter_some]
      -- The four flags are read alike: `set` is what each of them does to the header.
      have hflag {set : Bool → FieldHeader} (flag : a.key ∈ flagKeys)
          (hset : set (value = "true") =
            ofValues (Function.update values a.key (some value))) :
          (do return set (← readFlag "field" a.key value) : Except Error FieldHeader).toOption =
            (if a.key ∉ flagKeys || value ∈ ["true", "false"] then some value else none).map
              fun value => ofValues (Function.update values a.key (some value)) := by
        rw [toOption_bind, toOption_readFlag]
        by_cases valid : value ∈ ["true", "false"]
        · rw [if_pos valid, if_pos (by simp [valid]), Option.map_some, ← hset]
          rfl
        · rw [if_neg valid, if_neg (by simp [flag, valid])]
          rfl
      split
      · next hkey => simp [hkey, ofValues, flagKeys]
      · next hkey => simp [hkey, ofValues, flagKeys]
      · next hkey => exact hflag (by simp [hkey, flagKeys]) (by simp [hkey, ofValues])
      · next hkey => exact hflag (by simp [hkey, flagKeys]) (by simp [hkey, ofValues])
      · next hkey => exact hflag (by simp [hkey, flagKeys]) (by simp [hkey, ofValues])
      · next hkey => exact hflag (by simp [hkey, flagKeys]) (by simp [hkey, ofValues])
      · next hname htype hreadonly hstatic himplicit hinitializer =>
          have hplain : a.key ∉ flagKeys := by
            simpa [flagKeys] using ⟨hreadonly, hstatic, himplicit, hinitializer⟩
          rw [if_pos (by simp [hplain])]
          simp only [ofValues, toOption_pure, Option.map_some, update_other hname, update_other htype,
            update_other hreadonly, update_other hstatic, update_other himplicit, update_other hinitializer]

end FieldHeader

namespace ParameterHeader

/-- The value that an attribute of a parameter gives to its place, if it can stand
there. References are resolved only in the attributes that are used. -/
def value? (a : Attribute) : Option String :=
  if a.key = "name" ∨ a.key = "type" then (valueOf a).toOption else some a.value

def ofValues (values : String → Option String) : ParameterHeader where
  name := values "name"
  typeName := values "type"

theorem setsOwnPlace : SetsOwnPlace read value? ofValues := by
  intro values a
  unfold read value?
  split
  · next hkey =>
      rw [if_pos (.inl hkey), toOption_bind]
      cases (valueOf a).toOption <;> simp [hkey, ofValues]
  · next hkey =>
      rw [if_pos (.inr hkey), toOption_bind]
      cases (valueOf a).toOption <;> simp [hkey, ofValues]
  · next hname htype =>
      rw [if_neg (by simpa using ⟨hname, htype⟩)]
      simp only [ofValues, toOption_pure, Option.map_some, update_other hname, update_other htype]

end ParameterHeader

section Reordered

variable {t u : Tag} (perm : t.attributes.Perm u.attributes)
  (distinct : (t.attributes.map Attribute.key).Nodup)

include perm distinct

theorem required_perm (element key : String) : required element key t = required element key u := by
  rw [required, required, find?_key_perm Attribute.key perm distinct]

theorem readConstructor_perm : readConstructor t = readConstructor u := by
  rw [readConstructor, readConstructor, find?_key_perm Attribute.key perm distinct]

theorem toOption_readType_perm (inNamespace : Option String) (enclosing : List EnclosingType) :
    (readType inNamespace enclosing t).toOption = (readType inNamespace enclosing u).toOption := by
  have hheader := TypeHeader.setsOwnPlace.foldlM_perm perm distinct fun _ => none
  rw [readType, readType, toOption_bind, toOption_bind]
  exact congrArg (Option.bind · _) hheader

theorem toOption_readField_perm : (readField t).toOption = (readField u).toOption := by
  have hheader := FieldHeader.setsOwnPlace.foldlM_perm perm distinct fun _ => none
  rw [readField, readField, toOption_bind, toOption_bind]
  exact congrArg (Option.bind · _) hheader

theorem toOption_readParameter_perm : (readParameter t).toOption = (readParameter u).toOption := by
  have hheader := ParameterHeader.setsOwnPlace.foldlM_perm perm distinct fun _ => none
  rw [readParameter, readParameter, toOption_bind, toOption_bind]
  exact congrArg (Option.bind · _) hheader

/-- What is inside an element and around it after its tag, whether the tag is
accepted included. -/
theorem toOption_enter_perm (hname : t.name = u.name) (around : Frame) :
    (enter t around).toOption = (enter u around).toOption := by
  unfold enter
  rw [← hname]
  cases around with
  | scope ns =>
      simp only
      split
      · rw [required_perm perm distinct]
      · rw [toOption_bind, toOption_bind, toOption_readType_perm perm distinct]
      · rfl
  | type d nested =>
      simp only
      split
      · rw [toOption_bind, toOption_bind, toOption_readType_perm perm distinct]
      · rw [readConstructor_perm perm distinct]
      · rw [required_perm perm distinct]
      · rw [toOption_bind, toOption_bind, toOption_readField_perm perm distinct]
      · rfl
  | constructor c =>
      simp only
      split
      · rw [toOption_bind, toOption_bind, toOption_readParameter_perm perm distinct]
      · rfl
  | ignored => rfl

end Reordered

end ConstructorSynthesis.Document

namespace ConstructorSynthesis.Markup

/-- The same tag with its attributes in some order. White space and quotes may be
others too. -/
structure WrittenTag.Reorders (t u : WrittenTag) : Prop where
  name : t.name = u.name
  isEmpty : t.isEmpty = u.isEmpty
  attributes : (t.attributes.map fun a => (a.key, a.value)).Perm
    (u.attributes.map fun a => (a.key, a.value))

/-- Two texts that are the same but for the order of the attributes in some tags.
What stands before such a tag is markup to its end, so the tag begins there, and is
no part of a comment or a value. -/
inductive Reordered : List Char → List Char → Prop where
  | same (cs : List Char) : Reordered cs cs
  | tag {before cs ds : List Char} {t u : WrittenTag}
      (whole : (scanTags before).fault? = none) (reorders : t.Reorders u)
      (rest : Reordered cs ds) : Reordered (before ++ (t.text ++ cs)) (before ++ (u.text ++ ds))

namespace WrittenTag

theorem attributes_tag (t : WrittenTag) :
    t.tag.attributes = t.attributes.map fun a => ⟨a.key, a.value⟩ := by
  rw [tag, Document.attributes_tagOf, List.map_map]
  rfl

theorem keys_tag_distinct (t : WrittenTag) : (t.tag.attributes.map Attribute.key).Nodup := by
  rw [attributes_tag, List.map_map]
  exact t.keys_distinct

theorem Reorders.perm {t u : WrittenTag} (h : t.Reorders u) :
    t.tag.attributes.Perm u.tag.attributes := by
  rw [tag, tag, Document.attributes_tagOf, Document.attributes_tagOf]
  exact h.attributes.map _

/-- A start tag opens its element and an empty tag nothing, whatever follows. -/
theorem nest_event (t : WrittenTag) (rest : Stream) (opened : List String) :
    (Stream.next t.event rest).nest opened =
      .next t.event (rest.nest (if t.isEmpty then opened else t.name :: opened)) := by
  cases hempty : t.isEmpty <;> simp [event, hempty, Stream.nest, tag, Document.tagOf]

end WrittenTag

/-- The byte order mark is text like any other that holds no tags. -/
theorem scanTags_dropMark (cs : List Char) : scanTags (dropMark cs) = scanTags cs := by
  unfold dropMark
  split
  · exact (scanTags_text (by decide) (by decide) _).symm
  · rfl

end ConstructorSynthesis.Markup

namespace ConstructorSynthesis.Document

open Markup (Tag Stream scanTags WrittenTag Reordered)

namespace Reading

theorem toOption_step_reorders {t u : WrittenTag} (h : t.Reorders u) (r : Reading) :
    (r.step t.event).toOption = (r.step u.event).toOption := by
  have hname : t.tag.name = u.tag.name := h.name
  have henter := toOption_enter_perm h.perm t.keys_tag_distinct hname
  rw [WrittenTag.event, WrittenTag.event, ← h.isEmpty]
  cases r with
  | before => cases t.isEmpty <;> simp [step, hname]
  | behind declared => cases t.isEmpty <;> rfl
  | inside declared frame outer =>
      cases t.isEmpty with
      | false =>
          simp only [Bool.false_eq_true, if_false, step, toOption_bind, henter]
      | true =>
          have hnamespace : isEmptyNamespace t.tag frame = isEmptyNamespace u.tag frame := by
            cases frame <;> simp [isEmptyNamespace, hname]
          simp only [if_true, step, hnamespace]
          split
          · rfl
          · rw [toOption_bind, toOption_bind, henter]

theorem toOption_run_next (r : Reading) (event : Markup.Event) (rest : Stream) :
    (r.run (.next event rest)).toOption =
      (r.step event).toOption.bind fun next => (next.run rest).toOption := by
  rw [run]
  cases r.step event <;> rfl

/-- What follows a common beginning decides. -/
theorem toOption_run_append {s t : Stream}
    (h : ∀ r : Reading, (r.run s).toOption = (r.run t).toOption) (before : Stream) (r : Reading) :
    (r.run (before.append s)).toOption = (r.run (before.append t)).toOption := by
  induction before generalizing r with
  | done => exact h r
  | broken fault => rfl
  | next event rest ih =>
      simp only [Stream.append, toOption_run_next, ih]

theorem toOption_run_reordered {cs ds : List Char} (h : Reordered cs ds) (opened : List String)
    (r : Reading) :
    (r.run ((scanTags cs).nest opened)).toOption = (r.run ((scanTags ds).nest opened)).toOption := by
  induction h generalizing opened r with
  | same cs => rfl
  | @tag before cs ds t u whole reorders _ ih =>
      rw [Markup.scanTags_append whole, Markup.scanTags_append whole, t.scanTags_text,
        u.scanTags_text, Stream.nest_append, Stream.nest_append]
      apply toOption_run_append
      intro r
      rw [t.nest_event, u.nest_event, toOption_run_next, toOption_run_next,
        toOption_step_reorders reorders, ← reorders.isEmpty, ← reorders.name]
      simp only [ih]

end Reading

/-- Two documents that differ in the order of attributes declare the same in the
same order, or both are refused. -/
theorem parse_reordered {first second : String}
    (reordered : Reordered first.toList second.toList) :
    (∃ c, parse first = .ok c ∧ parse second = .ok c) ∨
      ∃ e e', parse first = .error e ∧ parse second = .error e' := by
  have hread : (declarationsOf first).toOption = (declarationsOf second).toOption := by
    rw [declarationsOf, declarationsOf, Stream.ofText, Stream.ofText, Markup.scanTags_dropMark,
      Markup.scanTags_dropMark]
    exact Reading.toOption_run_reordered reordered [] .before
  unfold parse
  cases hfirst : declarationsOf first with
  | error e =>
      cases hsecond : declarationsOf second with
      | error e' => exact .inr ⟨e, e', rfl, rfl⟩
      | ok ds => simp [hfirst, hsecond, Except.toOption] at hread
  | ok ds =>
      cases hsecond : declarationsOf second with
      | error e' => simp [hfirst, hsecond, Except.toOption] at hread
      | ok ds' =>
          have same : ds = ds' := by simpa [hfirst, hsecond, Except.toOption] using hread
          exact .inl ⟨Catalog.ofList ds, rfl, by rw [same]; rfl⟩

def typeTag (nameFirst : Bool) : WrittenTag :=
  if nameFirst then
    { name := "type", space := [], isEmpty := false,
      attributes :=
        [.mk [' '] "name" [] [] '\x27' "A", .mk [' '] "base" [] [] '\x22' "B&lt;int>"] }
  else
    { name := "type", space := [], isEmpty := false,
      attributes :=
        [.mk ['\n'] "base" [' '] [' '] '\x27' "B&lt;int>", .mk ['\t'] "name" [] [] '\x22' "A"] }

def fieldTag (nameFirst : Bool) : WrittenTag :=
  if nameFirst then
    { name := "field", space := [], isEmpty := true,
      attributes :=
        [.mk [' '] "name" [] [] '\x27' "_x", .mk [' '] "type" [] [] '\x27' "int",
          .mk [' '] "readonly" [] [] '\x27' "true"] }
  else
    { name := "field", space := [' '], isEmpty := true,
      attributes :=
        [.mk [' '] "type" [] [] '\x27' "int", .mk [' '] "readonly" [] [] '\x27' "true",
          .mk [' '] "name" [] [] '\x27' "_x"] }

/-- The reference in the attribute `of` is broken, but nobody resolves it. -/
def parameterTag (nameFirst : Bool) : WrittenTag :=
  if nameFirst then
    { name := "parameter", space := [], isEmpty := true,
      attributes :=
        [.mk [' '] "name" [] [] '\x27' "p", .mk [' '] "type" [] [] '\x27' "T",
          .mk [' '] "of" [] [] '\x27' "&"] }
  else
    { name := "parameter", space := [], isEmpty := true,
      attributes :=
        [.mk [' '] "of" [] [] '\x27' "&", .mk [' '] "type" [] [] '\x27' "T",
          .mk [' '] "name" [] [] '\x27' "p"] }

/-- A document whose tags give the name first or last, with a comment that looks
like a tag. -/
def nestedTags (nameFirst : Bool) : List Char :=
  "<declarations>".toList ++ ((typeTag nameFirst).text ++ ("<!-- <field> -->".toList ++
    ((fieldTag nameFirst).text ++ ("<constructor>".toList ++
      ((parameterTag nameFirst).text ++ "</constructor></type></declarations>".toList)))))

def declaredInEitherOrder : List Declaration :=
  [⟨"A", .classType, none, [], [], some ⟨"B`1"⟩, [],
    [⟨"_x", "int", true, false, false, false⟩], [⟨false, [⟨"T", "p"⟩]⟩]⟩]

theorem parse_reordered_nested :
    let first := String.ofList (nestedTags true)
    let last := String.ofList (nestedTags false)
    Reordered first.toList last.toList ∧
      ∃ c, parse first = .ok c ∧ parse last = .ok c ∧ c.toList = declaredInEitherOrder := by
  intro first last
  have reordered : Reordered first.toList last.toList := by
    rw [String.toList_ofList, String.toList_ofList]
    apply Reordered.tag (by decide +kernel) ⟨by decide, by decide, by decide⟩
    apply Reordered.tag (by decide +kernel) ⟨by decide, by decide, by decide⟩
    apply Reordered.tag (by decide +kernel) ⟨by decide, by decide, by decide⟩
    exact .same _
  have hlist : (parse first).map Catalog.toList = .ok declaredInEitherOrder := by
    rw [map_toList_parse, declarationsOf, Stream.ofText, String.toList_ofList]
    decide +kernel
  refine ⟨reordered, ?_⟩
  rcases parse_reordered reordered with ⟨c, accepted, accepted'⟩ | ⟨e, e', refused, -⟩
  · rw [accepted] at hlist
    exact ⟨c, accepted, accepted', Except.ok.inj hlist⟩
  · rw [refused] at hlist
    cases hlist

end ConstructorSynthesis.Document
