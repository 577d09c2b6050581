import ConstructorSynthesis.Proofs.Declaration.Path

/-!
References as they are written in source. A reference to a declaration follows
its path; a generic segment has as many arguments in angle brackets as the type
has parameters, and white space may stand anywhere. Arguments are themselves
written types, so brackets and commas are nested in them to any depth; the text
of an argument is described by a grammar. Every such reference is read as the
identity of the declaration.
-/

namespace ConstructorSynthesis

/-- Text whose angle brackets are balanced and that has none of the characters
`banned` outside of them. -/
inductive Bracketed : List Char → List Char → Prop
  | nil {banned : List Char} : Bracketed banned []
  | char {banned cs : List Char} {c : Char} (opening : c ≠ '<') (closing : c ≠ '>')
      (allowed : c ∉ banned) (rest : Bracketed banned cs) : Bracketed banned (c :: cs)
  | group {banned inner cs : List Char} (inside : Bracketed [] inner)
      (rest : Bracketed banned cs) : Bracketed banned ('<' :: inner ++ '>' :: cs)

/-- Text without brackets can stand in front. -/
theorem Bracketed.plain_append {banned cs rest : List Char}
    (plain : Text.Avoids ('<' :: '>' :: banned) cs) (h : Bracketed banned rest) :
    Bracketed banned (cs ++ rest) := by
  induction cs with
  | nil => exact h
  | cons c cs ih =>
      have hc := plain c (by simp)
      simp only [List.mem_cons, not_or] at hc
      exact .char hc.1 hc.2.1 hc.2.2 (ih fun c member => plain c (by simp [member]))

theorem Bracketed.of_plain {banned cs : List Char}
    (plain : Text.Avoids ('<' :: '>' :: banned) cs) : Bracketed banned cs := by
  simpa using plain_append plain .nil

/-- The ways to write a type of the given name and arity as a segment of a
reference. -/
inductive SegmentText (name : String) : Nat → List Char → Prop
  | plain : SegmentText name 0 name.toList
  | generic {first : List Char} {others : List (List Char)}
      (arguments : ∀ a ∈ first :: others, Bracketed [','] a) :
      SegmentText name (others.length + 1)
        (name.toList ++ '<' :: [','].intercalate (first :: others) ++ ['>'])

/-- What is left of a text without its white space. -/
def Text.visible (cs : List Char) : List Char := cs.filter fun c => !Text.isSpace c

/-- A name without angle brackets and white space. -/
def IsReferenceName (name : String) : Prop :=
  ∀ c ∈ name.toList, c ≠ '<' ∧ c ≠ '>' ∧ Text.isSpace c = false

theorem all_iff_isReferenceName (name : String) :
    (name.toList.all fun c => c != '<' && c != '>' && !Text.isSpace c) = true ↔
      IsReferenceName name := by
  simp [IsReferenceName, and_assoc]

instance (name : String) : Decidable (IsReferenceName name) :=
  decidable_of_iff _ (all_iff_isReferenceName name)

/-- The text refers to the declaration, with white space anywhere. -/
def Declaration.IsReference (d : Declaration) (reference : String) : Prop :=
  ∃ texts, List.Forall₂ (fun s text => SegmentText s.1 s.2.length text) d.segments texts ∧
    Text.visible reference.toList = Text.visible (d.pathText texts)

namespace TypeId

/-- White space makes no difference to what is read. -/
theorem scanReference_visible (depth arity : Nat) (cs : List Char) :
    scanReference depth arity (Text.visible cs) = scanReference depth arity cs := by
  induction cs generalizing depth arity with
  | nil => rfl
  | cons c cs ih =>
      cases hspace : Text.isSpace c with
      | true =>
          have hopening : c ≠ '<' := by rintro rfl; cases hspace
          have hclosing : c ≠ '>' := by rintro rfl; cases hspace
          have hcomma : c ≠ ',' := by rintro rfl; cases hspace
          have hdropped : Text.visible (c :: cs) = Text.visible cs := by
            simp [Text.visible, hspace]
          rw [hdropped, ih]
          simp [scanReference, hopening, hclosing, hcomma, hspace]
      | false =>
          have hkept : Text.visible (c :: cs) = c :: Text.visible cs := by
            simp [Text.visible, hspace]
          rw [hkept]
          simp only [scanReference, ih]

/-- Outside brackets, a name is kept as it is. -/
theorem carries_name {name : String} (plain : IsReferenceName name) :
    Carries (scanReference 0 0) name.toList name.toList := by
  intro rest
  unfold IsReferenceName at plain
  generalize name.toList = cs at plain
  induction cs with
  | nil => rfl
  | cons c cs ih =>
      obtain ⟨hopening, hclosing, hspace⟩ := plain c (by simp)
      have hrest := ih fun c member => plain c (by simp [member])
      simp [scanReference, hopening, hclosing, hspace, hrest]

/-- Inside brackets, balanced text is passed over; directly inside the outermost
brackets it must have no comma that separates arguments. -/
theorem scanReference_bracketed {banned text : List Char} (h : Bracketed banned text)
    {depth : Nat} (hdepth : 0 < depth) (hcomma : depth = 1 → ',' ∈ banned) (arity : Nat)
    (rest : List Char) :
    scanReference depth arity (text ++ rest) = scanReference depth arity rest := by
  induction h generalizing depth rest with
  | nil => rfl
  | @char banned cs c hopening hclosing hallowed _ ih =>
      have hseparator : ¬ (c = ',' ∧ depth = 1) := by
        rintro ⟨rfl, hone⟩
        exact hallowed (hcomma hone)
      simp only [List.cons_append, scanReference, hopening, hclosing, hseparator, hdepth,
        if_false, true_or, if_true]
      exact ih hdepth hcomma rest
  | @group banned inner cs _ _ ihInner ihRest =>
      -- Inside the group the depth is two or more, where a comma separates nothing.
      have hdeeper : ¬ depth + 1 ≤ 1 := by omega
      have hsame : depth ≠ 0 := by omega
      simp only [List.cons_append, List.append_assoc, scanReference, if_true, hsame, if_false]
      rw [ihInner (by omega) (by omega)]
      simp [scanReference, hdeeper, ihRest hdepth hcomma]

/-- The arguments between brackets leave their number behind. -/
theorem scanReference_arguments {first : List Char} {others : List (List Char)}
    (arguments : ∀ a ∈ first :: others, Bracketed [','] a) (arity : Nat) (rest : List Char) :
    scanReference 1 arity ([','].intercalate (first :: others) ++ '>' :: rest) =
      arityMark (arity + others.length) ++ scanReference 0 0 rest := by
  induction others generalizing first arity with
  | nil =>
      rw [List.intercalate_singleton, scanReference_bracketed (arguments first (by simp))]
      all_goals simp [scanReference]
  | cons next others ih =>
      have hrest := ih (fun a member => arguments a (List.mem_cons_of_mem first member)) (arity + 1)
      rw [List.intercalate_cons_cons, List.append_assoc, List.append_assoc,
        scanReference_bracketed (arguments first (by simp)) (by omega) (by simp)]
      simp only [List.cons_append, List.nil_append, scanReference]
      rw [hrest]
      simp [Nat.add_assoc, Nat.add_comm 1]

/-- A segment, however it is written, becomes its form in the identity. -/
theorem carries_segment {name : String} {params : List String} {text : List Char}
    (plain : IsReferenceName name) (h : SegmentText name params.length text) :
    Carries (scanReference 0 0) text (idSegment name params).toList := by
  have hname := carries_name plain
  have himage : (idSegment name params).toList = name.toList ++ arityMark params.length := by
    simp [idSegment]
  rw [himage]
  generalize params.length = arity at h
  cases h with
  | plain => simpa [arityMark] using hname
  | @generic first others arguments =>
      intro rest
      have hopen : scanReference 0 0 ('<' :: ([','].intercalate (first :: others) ++ '>' :: rest)) =
          scanReference 1 1 ([','].intercalate (first :: others) ++ '>' :: rest) := by
        simp [scanReference]
      simp only [List.append_assoc, List.cons_append, List.nil_append]
      rw [hname, hopen, scanReference_arguments arguments, Nat.add_comm 1]

/-- Every reference to a declaration with plain names on its path is read as its
identity. -/
theorem ofReference_of_isReference {d : Declaration}
    (plain : ∀ name ∈ d.pathNames, IsReferenceName name)
    {reference : String} (h : d.IsReference reference) : ofReference reference = d.id := by
  obtain ⟨texts, htexts, hvisible⟩ := h
  have hscan : scanReference 0 0 (d.pathText texts) = d.id.text.toList := by
    apply Declaration.scan_pathText
    · rfl
    · intro rest
      have hdot : Text.isSpace '.' = false := by decide
      simp [scanReference, hdot]
    · intro name member
      exact carries_name (plain name (Declaration.mem_pathNames_of_inNamespace member))
    · have hnames : ∀ s ∈ d.segments, IsReferenceName s.1 := by
        intro s member
        exact plain s.1 (Declaration.mem_pathNames_of_segment member)
      have hboth := (List.forall₂_and_left d.segments texts).mpr ⟨hnames, htexts⟩
      exact hboth.imp fun s text h => carries_segment h.1 h.2
  rw [ofReference, ← scanReference_visible, hvisible, scanReference_visible, hscan,
    String.ofList_toList]

end TypeId

/-- The text in which type parameters are given as the arguments. -/
def sourceText (name : String) (params : List String) : List Char :=
  match params with
  | [] => name.toList
  | first :: others =>
      name.toList ++ '<' :: [','].intercalate (first.toList :: others.map String.toList) ++ ['>']

theorem segmentText_sourceText (name : String) {params : List String}
    (plain : ∀ p ∈ params, Text.Avoids ['<', '>', ','] p.toList) :
    SegmentText name params.length (sourceText name params) := by
  cases params with
  | nil => exact .plain
  | cons first others =>
      have harguments : ∀ a ∈ first.toList :: others.map String.toList, Bracketed [','] a := by
        intro a member
        rw [← List.map_cons, List.mem_map] at member
        obtain ⟨p, hp, rfl⟩ := member
        exact .of_plain (plain p hp)
      have htext : SegmentText name _ _ := .generic harguments
      simpa [sourceText] using htext

namespace Text

theorem visible_append (cs ds : List Char) : visible (cs ++ ds) = visible cs ++ visible ds :=
  List.filter_append cs ds

theorem visible_intercalate (separator : List Char) (parts : List (List Char)) :
    visible (separator.intercalate parts) =
      (visible separator).intercalate (parts.map visible) := by
  induction parts with
  | nil => rfl
  | cons part parts ih =>
      cases parts with
      | nil => simp
      | cons next parts =>
          rw [List.intercalate_cons_cons, visible_append, visible_append, ih]
          simp

end Text

/-- A shown name and the same name in source differ only in white space. -/
theorem visible_genericName (name : String) (params : List String) :
    Text.visible (genericName name params).toList = Text.visible (sourceText name params) := by
  cases params with
  | nil => rfl
  | cons first others =>
      have hjoined (parts : List (List Char)) :
          Text.visible (", ".toList.intercalate parts) =
            Text.visible ([','].intercalate parts) := by
        rw [Text.visible_intercalate, Text.visible_intercalate]
        rfl
      have hopen (cs : List Char) : Text.visible ('<' :: cs) = '<' :: Text.visible cs := rfl
      simp only [genericName, List.isEmpty_cons, Bool.false_eq_true, if_false, String.toList_append,
        String.toList_intercalate, sourceText, Text.visible_append, hjoined, hopen, List.map_cons,
        List.append_assoc, List.cons_append]
      rfl

/-- The shown name of a declaration whose type parameters are plain refers to it. -/
theorem isReference_fullName {d : Declaration}
    (plain : ∀ p ∈ d.pathParams, Text.Avoids ['<', '>', ','] p.toList) (c : Catalog) :
    d.IsReference (Target.ofDeclaration c d).fullName := by
  refine ⟨d.segments.map fun s => sourceText s.1 s.2, ?_, ?_⟩
  · rw [List.forall₂_map_right_iff, List.forall₂_same]
    intro s member
    apply segmentText_sourceText
    intro p hp
    exact plain p (Declaration.mem_pathParams_of_segment member hp)
  · rw [Declaration.toList_fullName, Declaration.pathText, Declaration.pathText,
      Text.visible_intercalate, Text.visible_intercalate]
    simp only [List.map_append, List.map_map]
    congr 2
    apply List.map_congr_left
    intro s _
    exact visible_genericName s.1 s.2

/-- A reference to a declaration is read as its identity, however its arguments
are nested and wherever white space stands; in particular the shown name is, if
the type parameters can stand as arguments. -/
theorem ofReference_eq_id (d : Declaration)
    (plain : ∀ name ∈ d.pathNames, IsReferenceName name) :
    (∀ reference, d.IsReference reference → TypeId.ofReference reference = d.id) ∧
      ((∀ p ∈ d.pathParams, Text.Avoids ['<', '>', ','] p.toList) →
        ∀ c : Catalog, TypeId.ofReference (Target.ofDeclaration c d).fullName = d.id) := by
  constructor
  · intro reference h
    exact TypeId.ofReference_of_isReference plain h
  · intro hparams c
    exact TypeId.ofReference_of_isReference plain (isReference_fullName hparams c)

/-- A nested generic type, referred to with nested arguments, an argument that is
left out, and white space inside a name and in front of a dot. -/
theorem ofReference_eq_id_nested_arguments :
    let d : Declaration :=
      { name := "Entry", kind := .classType, inNamespace := some "Demo"
        enclosing := [⟨"Map", .classType, ["K", "V"]⟩], typeParams := ["T"]
        base := none, attributes := [], fields := [], constructors := [] }
    let reference := "De mo .Map<Pair<int, A.B<C>>,\t>.Entry<T >"
    ((∀ name ∈ d.pathNames, IsReferenceName name) ∧ d.IsReference reference ∧
      ∀ p ∈ d.pathParams, Text.Avoids ['<', '>', ','] p.toList) ∧
    TypeId.ofReference reference = d.id ∧
    TypeId.ofReference (Target.ofDeclaration .empty d).fullName = d.id ∧
    d.id = ⟨"Demo.Map\x602.Entry\x601"⟩ := by
  intro d reference
  have plain : ∀ name ∈ d.pathNames, IsReferenceName name := by decide +kernel
  have hpair : Bracketed [','] ("Pair".toList ++ ('<' :: ("int, A.B".toList ++
      ('<' :: "C".toList ++ ['>'])) ++ ['>'])) :=
    .plain_append (by decide)
      (.group (.plain_append (by decide) (.group (.of_plain (by decide)) .nil)) .nil)
  have hone : Bracketed [','] "T".toList := .of_plain (by decide)
  have hmap : SegmentText "Map" 2 _ :=
    .generic (List.forall_mem_cons.mpr ⟨hpair, List.forall_mem_singleton.mpr .nil⟩)
  have hentry : SegmentText "Entry" 1 _ := .generic (List.forall_mem_singleton.mpr hone)
  have href : d.IsReference reference := ⟨_, .cons hmap (.cons hentry .nil), by decide +kernel⟩
  have hparams : ∀ p ∈ d.pathParams, Text.Avoids ['<', '>', ','] p.toList := by decide +kernel
  obtain ⟨hread, hshown⟩ := ofReference_eq_id d plain
  exact ⟨⟨plain, href, hparams⟩, hread reference href, hshown hparams .empty, by decide +kernel⟩

end ConstructorSynthesis
