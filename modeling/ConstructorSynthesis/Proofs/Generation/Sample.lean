import ConstructorSynthesis.Generation.Sample
import ConstructorSynthesis.Proofs.Document.Printing

/-!
The document of the sample types declares the sample types. Its text prints a tree
with one namespace, one element for each type in it, and one element for each field
in that; every type and every field is read back for itself.
-/

namespace ConstructorSynthesis.Sample

open Markup (Element Printed IsPrintable IsPlainValue tagText attributeText printed_text)
open Document (tagOf)

def fieldAttributes (index : Nat) : List (String × String) :=
  [("name", "_f" ++ Nat.repr index), ("type", "int"), ("readonly", "true")]

def fieldElement (index : Nat) : Element := .leaf (tagOf "field" (fieldAttributes index))

def typeAttributes (index : Nat) : List (String × String) :=
  [("name", flatName index), ("kind", "class")]

/-- The content of each type. -/
def typeContent (fields : Nat) : List Element :=
  .leaf (tagOf "attribute" [("name", "AutoConstruct")]) :: (List.range fields).map fieldElement

def typeElement (fields index : Nat) : Element :=
  .node (tagOf "type" (typeAttributes index)) (typeContent fields)

def rootElement (count fields : Nat) : Element :=
  .node (tagOf "declarations" [])
    [.node (tagOf "namespace" [("name", "Bench")]) ((List.range count).map (typeElement fields))]

section Printing

theorem isPlainValue_numbered {front : String} (plain : IsPlainValue front) (index : Nat) :
    IsPlainValue (front ++ Nat.repr index) := by
  intro c member
  rw [String.toList_append, List.mem_append, Nat.toList_repr] at member
  rcases member with early | digit
  · exact plain c early
  · have hdigit := Nat.isDigit_of_mem_toDigits (by decide) (by decide) digit
    intro banned
    simp only [List.mem_cons, List.not_mem_nil, or_false] at banned
    rcases banned with rfl | rfl
    · cases hdigit
    · cases hdigit

theorem isPrintable_field (index : Nat) : IsPrintable "field" (fieldAttributes index) := by
  have hunnamed : IsPrintable "field" [("name", ""), ("type", "int"), ("readonly", "true")] := by
    decide +kernel
  exact hunnamed.replace_first (isPlainValue_numbered (by decide) index)

theorem isPrintable_type (index : Nat) : IsPrintable "type" (typeAttributes index) := by
  have hunnamed : IsPrintable "type" [("name", ""), ("kind", "class")] := by decide +kernel
  exact hunnamed.replace_first (isPlainValue_numbered (by decide) index)

theorem printed_fieldText (index : Nat) : Printed [fieldElement index] (fieldText index).toList := by
  have htext : (fieldText index).toList = "      ".toList ++
      '<' :: (tagText "field" (fieldAttributes index) ++ '/' :: '>' :: "\n".toList) := by
    unfold fieldText fieldAttributes
    generalize Nat.repr index = digits
    simp [tagText, attributeText]
  rw [htext]
  exact (Printed.leaf (isPrintable_field index) (printed_text (by decide))).behind_text (by decide)

/-- The lines between the two tags of a type. -/
def innerText (fields : Nat) : List Char :=
  "\n      ".toList ++ '<' :: (tagText "attribute" [("name", "AutoConstruct")] ++
    '/' :: '>' :: ("\n".toList ++
      ((List.range fields).flatMap (fun i => (fieldText i).toList) ++ "    ".toList)))

theorem printed_innerText (fields : Nat) : Printed (typeContent fields) (innerText fields) := by
  have hfields : Printed ((List.range fields).map fieldElement)
      ((List.range fields).flatMap fun i => (fieldText i).toList) :=
    Markup.printed_flatMap fun i _ => printed_fieldText i
  have hmark : IsPrintable "attribute" [("name", "AutoConstruct")] := by decide +kernel
  exact (Printed.leaf hmark ((hfields.before_text (by decide)).behind_text (by decide))).behind_text
    (by decide)

theorem printed_typeText (fields index : Nat) :
    Printed [typeElement fields index] (typeText fields index).toList := by
  have htext : (typeText fields index).toList = "    ".toList ++
      '<' :: (tagText "type" (typeAttributes index) ++ '>' :: (innerText fields ++
        '<' :: '/' :: ("type".toList ++ '>' :: "\n".toList))) := by
    unfold typeText typeAttributes innerText
    generalize flatName index = name
    simp [tagText, attributeText, List.flatMap_map]
  rw [htext]
  exact (Printed.node (isPrintable_type index) (printed_innerText fields)
    (printed_text (by decide))).behind_text (by decide)

theorem printed_flatDocument (count fields : Nat) :
    Printed [rootElement count fields] (flatDocument count fields).toList := by
  have htypes : Printed ((List.range count).map (typeElement fields))
      ((List.range count).flatMap fun i => (typeText fields i).toList) :=
    Markup.printed_flatMap fun i _ => printed_typeText fields i
  have htext : (flatDocument count fields).toList =
      '<' :: (tagText "declarations" [] ++ '>' :: (("\n  ".toList ++
        '<' :: (tagText "namespace" [("name", "Bench")] ++ '>' :: (("\n".toList ++
          ((List.range count).flatMap (fun i => (typeText fields i).toList) ++ "  ".toList)) ++
            '<' :: '/' :: ("namespace".toList ++ '>' :: "\n".toList)))) ++
        '<' :: '/' :: ("declarations".toList ++ '>' :: "\n".toList))) := by
    have hlines : (String.join ((List.range count).map (typeText fields))).toList =
        (List.range count).flatMap fun i => (typeText fields i).toList := by
      rw [String.toList_join, List.flatMap_map]
    unfold flatDocument
    generalize String.join ((List.range count).map (typeText fields)) = lines at hlines
    rw [← hlines]
    simp [tagText, attributeText]
  have hnamespace : IsPrintable "namespace" [("name", "Bench")] := by decide +kernel
  have hroot : IsPrintable "declarations" [] := by decide +kernel
  rw [htext]
  refine .node hroot (Printed.behind_text ?_ (by decide)) (printed_text (by decide))
  exact .node hnamespace ((htypes.before_text (by decide)).behind_text (by decide))
    (printed_text (by decide))

end Printing

section Reading

open Document

theorem readField_named {name : String} (plain : IsPlainValue name) :
    readField (tagOf "field" [("name", name), ("type", "int"), ("readonly", "true")]) =
      .ok ⟨name, "int", true, false, false, false⟩ := by
  have htype : IsPlainValue "int" := by decide
  have hflag : IsPlainValue "true" := by decide
  rw [readField, attributes_tagOf]
  simp only [List.map_cons, List.map_nil, List.foldlM_cons, List.foldlM_nil, FieldHeader.read,
    valueOf_plain plain, valueOf_plain htype, valueOf_plain hflag]
  rfl

theorem readType_named {name : String} (plain : IsPlainValue name) (inNamespace : Option String) :
    readType inNamespace [] (tagOf "type" [("name", name), ("kind", "class")]) =
      .ok ⟨name, .classType, inNamespace, [], [], none, [], [], []⟩ := by
  have hkind : IsPlainValue "class" := by decide
  rw [readType, attributes_tagOf]
  simp only [List.map_cons, List.map_nil, List.foldlM_cons, List.foldlM_nil, TypeHeader.read,
    valueOf_plain plain, valueOf_plain hkind]
  rfl

theorem memberOf_field (declared : Except Error (List Declaration)) (index : Nat) :
    memberOf declared (fieldElement index) = .ok (.field (sampleField index)) := by
  have hfield : readField (tagOf "field" (fieldAttributes index)) = .ok (sampleField index) :=
    readField_named (isPlainValue_numbered (by decide) index)
  change (do return Member.field (← readField (tagOf "field" (fieldAttributes index)))) = _
  rw [hfield]
  rfl

theorem membersOf_fields (inNamespace : Option String) (enclosing : List EnclosingType)
    (indices : List Nat) :
    membersOf inNamespace enclosing (indices.map fieldElement) =
      .ok (indices.map fun i => .field (sampleField i)) := by
  induction indices with
  | nil => rfl
  | cons i indices ih =>
      rw [List.map_cons, membersOf, memberOf_field, ih]
      rfl

/-- A tag whose only attribute is the name. -/
theorem required_name {value : String} (plain : IsPlainValue value) (element : String) :
    required element "name" (tagOf element [("name", value)]) = .ok value := by
  rw [required, attributes_tagOf]
  exact valueOf_plain plain

theorem membersOf_typeContent (inNamespace : Option String) (enclosing : List EnclosingType)
    (fields : Nat) :
    membersOf inNamespace enclosing (typeContent fields) =
      .ok (.mark "AutoConstruct" :: (List.range fields).map fun i => .field (sampleField i)) := by
  have hname : required "attribute" "name" (tagOf "attribute" [("name", "AutoConstruct")]) =
      .ok "AutoConstruct" :=
    required_name (by decide) "attribute"
  have hmark (declared : Except Error (List Declaration)) :
      memberOf declared (.leaf (tagOf "attribute" [("name", "AutoConstruct")])) =
        .ok (.mark "AutoConstruct") := by
    change (do return Member.mark (← required "attribute" "name"
      (tagOf "attribute" [("name", "AutoConstruct")]))) = _
    rw [hname]
    rfl
  rw [typeContent, membersOf, hmark, membersOf_fields]
  rfl

theorem declaredByType_typeElement (fields index : Nat) :
    declaredByType (some "Bench") [] (typeElement fields index) =
      .ok [sampleType (flatName index) none fields] := by
  have htype : readType (some "Bench") [] (tagOf "type" (typeAttributes index)) =
      .ok ⟨flatName index, .classType, some "Bench", [], [], none, [], [], []⟩ :=
    readType_named (isPlainValue_numbered (by decide) index) (some "Bench")
  have hfields : (.mark "AutoConstruct" :: (List.range fields).map fun i =>
      Member.field (sampleField i)).filterMap Member.field? =
        (List.range fields).map sampleField := by
    rw [List.filterMap_cons_none rfl, List.filterMap_map]
    exact congrFun List.filterMap_eq_map (List.range fields)
  rw [typeElement, declaredByType, htype]
  change (membersOf (some "Bench") _ (typeContent fields) >>= _) = _
  rw [membersOf_typeContent]
  change Except.ok (_ :: _) = _
  generalize flatName index = name
  simp [addMembers, sampleType, Member.mark?, Member.constructor?, Member.declared, hfields]

theorem declaredInScope_types (fields : Nat) (indices : List Nat) :
    declaredInScope (some "Bench") (indices.map (typeElement fields)) =
      .ok (indices.map fun i => sampleType (flatName i) none fields) := by
  induction indices with
  | nil => rfl
  | cons i indices ih =>
      have hchild : declaredByChild (some "Bench") (typeElement fields i) =
          declaredByType (some "Bench") [] (typeElement fields i) := by
        rw [typeElement, declaredByChild]
        rfl
      rw [List.map_cons, declaredInScope, hchild, declaredByType_typeElement, ih]
      rfl

theorem declaredByChild_namespace (content : List Element) :
    declaredByChild none (.node (tagOf "namespace" [("name", "Bench")]) content) =
      declaredInScope (some "Bench") content := by
  have hname : required "namespace" "name" (tagOf "namespace" [("name", "Bench")]) = .ok "Bench" :=
    required_name (by decide) "namespace"
  rw [declaredByChild]
  change (required "namespace" "name" (tagOf "namespace" [("name", "Bench")]) >>= _) = _
  rw [hname]
  rfl

theorem declaredInScope_root (count fields : Nat) :
    declaredInScope none (rootElement count fields).content =
      .ok ((List.range count).map fun i => sampleType (flatName i) none fields) := by
  rw [rootElement, Markup.Element.content, declaredInScope, declaredByChild_namespace,
    declaredInScope_types]
  exact congrArg Except.ok (List.append_nil _)

end Reading

open Document in
/-- Reading the document of any size gives the catalog of that size. -/
theorem parse_flatDocument (count fields : Nat) :
    parse (flatDocument count fields) = .ok (flatCatalog count fields) := by
  have hopens : (flatDocument count fields).toList.head? = some '<' := by
    unfold flatDocument
    rw [String.toList_append, String.toList_append]
    rfl
  have htree := (printed_flatDocument count fields).ofText_eq hopens
  have horder : Element.inOrderAll [rootElement count fields] =
      rootElement count fields :: (Element.inOrderAll (rootElement count fields).content ++ []) :=
    rfl
  have hroot : Document.isRoot (rootElement count fields) = true := rfl
  rw [parse, declarationsOf_eq htree, horder, Reading.declaredAmong_cons_of_root hroot,
    declaredInScope_root]
  rfl

end ConstructorSynthesis.Sample
