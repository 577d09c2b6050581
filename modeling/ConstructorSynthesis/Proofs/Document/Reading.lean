import ConstructorSynthesis.Proofs.Document.Tree

/-!
The reader declares what the tree of the document says. For each kind of frame
there is one statement: reading the tags of some content from that frame has the
result that the tree gives for the content, and goes on behind it in the same
frame, with the same frames around it. So an element consumes exactly its own
tags, and whatever is skipped cannot shift what comes later to another owner.
-/

namespace ConstructorSynthesis.Document.Reading

open Markup (Tag Event Stream Element)

section Step

variable (declared : List Declaration) (outer : List Frame) (rest : Stream)

theorem run_start (frame : Frame) (tag : Tag) :
    (inside declared frame outer).run (.next (.start tag) rest) =
      enter tag frame >>= fun (inner, around) =>
        (inside declared inner (around :: outer)).run rest := by
  simp only [run, step]
  cases enter tag frame <;> rfl

theorem run_empty {frame : Frame} {tag : Tag} (h : isEmptyNamespace tag frame = false) :
    (inside declared frame outer).run (.next (.empty tag) rest) =
      enter tag frame >>= fun (inner, around) =>
        (close declared inner (around :: outer)).run rest := by
  simp only [run, step, h]
  cases enter tag frame <;> rfl

theorem run_stop (frame : Frame) (name : String) :
    (inside declared frame outer).run (.next (.stop name) rest) =
      (close declared frame outer).run rest := rfl

theorem enter_namespace {tag : Tag} (hname : tag.name = "namespace") (ns : Option String) :
    enter tag (.scope ns) =
      required "namespace" "name" tag >>= fun name =>
        pure (.scope (some (qualify ns name)), .scope ns) := by
  simp [enter, hname]

/-- An empty `namespace` tag is passed over. -/
theorem run_empty_namespace {tag : Tag} (hname : tag.name = "namespace") (ns : Option String) :
    (inside declared (.scope ns) outer).run (.next (.empty tag) rest) =
      (inside declared (.scope ns) outer).run rest := by
  have hstep : (inside declared (.scope ns) outer).step (.empty tag) =
      .ok (inside declared (.scope ns) outer) := by
    simp [step, isEmptyNamespace, hname, pure, Except.pure]
  simp only [run, hstep]

/-- An element is read as its content and an end tag in the frame inside it,
also if it is written without content. -/
theorem run_element {frame : Frame} {α : Type} {e : Element} (read : Except Error α)
    (inner around : α → Frame)
    (henter : enter e.tag frame = read >>= fun a => pure (inner a, around a))
    (hcontent : isEmptyNamespace e.tag frame = false) :
    (inside declared frame outer).run (e.stream rest) =
      read >>= fun a => (inside declared (inner a) (around a :: outer)).run
        (Element.streamAll e.content (.next (.stop e.tag.name) rest)) := by
  cases e with
  | leaf tag =>
      simp only [Element.tag] at henter hcontent
      rw [Element.stream, run_empty _ _ _ hcontent, henter]
      simp only [bind_assoc, pure_bind]
      rfl
  | node tag content =>
      simp only [Element.tag] at henter
      rw [Element.stream, run_start, henter]
      simp only [bind_assoc, pure_bind]
      rfl

end Step

mutual
theorem run_ignored (e : Element) (declared : List Declaration) (outer : List Frame)
    (rest : Stream) :
    (inside declared .ignored outer).run (e.stream rest) =
      (inside declared .ignored outer).run rest := by
  cases e with
  | leaf tag => rfl
  | node tag content =>
      rw [Element.stream, run_start]
      exact run_ignored_all content declared (.ignored :: outer) (.next (.stop tag.name) rest)

theorem run_ignored_all (es : List Element) (declared : List Declaration) (outer : List Frame)
    (rest : Stream) :
    (inside declared .ignored outer).run (Element.streamAll es rest) =
      (inside declared .ignored outer).run rest := by
  cases es with
  | nil => rfl
  | cons e es => rw [Element.streamAll, run_ignored, run_ignored_all]
end

/-- An element of which only the tag counts: its content is passed over, and the
frame around it goes on with what the tag added. -/
theorem run_skipped {α : Type} {e : Element} {frame : Frame} (read : Except Error α)
    (around : α → Frame) (declared : List Declaration) (outer : List Frame) (rest : Stream)
    (henter : enter e.tag frame = read >>= fun a => pure (.ignored, around a))
    (hcontent : isEmptyNamespace e.tag frame = false) :
    (inside declared frame outer).run (e.stream rest) =
      read >>= fun a => (inside declared (around a) outer).run rest := by
  rw [run_element declared outer rest read (fun _ => .ignored) around henter hcontent]
  simp only [run_ignored_all, run_stop]
  rfl

theorem run_parameters (es : List Element) (c : Constructor) (declared : List Declaration)
    (outer : List Frame) (rest : Stream) :
    (inside declared (.constructor c) outer).run (Element.streamAll es rest) =
      parametersOf es >>= fun parameters =>
        (inside declared (.constructor { c with parameters := c.parameters ++ parameters })
          outer).run rest := by
  unfold parametersOf
  induction es generalizing c with
  | nil => simp [Element.streamAll]
  | cons e es ih =>
      rw [Element.streamAll]
      by_cases hname : e.tag.name = "parameter"
      · rw [List.filter_cons_of_pos (by simpa using hname), List.mapM_cons,
          run_skipped (readParameter e.tag)
            (fun p => .constructor { c with parameters := c.parameters ++ [p] })
            declared outer _ (by simp only [enter, hname]) rfl]
        simp only [bind_assoc, pure_bind, ih, List.append_assoc, List.singleton_append]
      · rw [List.filter_cons_of_neg (by simpa using hname),
          run_skipped (pure ()) (fun _ => .constructor c) declared outer _ (by simp [enter]) rfl,
          pure_bind, ih]

theorem run_constructor {e : Element} {frame : Frame} (declared : List Declaration)
    (outer : List Frame) (rest : Stream)
    (henter : enter e.tag frame = readConstructor e.tag >>= fun c => pure (.constructor c, frame))
    (hcontent : isEmptyNamespace e.tag frame = false) :
    (inside declared frame outer).run (e.stream rest) =
      constructorOf e >>= fun c => (close declared (.constructor c) (frame :: outer)).run rest := by
  rw [run_element declared outer rest (readConstructor e.tag) .constructor (fun _ => frame)
    henter hcontent]
  simp only [run_parameters, run_stop, constructorOf, bind_assoc, pure_bind]

/-- Complete types go to the type around them, or to the declarations. -/
def receive (declared complete : List Declaration) : Frame → List Declaration × Frame
  | .type d nested => (declared, .type d (nested ++ complete))
  | around => (declared ++ complete, around)

theorem close_type (declared : List Declaration) (d : Declaration) (nested : List Declaration)
    (around : Frame) (outer : List Frame) :
    close declared (.type d nested) (around :: outer) =
      inside (receive declared (d :: nested) around).1 (receive declared (d :: nested) around).2
        outer := by
  cases around <;> rfl

def addMember (d : Declaration) : Member → Declaration
  | .mark name => d.addAttribute name
  | .field f => d.addField f
  | .constructor c => d.addConstructor c
  | _ => d

@[simp]
theorem addMember_inNamespace (d : Declaration) (m : Member) :
    (addMember d m).inNamespace = d.inNamespace := by
  cases m <;> rfl

@[simp]
theorem addMember_inner (d : Declaration) (m : Member) : (addMember d m).inner = d.inner := by
  cases m <;> rfl

theorem addMembers_cons (d : Declaration) (m : Member) (ms : List Member) :
    addMembers d (m :: ms) = addMembers (addMember d m) ms := by
  cases m <;>
    simp [addMembers, addMember, Declaration.addAttribute, Declaration.addField,
      Declaration.addConstructor, Member.mark?, Member.field?, Member.constructor?,
      List.filterMap_cons]

theorem run_plainMember {e : Element} (hname : e.tag.name ≠ "type") (d : Declaration)
    (nested declared : List Declaration) (outer : List Frame) (rest : Stream) :
    (inside declared (.type d nested) outer).run (e.stream rest) =
      plainMember e >>= fun m =>
        (inside declared (.type (addMember d m) (nested ++ m.declared)) outer).run rest := by
  unfold plainMember
  split
  · next h =>
      rw [run_constructor declared outer rest (by simp [enter, h]) rfl]
      simp [close, leave, addMember, Member.declared]
  · next h =>
      rw [run_skipped (required "attribute" "name" e.tag)
        (fun name => .type (d.addAttribute name) nested) declared outer rest
        (by simp [enter, h]) rfl]
      simp [addMember, Member.declared]
  · next h =>
      rw [run_skipped (readField e.tag) (fun f => .type (d.addField f) nested) declared outer rest
        (by simp [enter, h]) rfl]
      simp [addMember, Member.declared]
  · next =>
      rw [run_skipped (pure ()) (fun _ => .type d nested) declared outer rest (by simp [enter]) rfl]
      simp [addMember, Member.declared]

/-- A type stands where its element stands. -/
theorem readType_place {inNamespace : Option String} {enclosing : List EnclosingType}
    {tag : Tag} {d : Declaration} (h : readType inNamespace enclosing tag = .ok d) :
    d.inNamespace = inNamespace ∧ d.enclosing = enclosing := by
  unfold readType at h
  cases hheader : tag.attributes.foldlM TypeHeader.read {} with
  | error e => simp [hheader, bind, Except.bind] at h
  | ok header =>
      cases hname : demand "type" "name" header.name with
      | error e => simp [hheader, hname, bind, Except.bind] at h
      | ok name =>
          simp only [hheader, hname, bind, Except.bind, pure, Except.pure, Except.ok.injEq] at h
          rw [← h]
          exact ⟨rfl, rfl⟩

-- The frame around a type element is left open, since types stand in namespaces and in other types.
mutual
theorem run_type (e : Element) {frame : Frame} (inNamespace : Option String)
    (enclosing : List EnclosingType) (declared : List Declaration) (outer : List Frame)
    (rest : Stream)
    (henter : enter e.tag frame =
      readType inNamespace enclosing e.tag >>= fun d => pure (.type d [], frame))
    (hcontent : isEmptyNamespace e.tag frame = false) :
    (inside declared frame outer).run (e.stream rest) =
      declaredByType inNamespace enclosing e >>= fun complete =>
        (inside (receive declared complete frame).1 (receive declared complete frame).2
          outer).run rest := by
  rw [run_element declared outer rest (readType inNamespace enclosing e.tag) (fun d => .type d [])
    (fun _ => frame) henter hcontent]
  cases e with
  | leaf tag =>
      rw [declaredByType]
      simp only [bind_assoc, pure_bind, Element.content, Element.streamAll, run_stop, close_type]
      rfl
  | node tag content =>
      rw [declaredByType]
      simp only [Element.tag, Element.content]
      cases hread : readType inNamespace enclosing tag with
      | error e => rfl
      | ok d =>
          obtain ⟨hns, henclosing⟩ := readType_place hread
          change (inside declared (.type d []) (frame :: outer)).run _ =
            (membersOf inNamespace (enclosing ++ [⟨d.name, d.kind, d.typeParams⟩]) content >>= _) >>= _
          rw [run_members content, Declaration.inner, hns, henclosing]
          simp only [bind_assoc, pure_bind, run_stop, close_type, List.nil_append]

theorem run_members (es : List Element) (d : Declaration) (nested declared : List Declaration)
    (outer : List Frame) (rest : Stream) :
    (inside declared (.type d nested) outer).run (Element.streamAll es rest) =
      membersOf d.inNamespace d.inner es >>= fun ms =>
        (inside declared (.type (addMembers d ms) (nested ++ ms.flatMap Member.declared))
          outer).run rest := by
  cases es with
  | nil => simp [Element.streamAll, membersOf, addMembers]
  | cons e es =>
      rw [Element.streamAll, membersOf, memberOf]
      by_cases hname : e.tag.name = "type"
      · rw [if_pos hname, run_type e d.inNamespace d.inner declared outer _
          (by simp [enter, hname]) rfl]
        simp [receive, run_members es, addMembers_cons, addMember, Member.declared]
      · rw [if_neg hname, run_plainMember hname]
        simp [run_members es, addMembers_cons]
end

mutual
theorem run_child (e : Element) (inNamespace : Option String) (declared : List Declaration)
    (outer : List Frame) (rest : Stream) :
    (inside declared (.scope inNamespace) outer).run (e.stream rest) =
      declaredByChild inNamespace e >>= fun complete =>
        (inside (declared ++ complete) (.scope inNamespace) outer).run rest := by
  by_cases htype : e.tag.name = "type"
  · have hchild : declaredByChild inNamespace e = declaredByType inNamespace [] e := by
      cases e <;> simp_all [declaredByChild, Element.tag]
    rw [hchild, run_type e inNamespace [] declared outer rest (by simp [enter, htype])
      (by simp [isEmptyNamespace, htype])]
    rfl
  by_cases hns : e.tag.name = "namespace"
  · cases e with
    | leaf tag =>
        simp only [Element.tag] at hns
        rw [Element.stream, run_empty_namespace _ _ _ hns]
        simp [declaredByChild, hns]
    | node tag content =>
        simp only [Element.tag] at hns
        rw [Element.stream, run_start, enter_namespace hns]
        simp only [bind_assoc, pure_bind, run_scope content, run_stop, declaredByChild, hns]
        cases inNamespace <;> rfl
  · have hchild : declaredByChild inNamespace e = pure [] := by
      cases e <;> simp_all [declaredByChild, Element.tag]
    rw [hchild, run_skipped (pure ()) (fun _ => .scope inNamespace) declared outer rest
      (by simp [enter]) (by simp [isEmptyNamespace, hns])]
    simp

theorem run_scope (es : List Element) (inNamespace : Option String) (declared : List Declaration)
    (outer : List Frame) (rest : Stream) :
    (inside declared (.scope inNamespace) outer).run (Element.streamAll es rest) =
      declaredInScope inNamespace es >>= fun complete =>
        (inside (declared ++ complete) (.scope inNamespace) outer).run rest := by
  cases es with
  | nil => simp [Element.streamAll, declaredInScope]
  | cons e es =>
      rw [Element.streamAll, declaredInScope, run_child e]
      simp [run_scope es]
end

/-- A sequence that ends with the document, so that nothing behind the
declarations can take them back. -/
def Unbroken (rest : Stream) : Prop := ∀ declared, (behind declared).run rest = .ok declared

theorem unbroken_next {rest : Stream} (h : Unbroken rest) (event : Event) :
    Unbroken (.next event rest) := fun declared => h declared

mutual
theorem unbroken_stream (e : Element) {rest : Stream} (h : Unbroken rest) :
    Unbroken (e.stream rest) := by
  cases e with
  | leaf tag => exact unbroken_next h _
  | node tag content => exact unbroken_next (unbroken_streamAll content (unbroken_next h _)) _

theorem unbroken_streamAll (es : List Element) {rest : Stream} (h : Unbroken rest) :
    Unbroken (Element.streamAll es rest) := by
  cases es with
  | nil => exact h
  | cons e es => exact unbroken_stream e (unbroken_streamAll es h)
end

/-- What the first `declarations` element among some elements declares. -/
def declaredAmong (es : List Element) (otherwise : Except Error (List Declaration)) :
    Except Error (List Declaration) :=
  match es.find? isRoot with
  | none => otherwise
  | some root => declaredInScope none root.content

theorem declaredAmong_append (first second : List Element)
    (otherwise : Except Error (List Declaration)) :
    declaredAmong (first ++ second) otherwise =
      declaredAmong first (declaredAmong second otherwise) := by
  unfold declaredAmong
  rw [List.find?_append]
  cases first.find? isRoot <;> rfl

theorem declaredAmong_cons_of_root {e : Element} (h : isRoot e = true) (es : List Element)
    (otherwise : Except Error (List Declaration)) :
    declaredAmong (e :: es) otherwise = declaredInScope none e.content := by
  rw [declaredAmong, List.find?_cons_of_pos h]

theorem declaredAmong_cons_of_not_root {e : Element} (h : isRoot e = false) (es : List Element)
    (otherwise : Except Error (List Declaration)) :
    declaredAmong (e :: es) otherwise = declaredAmong es otherwise := by
  rw [declaredAmong, List.find?_cons_of_neg (by simp [h]), declaredAmong]

theorem step_before_start (tag : Tag) :
    before.step (.start tag) =
      .ok (if tag.name = rootName then inside [] (.scope none) [] else before) := rfl

theorem step_before_empty (tag : Tag) :
    before.step (.empty tag) = .ok (if tag.name = rootName then behind [] else before) := rfl

mutual
theorem run_before (e : Element) {rest : Stream} (hrest : Unbroken rest) :
    before.run (e.stream rest) = declaredAmong e.inOrder (before.run rest) := by
  by_cases hroot : e.tag.name = rootName
  · have hfound : isRoot e = true := decide_eq_true hroot
    cases e with
    | leaf tag =>
        simp only [Element.tag] at hroot
        rw [Element.inOrder, declaredAmong_cons_of_root hfound]
        simp only [Element.stream, run, step_before_empty, if_pos hroot, Element.content,
          declaredInScope]
        exact hrest []
    | node tag content =>
        simp only [Element.tag] at hroot
        rw [Element.inOrder, declaredAmong_cons_of_root hfound]
        simp only [Element.stream, run, step_before_start, if_pos hroot, Element.content]
        rw [run_scope content]
        simp only [run_stop, close, List.nil_append, hrest _]
        cases declaredInScope none content <;> rfl
  · have hother : isRoot e = false := decide_eq_false hroot
    cases e with
    | leaf tag =>
        simp only [Element.tag] at hroot
        rw [Element.inOrder, declaredAmong_cons_of_not_root hother]
        simp only [Element.stream, run, step_before_empty, if_neg hroot]
        rfl
    | node tag content =>
        simp only [Element.tag] at hroot
        rw [Element.inOrder, declaredAmong_cons_of_not_root hother]
        simp only [Element.stream, run, step_before_start, if_neg hroot]
        exact run_before_all content (unbroken_next hrest (.stop tag.name))

theorem run_before_all (es : List Element) {rest : Stream} (hrest : Unbroken rest) :
    before.run (Element.streamAll es rest) =
      declaredAmong (Element.inOrderAll es) (before.run rest) := by
  cases es with
  | nil => rfl
  | cons e es =>
      rw [Element.streamAll, Element.inOrderAll, declaredAmong_append,
        run_before e (unbroken_streamAll es hrest), run_before_all es hrest]
end

end ConstructorSynthesis.Document.Reading

namespace ConstructorSynthesis.Document

open Markup (Tag Stream Element)

theorem declarationsOf_eq {text : String} {doc : List Element}
    (delivered : Stream.ofText text = Element.streamAll doc .done) :
    declarationsOf text = Reading.declaredAmong (Element.inOrderAll doc) Reading.before.finish := by
  rw [declarationsOf, delivered]
  exact Reading.run_before_all doc fun _ => rfl

/-- A well-formed document is a tree of elements and declares what the tree says.
Without a `declarations` element at any depth it is refused; otherwise the first
of them in document order decides alone. -/
theorem parse_reads_tree {text : String} (wellFormed : (Stream.ofText text).Closes []) :
    (∃ doc, Stream.ofText text = Element.streamAll doc .done) ∧
    ∀ doc, Stream.ofText text = Element.streamAll doc .done →
      ((∀ e ∈ Element.inOrderAll doc, e.tag.name ≠ "declarations") →
        parse text = .error (.badStructure "No declarations element found")) ∧
      ∀ root, root? doc = some root →
        (parse text).map Catalog.toList = declaredInScope none root.content := by
  refine ⟨(Element.closes_iff_exists_document _).mp wellFormed, fun doc delivered => ?_⟩
  refine ⟨fun hnone => ?_, fun root hroot => ?_⟩
  · have habsent : (Element.inOrderAll doc).find? isRoot = none :=
      List.find?_eq_none.mpr fun e he hroot => hnone e he (of_decide_eq_true hroot)
    rw [parse, declarationsOf_eq delivered, Reading.declaredAmong, habsent]
    rfl
  · rw [root?] at hroot
    have hread : declarationsOf text = declaredInScope none root.content := by
      rw [declarationsOf_eq delivered, Reading.declaredAmong, hroot]
    rw [parse, hread]
    cases declaredInScope none root.content with
    | error e => rfl
    | ok ds => simp [Except.map]

/-- Types in namespaces and types inside each other. The unknown elements `y` and `z`
hide a type and a field that could not be read. -/
def tagsWithUnknown : List Char :=
  ["<x><declarations>", "<y><type/></y>", "<namespace name='N'>", "<namespace name='M'>",
    "<type name='A'>", "<z><field/></z>", "<field name='f' type='T'/>",
    "<type name='B' kind='struct' typeParams='U'>", "<type name='C'/>", "</type></type>",
    "</namespace>", "<type name='D'/>", "</namespace>", "</declarations></x>"].flatMap String.toList

def tagOf (name : String) (attributes : List (String × String)) : Tag :=
  ⟨name, attributes.map fun (key, value) => .ok ⟨key, value⟩⟩

def rootWithUnknown : Element :=
  .node (tagOf "declarations" [])
    [.node (tagOf "y" []) [.leaf (tagOf "type" [])],
      .node (tagOf "namespace" [("name", "N")])
        [.node (tagOf "namespace" [("name", "M")])
          [.node (tagOf "type" [("name", "A")])
            [.node (tagOf "z" []) [.leaf (tagOf "field" [])],
              .leaf (tagOf "field" [("name", "f"), ("type", "T")]),
              .node (tagOf "type" [("name", "B"), ("kind", "struct"), ("typeParams", "U")])
                [.leaf (tagOf "type" [("name", "C")])]]],
          .leaf (tagOf "type" [("name", "D")])]]

theorem parse_reads_tree_with_unknown :
    (parse (String.ofList tagsWithUnknown)).map Catalog.toList =
      .ok
        [⟨"A", .classType, some "N.M", [], [], none, [],
            [⟨"f", "T", false, false, false, false⟩], []⟩,
          ⟨"B", .structType, some "N.M", [⟨"A", .classType, []⟩], ["U"], none, [], [], []⟩,
          ⟨"C", .classType, some "N.M", [⟨"A", .classType, []⟩, ⟨"B", .structType, ["U"]⟩], [],
            none, [], [], []⟩,
          ⟨"D", .classType, some "N", [], [], none, [], [], []⟩] := by
  have delivered : Stream.ofText (String.ofList tagsWithUnknown) =
      Element.streamAll [.node (tagOf "x" []) [rootWithUnknown]] .done := by
    rw [Stream.ofText, String.toList_ofList]
    decide +kernel
  have wellFormed := (Element.closes_iff_exists_document _).mpr ⟨_, delivered⟩
  refine (((parse_reads_tree wellFormed).2 _ delivered).2 rootWithUnknown ?_).trans ?_
  · rfl
  · decide +kernel

end ConstructorSynthesis.Document
