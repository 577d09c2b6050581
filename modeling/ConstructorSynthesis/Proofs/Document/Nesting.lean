import ConstructorSynthesis.Proofs.Document.Completion

/-!
Where nested types stand among the declarations of a document. A type is followed
by everything that is declared inside it, at any depth, before the next type of
its own surroundings. So the list falls into groups, each with the type that the
others are declared in at its front, and the groups are nested as the types are.
This holds for every document that is accepted, whether its elements are closed
or not: what is still open at the end is read as if it were closed there.
-/

namespace ConstructorSynthesis.Document

open Markup (Tag Stream Element)

/-- A list of groups that stand inside the chain `outer`. A group is a type with
the groups of what is declared inside it, in the namespace of the type. -/
inductive Grouped : List EnclosingType → List Declaration → Prop where
  | nil {outer : List EnclosingType} : Grouped outer []
  | group {outer : List EnclosingType} {d : Declaration} {nested others : List Declaration}
      (place : d.enclosing = outer) (inside : Grouped d.inner nested)
      (shared : ∀ n ∈ nested, n.inNamespace = d.inNamespace) (behind : Grouped outer others) :
      Grouped outer (d :: (nested ++ others))

/-- Among the declarations before `d` is the type around it, and from there on
everything is declared inside that type. -/
def ParentBefore (before : List Declaration) (d : Declaration) : Prop :=
  ∃ front parent between, before = front ++ parent :: between ∧
    parent.inNamespace = d.inNamespace ∧ parent.inner = d.enclosing ∧
    ∀ b ∈ between, d.enclosing <+: b.enclosing

theorem ParentBefore.append_left {before : List Declaration} {d : Declaration}
    (h : ParentBefore before d) (earlier : List Declaration) :
    ParentBefore (earlier ++ before) d := by
  obtain ⟨front, parent, between, rfl, hparent⟩ := h
  exact ⟨earlier ++ front, parent, between, by simp, hparent⟩

namespace Grouped

variable {outer : List EnclosingType} {ds es : List Declaration}

theorem append (hds : Grouped outer ds) (hes : Grouped outer es) : Grouped outer (ds ++ es) := by
  induction hds with
  | nil => exact hes
  | group place inside shared _ _ ih =>
      rw [List.cons_append, List.append_assoc]
      exact group place inside shared (ih hes)

theorem prefix_of_mem (h : Grouped outer ds) {d : Declaration} (member : d ∈ ds) :
    outer <+: d.enclosing := by
  induction h with
  | nil => cases member
  | @group outer first nested others place _ _ _ ihInside ihBehind =>
      rcases List.mem_cons.mp member with rfl | later
      · exact place ▸ List.prefix_refl _
      · rcases List.mem_append.mp later with deep | next
        · rw [← place]
          exact (List.prefix_append _ _).trans (ihInside deep)
        · exact ihBehind next

/-- Every declaration of some groups leads one of them or has its parent before it. -/
theorem parentBefore (h : Grouped outer ds) {before behind : List Declaration} {d : Declaration}
    (stands : ds = before ++ d :: behind) : d.enclosing = outer ∨ ParentBefore before d := by
  induction h generalizing before behind with
  | nil => simp at stands
  | @group outer first nested others place inside shared _ ihInside ihBehind =>
      cases before with
      | nil =>
          obtain ⟨rfl, -⟩ := List.cons.inj stands
          exact Or.inl place
      | cons b before =>
          obtain ⟨rfl, hsplit⟩ := List.cons.inj stands
          have among (earlier : List Declaration) (hothers : others = earlier ++ d :: behind) :
              d.enclosing = outer ∨ ParentBefore (first :: (nested ++ earlier)) d := by
            rcases ihBehind hothers with leads | found
            · exact Or.inl leads
            · exact Or.inr (found.append_left (first :: nested))
          rcases List.append_eq_append_iff.mp hsplit with ⟨rest, rfl, hothers⟩ | ⟨rest, hnested, hd⟩
          · exact among rest hothers
          · cases rest with
            | nil =>
                rw [List.append_nil] at hnested
                simpa [hnested] using among [] hd.symm
            | cons r rest =>
                obtain ⟨rfl, -⟩ := List.cons.inj hd
                right
                rcases ihInside hnested with leads | found
                · have hd : d ∈ nested := by simp [hnested]
                  refine ⟨[], first, before, rfl, (shared d hd).symm, leads.symm, ?_⟩
                  intro b member
                  rw [leads]
                  exact inside.prefix_of_mem (by simp [hnested, member])
                · exact found.append_left [first]

end Grouped

/-- What is no type declares no types, whatever stands inside it. -/
theorem declared_of_plainMember {e : Element} {m : Member} (h : plainMember e = .ok m) :
    m.declared = [] := by
  unfold plainMember at h
  split at h
  · obtain ⟨c, -, hm⟩ := exists_of_bind_eq_ok h
    cases hm
    rfl
  · obtain ⟨name, -, hm⟩ := exists_of_bind_eq_ok h
    cases hm
    rfl
  · obtain ⟨f, -, hm⟩ := exists_of_bind_eq_ok h
    cases hm
    rfl
  · cases h
    rfl

mutual
/-- A type element declares one group, with the type at its front. -/
theorem grouped_declaredByType {inNamespace : Option String} {enclosing : List EnclosingType}
    {e : Element} {ds : List Declaration} (h : declaredByType inNamespace enclosing e = .ok ds) :
    Grouped enclosing ds ∧ ∀ d ∈ ds, d.inNamespace = inNamespace := by
  cases e with
  | leaf tag =>
      rw [declaredByType] at h
      obtain ⟨d, hread, hds⟩ := exists_of_bind_eq_ok h
      obtain ⟨hns, hplace⟩ := Reading.readType_place hread
      cases hds
      exact ⟨.group hplace .nil (by simp) .nil, by simpa using hns⟩
  | node tag content =>
      rw [declaredByType] at h
      obtain ⟨d, hread, hcontent⟩ := exists_of_bind_eq_ok h
      obtain ⟨members, hmembers, hds⟩ := exists_of_bind_eq_ok hcontent
      obtain ⟨hns, hplace⟩ := Reading.readType_place hread
      obtain ⟨hnested, hshared⟩ := grouped_membersOf hmembers
      cases hds
      have hsame : ∀ n ∈ members.flatMap Member.declared,
          n.inNamespace = (addMembers d members).inNamespace :=
        fun n member => (hshared n member).trans hns.symm
      rw [← hplace] at hnested
      have hgroup := Grouped.group (d := addMembers d members) hplace hnested hsame .nil
      rw [List.append_nil] at hgroup
      refine ⟨hgroup, ?_⟩
      intro n member
      rcases List.mem_cons.mp member with rfl | deep
      · exact hns
      · exact hshared n deep

theorem grouped_membersOf {inNamespace : Option String} {enclosing : List EnclosingType}
    {es : List Element} {ms : List Member} (h : membersOf inNamespace enclosing es = .ok ms) :
    Grouped enclosing (ms.flatMap Member.declared) ∧
      ∀ d ∈ ms.flatMap Member.declared, d.inNamespace = inNamespace := by
  cases es with
  | nil =>
      rw [membersOf] at h
      cases h
      exact ⟨.nil, by simp⟩
  | cons e es =>
      rw [membersOf, memberOf] at h
      obtain ⟨m, hfirst, hothers⟩ := exists_of_bind_eq_ok h
      obtain ⟨ms, hrest, hms⟩ := exists_of_bind_eq_ok hothers
      obtain ⟨hgrouped, hshared⟩ := grouped_membersOf hrest
      cases hms
      rw [List.flatMap_cons]
      by_cases htype : e.tag.name = "type"
      · rw [if_pos htype] at hfirst
        obtain ⟨ds, hds, rfl⟩ := exists_of_map_eq_ok hfirst
        obtain ⟨hgroup, hns⟩ := grouped_declaredByType hds
        refine ⟨hgroup.append hgrouped, ?_⟩
        intro d member
        rcases List.mem_append.mp member with own | later
        · exact hns d own
        · exact hshared d later
      · rw [if_neg htype] at hfirst
        rw [declared_of_plainMember hfirst, List.nil_append]
        exact ⟨hgrouped, hshared⟩
end

mutual
theorem grouped_declaredByChild {inNamespace : Option String} {e : Element}
    {ds : List Declaration} (h : declaredByChild inNamespace e = .ok ds) : Grouped [] ds := by
  cases e with
  | leaf tag =>
      rw [declaredByChild] at h
      split at h
      · exact (grouped_declaredByType h).1
      · cases h
        exact .nil
  | node tag content =>
      rw [declaredByChild] at h
      split at h
      · obtain ⟨name, -, hcontent⟩ := exists_of_bind_eq_ok h
        cases inNamespace with
        | none => exact grouped_declaredInScope hcontent
        | some outer => exact grouped_declaredInScope hcontent
      · exact (grouped_declaredByType h).1
      · cases h
        exact .nil

/-- Namespaces put groups one after the other and do not take them apart. -/
theorem grouped_declaredInScope {inNamespace : Option String} {es : List Element}
    {ds : List Declaration} (h : declaredInScope inNamespace es = .ok ds) : Grouped [] ds := by
  cases es with
  | nil =>
      rw [declaredInScope] at h
      cases h
      exact .nil
  | cons e es =>
      rw [declaredInScope] at h
      obtain ⟨first, hfirst, hothers⟩ := exists_of_bind_eq_ok h
      obtain ⟨rest, hrest, hds⟩ := exists_of_bind_eq_ok hothers
      cases hds
      exact (grouped_declaredByChild hfirst).append (grouped_declaredInScope hrest)
end

/-- Whatever a text declares is what the tree of its completion declares. -/
theorem grouped_declarationsOf {text : String} {ds : List Declaration}
    (h : declarationsOf text = .ok ds) : Grouped [] ds := by
  have whole : (Stream.ofText text).fault? = none := Reading.fault?_eq_none_of_run h
  obtain ⟨doc, hdoc⟩ :=
    (Element.closes_iff_exists_document _).mp (Stream.closes_completed_ofText whole)
  rw [declarationsOf, ← Reading.run_completed, hdoc,
    Reading.run_before_all doc fun _ => rfl] at h
  unfold Reading.declaredAmong at h
  split at h
  · cases h
  · exact grouped_declaredInScope h

/-- In the declarations of any accepted text, a type that is declared inside the
chain `outer` and, innermost, `last` has a declaration of `last` before it, in the
same namespace and inside `outer`, and all that stands between the two is declared
inside `last` as well. -/
theorem parse_groups_nested {text : String} {c : Catalog} (accepted : parse text = .ok c)
    {before behind : List Declaration} {d : Declaration}
    (stands : c.toList = before ++ d :: behind) {outer : List EnclosingType} {last : EnclosingType}
    (nested : d.enclosing = outer ++ [last]) :
    ∃ front parent between, before = front ++ parent :: between ∧
      parent.inNamespace = d.inNamespace ∧ parent.enclosing = outer ∧
      (parent.name = last.name ∧ parent.kind = last.kind ∧ parent.typeParams = last.typeParams) ∧
      ∀ b ∈ between, outer ++ [last] <+: b.enclosing := by
  have hread : declarationsOf text = .ok c.toList := by
    rw [← map_toList_parse, accepted]
    rfl
  rcases (grouped_declarationsOf hread).parentBefore stands with leads | found
  · rw [nested] at leads
    simp at leads
  · obtain ⟨front, parent, between, hbefore, hns, hparent, hbetween⟩ := found
    rw [nested] at hparent hbetween
    obtain ⟨houter, hlast⟩ := List.append_inj' hparent rfl
    obtain rfl := List.singleton_inj.mp hlast
    exact ⟨front, parent, between, hbefore, hns, houter, ⟨rfl, rfl, rfl⟩, hbetween⟩

/-- A document that stops inside the type `D`, which follows a type that has one
of its own inside. The parent of `D` is three places before it. -/
theorem parse_groups_nested_unclosed :
    let text := "<declarations><namespace name='N'><type name='A' kind='struct' typeParams='T'>" ++
      "<type name='B'><type name='C'/></type><type name='D'><field name='f' type='T'/>"
    let outermost : EnclosingType := ⟨"A", .structType, ["T"]⟩
    let declare (name : String) (enclosing : List EnclosingType) : Declaration :=
      ⟨name, .classType, some "N", enclosing, [], none, [], [], []⟩
    let a := { declare "A" [] with kind := .structType, typeParams := ["T"] }
    let b := declare "B" [outermost]
    let c := declare "C" [outermost, ⟨"B", .classType, []⟩]
    let d := { declare "D" [outermost] with fields := [⟨"f", "T", false, false, false, false⟩] }
    parse text = .ok (.ofList [a, b, c, d]) ∧
    ∃ front parent between, [a, b, c] = front ++ parent :: between ∧
      parent.inNamespace = some "N" ∧ parent.enclosing = [] ∧
      (parent.name = "A" ∧ parent.kind = .structType ∧ parent.typeParams = ["T"]) ∧
      ∀ n ∈ between, [outermost] <+: n.enclosing := by
  intro text outermost declare a b c d
  have hread : declarationsOf text = .ok [a, b, c, d] := by decide +kernel
  have accepted : parse text = .ok (.ofList [a, b, c, d]) := by
    rw [parse, hread]
    rfl
  have stands : (Catalog.ofList [a, b, c, d]).toList = [a, b, c] ++ d :: [] :=
    Catalog.toList_ofList _
  exact ⟨accepted, parse_groups_nested accepted stands (show d.enclosing = [] ++ [outermost] from rfl)⟩

end ConstructorSynthesis.Document
