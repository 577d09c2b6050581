import Mathlib.Logic.Relation
import Mathlib.Data.List.Nodup
import ConstructorSynthesis.Declaration.Consistency
import ConstructorSynthesis.Proofs.Repetition

/-!
The check of a catalog accepts exactly the consistent ones. Consistency is
stated without walks: no type is declared twice, the fields of each type are
named and distinct, and no type extends itself over one or more steps. Two facts
about walks carry the proof. A walk that meets a type again has found a type
that extends itself; and a walk that starts in a type that extends itself never
gets to an end, since every base on the way extends itself as well.
-/

namespace ConstructorSynthesis

namespace Catalog

/-- Some declaration of the type `k` names `base` as its base. -/
def Extends (c : Catalog) (k base : TypeId) : Prop :=
  ∃ d ∈ c.toList, d.id = k ∧ d.base = some base

structure Consistent (c : Catalog) : Prop where
  distinct : (c.toList.map Declaration.id).Nodup
  named : ∀ d ∈ c.toList, ∀ f ∈ d.fields, f.name ≠ ""
  distinctFields : ∀ d ∈ c.toList, (d.fields.map Field.name).Nodup
  acyclic : ∀ d ∈ c.toList, ¬ Relation.TransGen c.Extends d.id d.id

theorem mem_of_get? {c : Catalog} {k : TypeId} {d : Declaration} (found : c.get? k = some d) :
    d ∈ c.toList ∧ d.id = k := by
  rw [get?_eq_find?] at found
  exact ⟨List.mem_of_find?_eq_some found, by simpa using List.find?_some found⟩

theorem get?_ne_none {c : Catalog} {d : Declaration} (member : d ∈ c.toList) :
    c.get? d.id ≠ none := by
  rw [get?_eq_find?, Ne, List.find?_eq_none]
  intro missing
  exact missing d member (by simp)

/-- A walk that meets a type again has found one that extends itself. What the
recursion keeps is that every type passed leads to the next one. -/
theorem exists_cycle_of_loops (c : Catalog) (path : List TypeId) (next : Option TypeId)
    (hpath : ∀ p ∈ path, ∀ k, next = some k → Relation.TransGen c.Extends p k)
    (hloops : (c.followBases path next).loops = true) :
    ∃ k, Relation.TransGen c.Extends k k := by
  fun_induction followBases c path next with
  | case1 path => simp at hloops
  | case2 path k again => exact ⟨k, hpath k again k rfl⟩
  | case3 path k fresh missing => simp at hloops
  | case4 path k fresh d found smaller ih =>
      obtain ⟨member, hid⟩ := mem_of_get? found
      refine ih ?_ hloops
      intro p passed base hbase
      have hstep : c.Extends k base := ⟨d, member, hid, hbase⟩
      rcases List.mem_append.mp passed with earlier | last
      · exact (hpath p earlier k rfl).tail hstep
      · rw [List.mem_singleton.mp last]
        exact .single hstep

section Distinct

variable {c : Catalog} (distinct : (c.toList.map Declaration.id).Nodup)

include distinct

/-- A step from a type that extends itself leads to another such type. -/
theorem exists_base_of_cycle {d : Declaration} (member : d ∈ c.toList)
    (hcycle : Relation.TransGen c.Extends d.id d.id) :
    ∃ base, d.base = some base ∧ Relation.TransGen c.Extends base base := by
  obtain ⟨base, hstep, hback⟩ := Relation.TransGen.head'_iff.mp hcycle
  have hreturn : Relation.TransGen c.Extends base base := Relation.TransGen.tail' hback hstep
  obtain ⟨d', member', same, hbase⟩ := hstep
  obtain rfl : d' = d := List.inj_on_of_nodup_map distinct member' member same
  exact ⟨base, hbase, hreturn⟩

/-- A walk from a type that extends itself loops: it can neither run out of
bases nor come to a type that is not declared. -/
theorem loops_of_cycle (path : List TypeId) (next : Option TypeId) {k : TypeId}
    (hnext : next = some k) (hcycle : Relation.TransGen c.Extends k k) :
    (c.followBases path next).loops = true := by
  fun_induction followBases c path next generalizing k with
  | case1 path => cases hnext
  | case2 path k' again => rfl
  | case3 path k' fresh missing =>
      obtain rfl := Option.some.inj hnext
      obtain ⟨base, ⟨d, member, hid, -⟩, -⟩ := Relation.TransGen.head'_iff.mp hcycle
      exact absurd missing (hid ▸ get?_ne_none member)
  | case4 path k' fresh d found smaller ih =>
      obtain rfl := Option.some.inj hnext
      obtain ⟨member, rfl⟩ := mem_of_get? found
      obtain ⟨base, hbase, hcycle'⟩ := exists_base_of_cycle distinct member hcycle
      exact ih hbase hcycle'

/-- With distinct types, no walk of the catalog loops exactly if no declared type
extends itself. A type that only leads to a cycle is caught as well, but then
the types on the cycle are declared and extend themselves. -/
theorem no_loops_iff :
    (∀ d ∈ c.toList, (c.baseWalk d).loops = false) ↔
      ∀ d ∈ c.toList, ¬ Relation.TransGen c.Extends d.id d.id := by
  constructor
  · intro hwalks d member hcycle
    obtain ⟨base, hbase, hcycle'⟩ := exists_base_of_cycle distinct member hcycle
    have hloops : (c.baseWalk d).loops = true := loops_of_cycle distinct [d.id] d.base hbase hcycle'
    rw [hwalks d member] at hloops
    cases hloops
  · intro hacyclic d member
    rw [← Bool.not_eq_true]
    intro hloops
    have hstart : ∀ p ∈ [d.id], ∀ k, d.base = some k → Relation.TransGen c.Extends p k := by
      intro p hp k hbase
      rw [List.mem_singleton.mp hp]
      exact .single ⟨d, member, rfl, hbase⟩
    obtain ⟨k, hcycle⟩ := exists_cycle_of_loops c [d.id] d.base hstart hloops
    obtain ⟨base, ⟨d', member', rfl, -⟩, -⟩ := Relation.TransGen.head'_iff.mp hcycle
    exact hacyclic d' member' hcycle

end Distinct

end Catalog

theorem repeatedId?_eq_firstRepeat? (seen : List TypeId) (ds : List Declaration) :
    repeatedId? seen ds = firstRepeat? Declaration.id seen ds := by
  induction ds generalizing seen with
  | nil => rfl
  | cons d ds ih => simp only [repeatedId?, firstRepeat?, List.contains_iff_mem, ih]

theorem repeatedId?_eq_none_iff (seen : List TypeId) (ds : List Declaration) :
    repeatedId? seen ds = none ↔
      (∀ d ∈ ds, d.id ∉ seen) ∧ (ds.map Declaration.id).Nodup := by
  rw [repeatedId?_eq_firstRepeat?, firstRepeat?_eq_none_iff]

/-- What is wrong with a field of this name, if something is. -/
def FieldIssue.ofName (name : String) : FieldIssue :=
  if name = "" then .unnamed else .repeated name

/-- Fields are scanned as if a field without a name had been met already. -/
theorem fieldIssue?_eq_firstRepeat? (seen marked : List String)
    (same : ∀ name, name ∈ marked ↔ name = "" ∨ name ∈ seen) (fs : List Field) :
    fieldIssue? seen fs = (firstRepeat? Field.name marked fs).map FieldIssue.ofName := by
  induction fs generalizing seen marked with
  | nil => rfl
  | cons f fs ih =>
      have hlater : ∀ name, name ∈ f.name :: marked ↔ name = "" ∨ name ∈ f.name :: seen := by
        intro name
        simp only [List.mem_cons, same]
        tauto
      by_cases unnamed : f.name = ""
      · simp [fieldIssue?, firstRepeat?, same, unnamed, FieldIssue.ofName]
      · by_cases known : f.name ∈ seen
        · simp [fieldIssue?, firstRepeat?, same, unnamed, known, FieldIssue.ofName]
        · simp [fieldIssue?, firstRepeat?, same, unnamed, known, ih _ _ hlater]

theorem fieldIssue?_eq_none_iff (seen : List String) (fs : List Field) :
    fieldIssue? seen fs = none ↔
      (∀ f ∈ fs, f.name ≠ "" ∧ f.name ∉ seen) ∧ (fs.map Field.name).Nodup := by
  rw [fieldIssue?_eq_firstRepeat? seen ("" :: seen) fun _ => List.mem_cons,
    Option.map_eq_none_iff, firstRepeat?_eq_none_iff]
  simp only [List.mem_cons, not_or]

namespace Catalog

theorem checkType_eq_ok_iff (c : Catalog) (d : Declaration) :
    c.checkType d = .ok () ↔
      fieldIssue? [] d.fields = none ∧ (c.baseWalk d).loops = false := by
  unfold checkType
  cases hissue : fieldIssue? [] d.fields with
  | some issue => simp
  | none => cases hloops : (c.baseWalk d).loops <;> simp [hloops]

theorem forM_checkType_cons (c : Catalog) (d : Declaration) (ds : List Declaration) :
    (d :: ds).forM c.checkType = (c.checkType d).bind fun _ => ds.forM c.checkType := rfl

theorem forM_checkType_eq_ok_iff (c : Catalog) (ds : List Declaration) :
    ds.forM c.checkType = .ok () ↔ ∀ d ∈ ds, c.checkType d = .ok () := by
  induction ds with
  | nil => simp [pure, Except.pure]
  | cons d ds ih =>
      rw [forM_checkType_cons]
      cases hd : c.checkType d with
      | error e => simp [Except.bind, hd]
      | ok _ => simpa [Except.bind, hd] using ih

theorem checkType_of_check {c : Catalog} (accepted : c.check = .ok ()) {d : Declaration}
    (member : d ∈ c.toList) : c.checkType d = .ok () := by
  unfold check at accepted
  split at accepted
  · cases accepted
  · exact (forM_checkType_eq_ok_iff c c.toList).mp accepted d member

/-- The check accepts exactly the consistent catalogs. -/
theorem check_eq_ok_iff_consistent (c : Catalog) : c.check = .ok () ↔ c.Consistent := by
  have hfields (d : Declaration) : fieldIssue? [] d.fields = none ↔
      (∀ f ∈ d.fields, f.name ≠ "") ∧ (d.fields.map Field.name).Nodup := by
    simp [fieldIssue?_eq_none_iff]
  unfold check
  cases hrepeated : repeatedId? [] c.toList with
  | some k =>
      constructor
      · intro h
        cases h
      · intro h
        have hnone : repeatedId? [] c.toList = none :=
          (repeatedId?_eq_none_iff [] c.toList).mpr ⟨by simp, h.distinct⟩
        rw [hrepeated] at hnone
        cases hnone
  | none =>
      have distinct := ((repeatedId?_eq_none_iff [] c.toList).mp hrepeated).2
      simp only [forM_checkType_eq_ok_iff, checkType_eq_ok_iff, hfields]
      constructor
      · intro h
        exact ⟨distinct, fun d member => (h d member).1.1, fun d member => (h d member).1.2,
          (no_loops_iff distinct).mp fun d member => (h d member).2⟩
      · intro h d member
        exact ⟨⟨h.named d member, h.distinctFields d member⟩,
          (no_loops_iff distinct).mpr h.acyclic d member⟩

end Catalog

end ConstructorSynthesis
