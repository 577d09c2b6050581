import Mathlib.Data.List.Nodup
import ConstructorSynthesis.Blueprint.Selection

/-!
The targets of a catalog. Taking the first declaration of each type leaves a
sublist in which no type occurs twice, so the targets of a catalog are distinct
whatever the catalog declares. A target comes from the first declaration of its
type that asks for a constructor, while looking the type up finds the first
declaration of all; the two are the same exactly if that one asks.
-/

namespace ConstructorSynthesis

theorem firstOfEachId_sublist (seen : List TypeId) (ds : List Declaration) :
    (firstOfEachId seen ds).Sublist ds := by
  induction ds generalizing seen with
  | nil => exact .slnil
  | cons d ds ih =>
      rw [firstOfEachId]
      split
      · exact (ih seen).cons d
      · exact (ih (d.id :: seen)).cons_cons d

theorem firstOfEachId_ids (seen : List TypeId) (ds : List Declaration) :
    ((firstOfEachId seen ds).map Declaration.id).Nodup ∧
      ∀ d ∈ firstOfEachId seen ds, d.id ∉ seen := by
  induction ds generalizing seen with
  | nil => simp [firstOfEachId]
  | cons d ds ih =>
      rw [firstOfEachId]
      split
      · exact ih seen
      · next fresh =>
          rw [List.contains_iff_mem] at fresh
          obtain ⟨hnodup, hunseen⟩ := ih (d.id :: seen)
          simp only [List.mem_cons, not_or] at hunseen
          constructor
          · rw [List.map_cons, List.nodup_cons, List.mem_map]
            refine ⟨?_, hnodup⟩
            rintro ⟨e, member, same⟩
            exact (hunseen e member).1 same
          · intro e member
            rcases List.mem_cons.mp member with rfl | later
            · exact fresh
            · exact (hunseen e later).2

/-- Nothing is left out where no type occurs twice. -/
theorem firstOfEachId_of_distinct {seen : List TypeId} {ds : List Declaration}
    (fresh : ∀ d ∈ ds, d.id ∉ seen) (distinct : (ds.map Declaration.id).Nodup) :
    firstOfEachId seen ds = ds := by
  induction ds generalizing seen with
  | nil => rfl
  | cons d ds ih =>
      rw [List.map_cons, List.nodup_cons] at distinct
      have hd : seen.contains d.id = false := by simpa using fresh d List.mem_cons_self
      have hrest : ∀ e ∈ ds, e.id ∉ d.id :: seen := by
        intro e member known
        rcases List.mem_cons.mp known with same | earlier
        · exact distinct.1 (same ▸ List.mem_map_of_mem member)
        · exact fresh e (List.mem_cons_of_mem d member) earlier
      rw [firstOfEachId, hd, ih hrest distinct.2]
      rfl

/-- What is left are the declarations that a search for their type finds. -/
theorem mem_firstOfEachId_iff (seen : List TypeId) (ds : List Declaration) (d : Declaration) :
    d ∈ firstOfEachId seen ds ↔ d.id ∉ seen ∧ ds.find? (·.id == d.id) = some d := by
  induction ds generalizing seen with
  | nil => simp [firstOfEachId]
  | cons e ds ih =>
      rw [firstOfEachId]
      by_cases same : e.id = d.id
      · rw [List.find?_cons_of_pos (by simpa using same)]
        by_cases known : d.id ∈ seen
        · simp [ih, same, known]
        · simp [ih, same, known, eq_comm]
      · rw [List.find?_cons_of_neg (by simpa using same)]
        have hother : d ≠ e := by
          rintro rfl
          exact same rfl
        by_cases known : e.id ∈ seen
        · simp [ih, known]
        · simp [ih, known, hother, Ne.symm same]

/-- The declaration asks for a constructor of the type `k`. -/
def Declaration.asksFor (d : Declaration) (k : TypeId) : Bool := d.requestsConstructor && d.id == k

theorem Declaration.asksFor_iff (d : Declaration) (k : TypeId) :
    d.asksFor k = true ↔ d.requestsConstructor = true ∧ d.id = k := by
  simp [asksFor]

/-- The place of the first declaration that asks for a constructor of the type. -/
def requestPlace (ds : List Declaration) (k : TypeId) : Nat := ds.findIdx (·.asksFor k)

theorem requestPlace_cons_of_asksFor {a : Declaration} {ds : List Declaration} {k : TypeId}
    (h : a.asksFor k = true) : requestPlace (a :: ds) k = 0 := by
  simp [requestPlace, List.findIdx_cons, h]

theorem requestPlace_cons_of_not_asksFor {a : Declaration} {ds : List Declaration} {k : TypeId}
    (h : a.asksFor k = false) : requestPlace (a :: ds) k = requestPlace ds k + 1 := by
  simp [requestPlace, List.findIdx_cons, h]

/-- A declaration in front moves the types that it does not ask for by one place. -/
theorem pairwise_requestPlace_cons {a : Declaration} {ds es : List Declaration}
    (others : ∀ d ∈ es, a.asksFor d.id = false)
    (ordered : es.Pairwise fun d e => requestPlace ds d.id < requestPlace ds e.id) :
    es.Pairwise fun d e => requestPlace (a :: ds) d.id < requestPlace (a :: ds) e.id := by
  refine ordered.imp_of_mem ?_
  intro d e hd he before
  rw [requestPlace_cons_of_not_asksFor (others d hd),
    requestPlace_cons_of_not_asksFor (others e he)]
  exact Nat.succ_lt_succ before

/-- What is left stands in the order in which the types are first asked for. -/
theorem pairwise_firstOfEachId (seen : List TypeId) (ds : List Declaration) :
    (firstOfEachId seen (ds.filter Declaration.requestsConstructor)).Pairwise
      fun d e => requestPlace ds d.id < requestPlace ds e.id := by
  induction ds generalizing seen with
  | nil => simp [firstOfEachId]
  | cons a ds ih =>
      by_cases asks : a.requestsConstructor = true
      · -- Nothing that is left behind `a` is of its type, since that counts as seen.
        have hothers {seen : List TypeId} (known : a.id ∈ seen) (d : Declaration)
            (hd : d ∈ firstOfEachId seen (ds.filter Declaration.requestsConstructor)) :
            a.asksFor d.id = false := by
          have hunseen := (firstOfEachId_ids seen _).2 d hd
          have differs : a.id ≠ d.id := by
            intro same
            exact hunseen (same ▸ known)
          simp [Declaration.asksFor, differs]
        rw [List.filter_cons_of_pos asks, firstOfEachId]
        split
        · next known =>
            rw [List.contains_iff_mem] at known
            exact pairwise_requestPlace_cons (hothers known) (ih seen)
        · have hrest := hothers (List.mem_cons_self (a := a.id) (l := seen))
          refine List.pairwise_cons.mpr ⟨?_, pairwise_requestPlace_cons hrest (ih _)⟩
          intro d hd
          rw [requestPlace_cons_of_not_asksFor (hrest d hd),
            requestPlace_cons_of_asksFor ((a.asksFor_iff a.id).mpr ⟨asks, rfl⟩)]
          exact Nat.succ_pos _
      · rw [List.filter_cons_of_neg asks]
        refine pairwise_requestPlace_cons ?_ (ih seen)
        intro d _
        simp [Declaration.asksFor, asks]

/-- The base of a target is the one that the declaration names. -/
theorem Target.baseId_ofDeclaration (c : Catalog) (d : Declaration) :
    (Target.ofDeclaration c d).baseId = d.base := by
  cases hbase : d.base <;> simp [baseId, ofDeclaration, hbase, BaseType.ofCatalog]

namespace Catalog

theorem nodup_ids_targets (c : Catalog) : (c.targets.map Target.id).Nodup := by
  rw [targets, List.map_map]
  exact (firstOfEachId_ids [] _).1

/-- A target comes from a declaration that asks for a constructor. -/
theorem exists_declaration_of_mem_targets {c : Catalog} {t : Target} (member : t ∈ c.targets) :
    ∃ d ∈ c.toList, d.requestsConstructor = true ∧ t = Target.ofDeclaration c d := by
  obtain ⟨d, hd, rfl⟩ := List.mem_map.mp member
  have hfiltered := (firstOfEachId_sublist [] _).subset hd
  rw [List.mem_filter] at hfiltered
  exact ⟨d, hfiltered.1, hfiltered.2, rfl⟩

/-- The first declaration of a type that asks for a constructor. -/
def request? (c : Catalog) (k : TypeId) : Option Declaration := c.toList.find? (·.asksFor k)

theorem of_request?_eq_some {c : Catalog} {k : TypeId} {d : Declaration}
    (h : c.request? k = some d) :
    d ∈ c.toList ∧ d.requestsConstructor = true ∧ d.id = k := by
  have hasks := List.find?_some h
  exact ⟨List.mem_of_find?_eq_some h, (d.asksFor_iff k).mp hasks⟩

/-- These are the first requests of all types that have one, in the order of the
catalog. -/
structure FirstRequests (c : Catalog) (asking : List Declaration) : Prop where
  mem_iff : ∀ d, d ∈ asking ↔ c.request? d.id = some d
  ordered : asking.Pairwise fun d e => requestPlace c.toList d.id < requestPlace c.toList e.id

/-- The first requests of a catalog are one list. -/
theorem FirstRequests.unique {c : Catalog} {first second : List Declaration}
    (hfirst : c.FirstRequests first) (hsecond : c.FirstRequests second) : first = second := by
  have hnodup {asking : List Declaration} (h : c.FirstRequests asking) : asking.Nodup :=
    h.ordered.imp fun before same => by simp [same] at before
  have hperm : first.Perm second := by
    rw [List.perm_ext_iff_of_nodup (hnodup hfirst) (hnodup hsecond)]
    intro d
    rw [hfirst.mem_iff, hsecond.mem_iff]
  refine hperm.eq_of_pairwise ?_ hfirst.ordered hsecond.ordered
  intro d e _ _ before behind
  exact absurd behind (Nat.lt_asymm before)

/-- The targets are made from the first requests. -/
theorem targets_eq (c : Catalog) :
    ∃ asking, c.FirstRequests asking ∧ c.targets = asking.map (Target.ofDeclaration c) := by
  refine ⟨_, ⟨?_, pairwise_firstOfEachId [] c.toList⟩, rfl⟩
  intro d
  have hboth (e : Declaration) :
      decide (e.requestsConstructor = true ∧ (e.id == d.id) = true) = e.asksFor d.id := by
    rw [Declaration.asksFor, Bool.decide_and, Bool.decide_eq_true, Bool.decide_eq_true]
  simp only [mem_firstOfEachId_iff, List.find?_filter, hboth, request?, List.not_mem_nil,
    not_false_eq_true, true_and]

theorem mem_targets_iff (c : Catalog) (t : Target) :
    t ∈ c.targets ↔ ∃ d, c.request? t.id = some d ∧ t = Target.ofDeclaration c d := by
  obtain ⟨asking, ⟨hasking, -⟩, htargets⟩ := c.targets_eq
  rw [htargets, List.mem_map]
  constructor
  · rintro ⟨d, member, rfl⟩
    exact ⟨d, (hasking d).mp member, rfl⟩
  · rintro ⟨d, hrequest, rfl⟩
    exact ⟨d, (hasking d).mpr hrequest, rfl⟩

theorem request?_isSome_iff (c : Catalog) (k : TypeId) :
    (c.request? k).isSome = true ↔
      ∃ d ∈ c.toList, d.requestsConstructor = true ∧ d.id = k := by
  simp only [request?, List.find?_isSome, Declaration.asksFor_iff]

/-- The types that are targets are those that some declaration asks for. -/
theorem mem_ids_targets_iff (c : Catalog) (k : TypeId) :
    k ∈ c.targets.map Target.id ↔ (c.request? k).isSome = true := by
  rw [List.mem_map]
  constructor
  · rintro ⟨t, member, rfl⟩
    obtain ⟨d, hrequest, -⟩ := (c.mem_targets_iff t).mp member
    rw [hrequest]
    rfl
  · intro h
    obtain ⟨d, hrequest⟩ := Option.isSome_iff_exists.mp h
    obtain ⟨-, -, rfl⟩ := of_request?_eq_some hrequest
    exact ⟨Target.ofDeclaration c d, (c.mem_targets_iff _).mpr ⟨d, hrequest, rfl⟩, rfl⟩

/-- The base of a target has the constructors that looking it up finds. -/
theorem base_of_mem_targets {c : Catalog} {t : Target} (member : t ∈ c.targets) :
    t.base = t.baseId.map (BaseType.ofCatalog c) := by
  obtain ⟨d, -, -, rfl⟩ := exists_declaration_of_mem_targets member
  rw [Target.baseId_ofDeclaration]
  rfl

/-- A type that has a request is declared, and looking it up finds the request or
a declaration before it that does not ask. -/
theorem get?_of_request? {c : Catalog} {k : TypeId} {asking : Declaration}
    (h : c.request? k = some asking) :
    ∃ found, c.get? k = some found ∧ (asking = found ↔ found.requestsConstructor = true) := by
  obtain ⟨-, hasks, hid⟩ := of_request?_eq_some h
  obtain ⟨-, earlier, later, hlist, hearlier⟩ := List.find?_eq_some_iff_append.mp h
  have hlookup : c.get? k = (earlier.find? (·.id == k)).or (some asking) := by
    rw [get?_eq_find?, hlist, List.find?_append, List.find?_cons_of_pos (by simpa using hid)]
  cases hfound : earlier.find? (·.id == k) with
  | none => exact ⟨asking, by rw [hlookup, hfound]; rfl, by simp [hasks]⟩
  | some found =>
      have hsame : found.id = k := by simpa using List.find?_some hfound
      have hsilent : found.requestsConstructor = false := by
        simpa [Declaration.asksFor, hsame] using
          hearlier found (List.mem_of_find?_eq_some hfound)
      refine ⟨found, by rw [hlookup, hfound]; rfl, ?_⟩
      constructor
      · rintro rfl
        exact hasks
      · intro hfoundAsks
        simp [hsilent] at hfoundAsks

/-- A target is made from the first declaration of its type that asks for a
constructor. What is looked up, and what derived types call, is the first
declaration of the type. They are one declaration exactly if the first of all
asks. -/
theorem target_is_lookup_iff (c : Catalog) (t : Target) (member : t ∈ c.targets) :
    ∃ found asking, c.get? t.id = some found ∧ c.request? t.id = some asking ∧
      t = Target.ofDeclaration c asking ∧
      (asking = found ↔ found.requestsConstructor = true) ∧
      ∀ u ∈ c.targets, u.baseId = some t.id → u.base = some ⟨t.id, found.constructors⟩ := by
  obtain ⟨asking, hrequest, htarget⟩ := (mem_targets_iff c t).mp member
  obtain ⟨found, hfound, hsame⟩ := get?_of_request? hrequest
  refine ⟨found, asking, hfound, hrequest, htarget, hsame, ?_⟩
  intro u hu hbase
  rw [base_of_mem_targets hu, hbase, Option.map_some, BaseType.ofCatalog, hfound]

/-- Of two declarations of a type the first asks for a constructor: it is drawn up
from that one, and the derived type calls the constructor that this one declares. -/
theorem target_is_lookup_iff_first_asks :
    let a : Declaration :=
      { name := "A", kind := .classType, inNamespace := none, enclosing := [], typeParams := []
        base := none, attributes := ["AutoConstruct"]
        fields := [⟨"_x", "int", true, false, false, false⟩]
        constructors := [⟨false, [⟨"int", "x"⟩]⟩] }
    let again := { a with attributes := [], fields := [], constructors := [] }
    let derived := { a with name := "B", base := some a.id, fields := [], constructors := [] }
    let c := Catalog.ofList [a, again, derived]
    Target.ofDeclaration c a ∈ c.targets ∧ Target.ofDeclaration c derived ∈ c.targets ∧
      c.get? a.id = some a ∧
      (Target.ofDeclaration c derived).base = some ⟨a.id, a.constructors⟩ := by
  intro a again derived c
  have ha : Target.ofDeclaration c a ∈ c.targets := by
    refine (mem_targets_iff c _).mpr ⟨a, ?_, rfl⟩
    rw [request?, toList_ofList]
    decide +kernel
  have hderived : Target.ofDeclaration c derived ∈ c.targets := by
    refine (mem_targets_iff c _).mpr ⟨derived, ?_, rfl⟩
    rw [request?, toList_ofList]
    decide +kernel
  have hlookup : c.get? a.id = some a := by
    rw [get?_eq_find?, toList_ofList]
    decide +kernel
  obtain ⟨found, asking, hfound, -, -, -, hbase⟩ := target_is_lookup_iff c _ ha
  obtain rfl : a = found := Option.some.inj (hlookup.symm.trans hfound)
  exact ⟨ha, hderived, hlookup, hbase _ hderived rfl⟩

/-- A type is declared without a request and then again with one. The constructor
is drawn up from the second declaration, while the first one is looked up and has
the constructor that the derived type calls. -/
theorem target_differs_from_lookup :
    let plain : Declaration :=
      { name := "A", kind := .classType, inNamespace := none, enclosing := [], typeParams := []
        base := none, attributes := []
        fields := [⟨"_x", "int", true, false, false, false⟩]
        constructors := [⟨false, [⟨"int", "x"⟩]⟩] }
    let asking := { plain with
      attributes := ["AutoConstruct"]
      fields := [⟨"_y", "string", true, false, false, false⟩]
      constructors := [] }
    let derived := { asking with name := "B", base := some asking.id, fields := [] }
    let c := Catalog.ofList [plain, asking, derived]
    c.targets = [Target.ofDeclaration c asking, Target.ofDeclaration c derived] ∧
      c.get? asking.id = some plain ∧
      Target.ofDeclaration c asking ≠ Target.ofDeclaration c plain ∧
      (Target.ofDeclaration c derived).base = some ⟨asking.id, plain.constructors⟩ := by
  intro plain asking derived c
  have hlookup : c.get? asking.id = some plain := by
    rw [get?_eq_find?, toList_ofList]
    decide +kernel
  have hselected : firstOfEachId [] ([plain, asking, derived].filter
      Declaration.requestsConstructor) = [asking, derived] := by decide +kernel
  refine ⟨?_, hlookup, ?_, ?_⟩
  · rw [targets, toList_ofList, hselected]
    rfl
  · intro same
    have hfields : asking.fields.map TargetField.ofField = plain.fields.map TargetField.ofField :=
      congrArg Target.fields same
    revert hfields
    decide
  · show some (BaseType.ofCatalog c asking.id) = _
    rw [BaseType.ofCatalog, hlookup]

end Catalog

end ConstructorSynthesis
