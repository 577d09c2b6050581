import ConstructorSynthesis.Proofs.Blueprint.Forwarding
import ConstructorSynthesis.Proofs.Blueprint.Selection

/-!
Adding one declaration to a catalog. If its type is new and nothing that asks for
a constructor extends it, every step of generation takes the longer list to a
list that differs from the shorter run in one element only: the selected
declarations, the targets, their schedule, the drafts and the units. The new type
can reach the others in two places, the set of given types that decides who is a
root and the ledger, and both are only asked for bases.
-/

namespace ConstructorSynthesis

/-- The list `ys` is `xs` with `x` put in at some place. -/
def Inserts {α : Type} (x : α) (xs ys : List α) : Prop :=
  ∃ front back, xs = front ++ back ∧ ys = front ++ x :: back

namespace Inserts

variable {α β : Type} {x : α} {xs ys : List α}

theorem perm (h : Inserts x xs ys) : ys.Perm (x :: xs) := by
  obtain ⟨front, back, rfl, rfl⟩ := h
  exact List.perm_middle

theorem append_right (h : Inserts x xs ys) (zs : List α) : Inserts x (xs ++ zs) (ys ++ zs) := by
  obtain ⟨front, back, rfl, rfl⟩ := h
  exact ⟨front, back ++ zs, by simp, by simp⟩

theorem append_left (h : Inserts x xs ys) (zs : List α) : Inserts x (zs ++ xs) (zs ++ ys) := by
  obtain ⟨front, back, rfl, rfl⟩ := h
  exact ⟨zs ++ front, back, by simp, by simp⟩

theorem cons (h : Inserts x xs ys) (z : α) : Inserts x (z :: xs) (z :: ys) :=
  h.append_left [z]

theorem map (h : Inserts x xs ys) (f : α → β) : Inserts (f x) (xs.map f) (ys.map f) := by
  obtain ⟨front, back, rfl, rfl⟩ := h
  exact ⟨front.map f, back.map f, by simp, by simp⟩

theorem filter_of_pos (h : Inserts x xs ys) {p : α → Bool} (hx : p x = true) :
    Inserts x (xs.filter p) (ys.filter p) := by
  obtain ⟨front, back, rfl, rfl⟩ := h
  exact ⟨front.filter p, back.filter p, by simp, by simp [hx]⟩

theorem filter_of_neg (h : Inserts x xs ys) {p : α → Bool} (hx : p x = false) :
    ys.filter p = xs.filter p := by
  obtain ⟨front, back, rfl, rfl⟩ := h
  simp [hx]

end Inserts

/-- Whether a type was seen matters only for types that still come. -/
theorem firstOfEachId_congr {seen seen' : List TypeId} {ds : List Declaration}
    (same : ∀ d ∈ ds, d.id ∈ seen ↔ d.id ∈ seen') :
    firstOfEachId seen ds = firstOfEachId seen' ds := by
  induction ds generalizing seen seen' with
  | nil => rfl
  | cons d ds ih =>
      have hd := same d (by simp)
      have hrest (e : Declaration) (member : e ∈ ds) := same e (List.mem_cons_of_mem d member)
      have hadded : firstOfEachId (d.id :: seen) ds = firstOfEachId (d.id :: seen') ds := by
        apply ih
        intro e member
        simp [hrest e member]
      simp only [firstOfEachId, List.contains_iff_mem, hd, hadded, ih hrest]

theorem inserts_firstOfEachId {seen : List TypeId} {d : Declaration} {ds es : List Declaration}
    (h : Inserts d ds es) (fresh : ∀ e ∈ ds, e.id ≠ d.id) (unseen : d.id ∉ seen) :
    Inserts d (firstOfEachId seen ds) (firstOfEachId seen es) := by
  obtain ⟨front, back, rfl, rfl⟩ := h
  induction front generalizing seen with
  | nil =>
      -- The new type counts as seen from here on, but it does not come again.
      refine ⟨[], firstOfEachId seen back, rfl, ?_⟩
      have hrest : firstOfEachId (d.id :: seen) back = firstOfEachId seen back := by
        apply firstOfEachId_congr
        intro e member
        simp [fresh e (by simpa using member)]
      simp [firstOfEachId, unseen, hrest]
  | cons e front ih =>
      have hrest : ∀ a ∈ front ++ back, a.id ≠ d.id := by
        intro a member
        exact fresh a (List.mem_cons_of_mem e member)
      simp only [List.cons_append, firstOfEachId]
      split
      · exact ih unseen hrest
      · refine (ih ?_ hrest).cons e
        simp [unseen, (fresh e (by simp)).symm]

/-- The target neither is of the type `k` nor extends it. -/
def Target.IsApartFrom (t : Target) (k : TypeId) : Prop := t.id ≠ k ∧ t.baseId ≠ some k

theorem targets_apart {c : Catalog} {k : TypeId} (fresh : ∀ e ∈ c.toList, e.id ≠ k)
    (unused : ∀ e ∈ c.toList, e.requestsConstructor = true → e.base ≠ some k)
    (t : Target) (ht : t ∈ c.targets) : t.IsApartFrom k := by
  obtain ⟨e, member, hrequests, rfl⟩ := Catalog.exists_declaration_of_mem_targets ht
  refine ⟨fresh e member, ?_⟩
  rw [Target.baseId_ofDeclaration]
  exact unused e member hrequests

section Catalog

variable {c c' : Catalog} {d : Declaration} (inserted : Inserts d c.toList c'.toList)

include inserted

/-- Looking up any other type finds what it found before. -/
theorem get?_of_inserts {k : TypeId} (other : k ≠ d.id) : c'.get? k = c.get? k := by
  obtain ⟨front, back, hc, hc'⟩ := inserted
  have hd : (d.id == k) = false := beq_eq_false_iff_ne.mpr other.symm
  rw [Catalog.get?_eq_find?, Catalog.get?_eq_find?, hc, hc', List.find?_append, List.find?_append,
    List.find?_cons, hd]

theorem ofDeclaration_of_inserts {e : Declaration} (hbase : e.base ≠ some d.id) :
    Target.ofDeclaration c' e = Target.ofDeclaration c e := by
  cases h : e.base with
  | none => simp [Target.ofDeclaration, h]
  | some k =>
      have hk : k ≠ d.id := by
        rintro rfl
        exact hbase h
      simp [Target.ofDeclaration, h, BaseType.ofCatalog, get?_of_inserts inserted hk]

variable (fresh : ∀ e ∈ c.toList, e.id ≠ d.id)
  (unused : ∀ e ∈ c.toList, e.requestsConstructor = true → e.base ≠ some d.id)

include unused

theorem map_ofDeclaration_of_inserts :
    (firstOfEachId [] (c.toList.filter Declaration.requestsConstructor)).map
      (Target.ofDeclaration c') = c.targets := by
  apply List.map_congr_left
  intro e member
  have hmember := (firstOfEachId_sublist [] _).subset member
  rw [List.mem_filter] at hmember
  exact ofDeclaration_of_inserts inserted (unused e hmember.1 hmember.2)

/-- A declaration that does not ask for a constructor leaves the targets alone. -/
theorem targets_of_inserts (hd : d.requestsConstructor = false) : c'.targets = c.targets := by
  rw [← map_ofDeclaration_of_inserts inserted unused, Catalog.targets, inserted.filter_of_neg hd]

include fresh

/-- One that asks adds its own target. -/
theorem inserts_targets (hd : d.requestsConstructor = true) :
    Inserts (Target.ofDeclaration c' d) c.targets c'.targets := by
  rw [← map_ofDeclaration_of_inserts inserted unused, Catalog.targets]
  apply Inserts.map
  apply inserts_firstOfEachId (inserted.filter_of_pos hd)
  · intro e member
    exact fresh e (List.mem_filter.mp member).1
  · exact List.not_mem_nil

end Catalog

section Run

variable {t : Target} {ts us : List Target} (inserted : Inserts t ts us)

include inserted

/-- A target that does not extend the new one stays a root or stays none. -/
theorem isRoot_of_inserts {u : Target} (hbase : u.baseId ≠ some t.id) :
    isRoot us u = isRoot ts u := by
  unfold isRoot
  cases h : u.baseId with
  | none => rfl
  | some base =>
      have hid : (t.id == base) = false := by
        rw [beq_eq_false_iff_ne]
        rintro rfl
        exact hbase h
      simp [inserted.perm.any_eq, hid]

variable (apart : ∀ u ∈ ts, u.IsApartFrom t.id)

include apart

/-- The new target joins the roots or the others; nobody else changes sides. -/
theorem inserts_schedule : Inserts t (schedule ts) (schedule us) := by
  have hroots : ts.filter (isRoot us) = ts.filter (isRoot ts) :=
    List.filter_congr fun u member => isRoot_of_inserts inserted (apart u member).2
  have hothers : ts.filter (fun u => !isRoot us u) = ts.filter (fun u => !isRoot ts u) :=
    List.filter_congr fun u member => by rw [isRoot_of_inserts inserted (apart u member).2]
  rw [schedule_eq, schedule_eq, ← hroots, ← hothers]
  cases hroot : isRoot us t with
  | true =>
      rw [inserted.filter_of_neg (p := fun u => !isRoot us u) (by simp [hroot])]
      exact (inserted.filter_of_pos hroot).append_right _
  | false =>
      rw [inserted.filter_of_neg (p := isRoot us) hroot]
      exact (inserted.filter_of_pos (by simp [hroot])).append_left _

end Run

/-- Ledgers that agree on every type but one draft alike what has nothing to do
with that type. -/
theorem draftInOrder_congr {ledger ledger' : Ledger} {k : TypeId}
    (agree : ∀ a, a ≠ k → ledger.get? a = ledger'.get? a) {ts : List Target}
    (apart : ∀ t ∈ ts, t.IsApartFrom k) :
    draftInOrder ledger ts = draftInOrder ledger' ts := by
  -- The ledgers still agree off `k` when the same parameters are recorded in both.
  induction ts generalizing ledger ledger' with
  | nil => rfl
  | cons t ts ih =>
      obtain ⟨hid, hbaseId⟩ := apart t (by simp)
      have hdraft : t.draft ledger = t.draft ledger' := by
        apply Target.draft_congr
        intro base hbase _
        apply agree
        intro same
        apply hbaseId
        rw [Target.baseId, hbase, ← same]
        rfl
      simp only [draftInOrder_cons, hdraft, agree t.id hid]
      congr 1
      apply ih
      · intro a ha
        rw [Ledger.get?_record, Ledger.get?_record, agree a ha]
      · intro u member
        exact apart u (List.mem_cons_of_mem t member)

/-- Drafting one target more leaves the other drafts as they are. -/
theorem inserts_draftInOrder {t : Target} {ts us : List Target} (inserted : Inserts t ts us)
    (apart : ∀ u ∈ ts, u.IsApartFrom t.id) (ledger : Ledger) :
    ∃ drafted : Drafted, drafted.target = t ∧
      Inserts drafted (draftInOrder ledger ts) (draftInOrder ledger us) := by
  obtain ⟨front, back, rfl, rfl⟩ := inserted
  let before := ledger.recordAll (draftInOrder ledger front)
  have hback : draftInOrder (before.record t.id (t.draft before).parameters).2 back =
      draftInOrder before back := by
    apply draftInOrder_congr (k := t.id)
    · intro a ha
      rw [Ledger.get?_record, if_neg ha.symm]
    · intro u member
      exact apart u (List.mem_append_right front member)
  refine ⟨⟨t, t.draft before, (before.get? t.id).isNone⟩, rfl, draftInOrder ledger front,
    draftInOrder before back, draftInOrder_append ledger front back, ?_⟩
  rw [draftInOrder_append, draftInOrder_cons, hback]

/-- A run that checks nothing and is not cancelled gives the drafted targets, rendered. -/
theorem generate_unchecked {settings : Settings} (unchecked : settings.checks = false)
    (c : Catalog) :
    generate settings false c = .ok ((draftAll c.targets).map (Drafted.unit settings)) := by
  simp [generate, Settings.admits, unchecked, generateTargets]

/-- A declaration of a new type that nothing with a constructor to generate
extends can be put in anywhere. Without a request of its own it changes nothing;
with one it adds its own unit, and all other units keep their names, their
sources and their order. -/
theorem generate_of_inserts (settings : Settings) {c c' : Catalog} {d : Declaration}
    (unchecked : settings.checks = false) (inserted : Inserts d c.toList c'.toList)
    (fresh : ∀ e ∈ c.toList, e.id ≠ d.id)
    (unused : ∀ e ∈ c.toList, e.requestsConstructor = true → e.base ≠ some d.id) :
    ∃ units, generate settings false c = .ok units ∧
      (d.requestsConstructor = false → generate settings false c' = .ok units) ∧
      (d.requestsConstructor = true →
        ∃ units', generate settings false c' = .ok units' ∧
          ∃ drafted ∈ draftAll c'.targets, drafted.target = Target.ofDeclaration c' d ∧
            Inserts (drafted.unit settings) units units') := by
  refine ⟨_, generate_unchecked unchecked c, ?_, ?_⟩
  · intro hd
    rw [generate_unchecked unchecked, targets_of_inserts inserted unused hd]
  · intro hd
    have htargets := inserts_targets inserted fresh unused hd
    have apart := targets_apart fresh unused
    have hschedule := inserts_schedule htargets apart
    have apart' : ∀ u ∈ schedule c.targets, u.IsApartFrom d.id := by
      intro u member
      exact apart u ((schedule_perm c.targets).mem_iff.mp member)
    obtain ⟨drafted, htarget, hdrafts⟩ := inserts_draftInOrder hschedule apart' .empty
    have hmember : drafted ∈ draftAll c'.targets := hdrafts.perm.mem_iff.mpr List.mem_cons_self
    exact ⟨_, generate_unchecked unchecked c', drafted, hmember, htarget, hdrafts.map _⟩

/-- A type is put between a derived type and its base and extends that base too:
without a request it changes nothing, with one the unit of the derived type,
which passes a parameter on, stays the same. -/
theorem generate_of_inserts_sibling :
    let declare (name field : String) (base : Option TypeId) (marks : List String) : Declaration :=
      { name := name, kind := .classType, inNamespace := none, enclosing := [], typeParams := []
        base := base, attributes := marks, fields := [⟨field, "int", true, false, false, false⟩]
        constructors := [] }
    let a := declare "A" "_a" none ["AutoConstruct"]
    let b := declare "B" "_b" (some ⟨"A"⟩) ["AutoConstruct"]
    let quiet := declare "X" "_x" (some ⟨"A"⟩) []
    let d := declare "X" "_x" (some ⟨"A"⟩) ["AutoConstruct"]
    let settings := { Settings.default with checks := false }
    let c := Catalog.ofList [b, a]
    ((∀ e ∈ c.toList, e.id ≠ d.id) ∧
      ∀ e ∈ c.toList, e.requestsConstructor = true → e.base ≠ some d.id) ∧
    ∃ units units' drafted,
      generate settings false c = .ok units ∧
      generate settings false (.ofList [b, quiet, a]) = .ok units ∧
      generate settings false (.ofList [b, d, a]) = .ok units' ∧
      drafted.target.name = "X" ∧ Inserts (Drafted.unit settings drafted) units units' := by
  intro declare a b quiet d settings c
  have hlist : c.toList = [b, a] := Catalog.toList_ofList _
  have fresh : ∀ e ∈ c.toList, e.id ≠ d.id := by
    rw [hlist]
    decide +kernel
  have unused : ∀ e ∈ c.toList, e.requestsConstructor = true → e.base ≠ some d.id := by
    rw [hlist]
    decide +kernel
  have hquiet : Inserts quiet c.toList (Catalog.ofList [b, quiet, a]).toList :=
    ⟨[b], [a], hlist, Catalog.toList_ofList _⟩
  have hd : Inserts d c.toList (Catalog.ofList [b, d, a]).toList :=
    ⟨[b], [a], hlist, Catalog.toList_ofList _⟩
  obtain ⟨units, hrun, hsame, -⟩ := generate_of_inserts settings rfl hquiet fresh unused
  obtain ⟨others, hrun', -, hmore⟩ := generate_of_inserts settings rfl hd fresh unused
  obtain rfl : others = units := Except.ok.inj (hrun'.symm.trans hrun)
  obtain ⟨units', hgenerated, drafted, -, htarget, hinserts⟩ := hmore (by decide)
  have hname : drafted.target.name = "X" := by
    rw [htarget]
    rfl
  exact ⟨⟨fresh, unused⟩, others, units', drafted, hrun, hsame (by decide), hgenerated, hname,
    hinserts⟩

end ConstructorSynthesis
