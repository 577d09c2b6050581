import Mathlib.Order.WellFounded
import ConstructorSynthesis.Proofs.Blueprint.Order

/-!
What the ledger holds when a target is drafted. A run only adds to the ledger
and an entry is written once, so the entry of a type is the parameter list of
the first draft for that type. The lemmas lead from one recording to a whole
run, and from the places of a run back to the positions of the given targets.
-/

namespace ConstructorSynthesis

/-- The ledger behind a series of drafts. -/
def Ledger.recordAll (ledger : Ledger) (drafts : List Drafted) : Ledger :=
  drafts.foldl (fun m d => (m.record d.target.id d.blueprint.parameters).2) ledger

/-- The parameters of the first draft for a type. -/
def settled? (drafts : List Drafted) (k : TypeId) : Option (List Parameter) :=
  (drafts.find? (·.target.id == k)).map (·.blueprint.parameters)

/-- Recording keeps what is known and adds, for each other type, the parameters
of its first draft. -/
theorem Ledger.get?_recordAll (ledger : Ledger) (drafts : List Drafted) (k : TypeId) :
    (ledger.recordAll drafts).get? k = (ledger.get? k).or (settled? drafts k) := by
  induction drafts generalizing ledger with
  | nil => simp [recordAll, settled?]
  | cons d rest ih =>
      have hrest : (ledger.recordAll (d :: rest)).get? k =
          ((ledger.record d.target.id d.blueprint.parameters).2.get? k).or (settled? rest k) :=
        ih (ledger.record d.target.id d.blueprint.parameters).2
      rw [hrest, get?_record]
      by_cases same : d.target.id = k <;> simp [same, settled?]

/-- An entry is new if the ledger has none for the type when it is drafted. -/
theorem draftInOrder_cons (ledger : Ledger) (t : Target) (ts : List Target) :
    draftInOrder ledger (t :: ts) =
      ⟨t, t.draft ledger, (ledger.get? t.id).isNone⟩ ::
        draftInOrder (ledger.record t.id (t.draft ledger).parameters).2 ts := by
  rw [draftInOrder, ← Ledger.record_fst ledger t.id (t.draft ledger).parameters]

@[simp]
theorem map_target_draftInOrder (ledger : Ledger) (ts : List Target) :
    (draftInOrder ledger ts).map Drafted.target = ts := by
  induction ts generalizing ledger with
  | nil => rfl
  | cons t ts ih =>
      rw [draftInOrder_cons, List.map_cons, ih]

@[simp]
theorem length_draftInOrder (ledger : Ledger) (ts : List Target) :
    (draftInOrder ledger ts).length = ts.length := by
  rw [← List.length_map Drafted.target, map_target_draftInOrder]

/-- A run over two lists is the run over the first one, followed by a run over
the second one that starts with everything settled by then. -/
theorem draftInOrder_append (ledger : Ledger) (first second : List Target) :
    draftInOrder ledger (first ++ second) =
      draftInOrder ledger first ++
        draftInOrder (ledger.recordAll (draftInOrder ledger first)) second := by
  induction first generalizing ledger with
  | nil => rfl
  | cons t ts ih =>
      rw [List.cons_append, draftInOrder_cons, draftInOrder_cons, ih]
      rfl

/-- Every target of a run is drafted with what the drafts before it settled. -/
theorem draftInOrder_getElem? (ledger : Ledger) (ts : List Target) {n : Nat}
    (hn : n < ts.length) :
    let before := ledger.recordAll ((draftInOrder ledger ts).take n)
    (draftInOrder ledger ts)[n]? =
      some ⟨ts[n], ts[n].draft before, (before.get? ts[n].id).isNone⟩ := by
  have hsplit : ts = ts.take n ++ ts[n] :: ts.drop (n + 1) := by simp
  have hlen : (draftInOrder ledger (ts.take n)).length = n := by
    rw [length_draftInOrder, List.length_take]
    omega
  have hrun : draftInOrder ledger ts = draftInOrder ledger (ts.take n) ++
      draftInOrder (ledger.recordAll (draftInOrder ledger (ts.take n)))
        (ts[n] :: ts.drop (n + 1)) := by
    conv_lhs => rw [hsplit]
    exact draftInOrder_append _ _ _
  have htake : (draftInOrder ledger ts).take n = draftInOrder ledger (ts.take n) := by
    rw [hrun, List.take_append_of_le_length (by omega), List.take_of_length_le (by omega)]
  intro before
  rw [hrun, List.getElem?_append_right (by omega), hlen, draftInOrder_cons]
  simp only [before, htake, Nat.sub_self, List.getElem?_cons_zero]

theorem map_target_draftAll (targets : List Target) :
    (draftAll targets).map Drafted.target = schedule targets :=
  map_target_draftInOrder .empty (schedule targets)

theorem length_draftAll (targets : List Target) :
    (draftAll targets).length = targets.length := by
  rw [draftAll, length_draftInOrder, length_schedule]

/-- The draft of the target given at `i`. -/
def draftOf (targets : List Target) (i : Fin targets.length) : Drafted :=
  (draftAll targets).get ⟨slot targets i, by rw [length_draftAll]; exact slot_lt_length targets i⟩

/-- The ledger with which the target given at `i` is drafted. -/
def ledgerFor (targets : List Target) (i : Fin targets.length) : Ledger :=
  Ledger.empty.recordAll ((draftAll targets).take (slot targets i))

theorem draftAll_getElem?_slot (targets : List Target) (i : Fin targets.length) :
    (draftAll targets)[slot targets i]? = some (draftOf targets i) :=
  List.getElem?_eq_getElem _

theorem draftOf_eq (targets : List Target) (i : Fin targets.length) :
    draftOf targets i = ⟨targets.get i, (targets.get i).draft (ledgerFor targets i),
      ((ledgerFor targets i).get? (targets.get i).id).isNone⟩ := by
  have hplace : slot targets i < (schedule targets).length := by
    rw [length_schedule]
    exact slot_lt_length targets i
  have hgiven : (schedule targets)[slot targets i] = targets.get i := by
    have hget := schedule_getElem?_slot targets i
    rw [List.getElem?_eq_getElem hplace] at hget
    exact Option.some.inj hget
  have hdraft := draftInOrder_getElem? .empty (schedule targets) hplace
  simp only [hgiven] at hdraft
  exact Option.some.inj ((draftAll_getElem?_slot targets i).symm.trans hdraft)

@[simp]
theorem draftOf_target (targets : List Target) (i : Fin targets.length) :
    (draftOf targets i).target = targets.get i := by
  rw [draftOf_eq]

theorem draftOf_blueprint (targets : List Target) (i : Fin targets.length) :
    (draftOf targets i).blueprint = (targets.get i).draft (ledgerFor targets i) := by
  rw [draftOf_eq]

/-- Nothing is settled for a type none of whose targets was drafted before. -/
theorem get?_ledgerFor_eq_none {targets : List Target} {i : Fin targets.length} {k : TypeId}
    (hnone : ∀ j : Fin targets.length, (targets.get j).id = k → ¬ DraftedBefore targets j i) :
    (ledgerFor targets i).get? k = none := by
  rw [ledgerFor, Ledger.get?_recordAll, Ledger.get?_empty, Option.none_or, settled?,
    Option.map_eq_none_iff, List.find?_eq_none]
  intro d member
  obtain ⟨n, hn, hd⟩ := List.mem_take_iff_getElem.mp member
  obtain ⟨j, rfl⟩ := exists_slot_eq targets (n := n) (by rw [← length_draftAll]; omega)
  have hdraft : d = draftOf targets j := hd.symm
  have before : DraftedBefore targets j i :=
    (slot_lt_slot_iff targets j i).mp (by omega)
  intro same
  rw [hdraft, draftOf_target, beq_iff_eq] at same
  exact hnone j same before

/-- What is settled for a type are the parameters of its first draft. -/
theorem get?_ledgerFor_eq_some {targets : List Target} {i j : Fin targets.length} {k : TypeId}
    (hid : (targets.get j).id = k) (before : DraftedBefore targets j i)
    (hfirst : ∀ j' : Fin targets.length, (targets.get j').id = k → ¬ DraftedBefore targets j' j) :
    (ledgerFor targets i).get? k = some (draftOf targets j).blueprint.parameters := by
  have hslot : slot targets j < slot targets i := slot_lt_slot before
  have hlen := length_draftAll targets
  have hi := slot_lt_length targets i
  have hfind : ((draftAll targets).take (slot targets i)).find? (·.target.id == k) =
      some (draftOf targets j) := by
    rw [List.find?_eq_some_iff_getElem]
    refine ⟨?_, slot targets j, by rw [List.length_take]; omega, List.getElem_take, ?_⟩
    · rw [draftOf_target, beq_iff_eq]
      exact hid
    · intro n hn
      obtain ⟨j', rfl⟩ := exists_slot_eq targets (n := n) (by omega)
      have differs : (draftOf targets j').target.id ≠ k := by
        rw [draftOf_target]
        exact fun same => hfirst j' same ((slot_lt_slot_iff targets j' j).mp hn)
      rw [List.getElem_take, Bool.not_eq_true', beq_eq_false_iff_ne]
      exact differs
  rw [ledgerFor, Ledger.get?_recordAll, Ledger.get?_empty, Option.none_or, settled?, hfind]
  rfl

/-- Among the positions of a type that come before `i` there is a first one. -/
theorem exists_first_before {targets : List Target} {i : Fin targets.length} {k : TypeId}
    (hsome : ∃ j : Fin targets.length, (targets.get j).id = k ∧ DraftedBefore targets j i) :
    ∃ j : Fin targets.length, (targets.get j).id = k ∧ DraftedBefore targets j i ∧
      ∀ j' : Fin targets.length, (targets.get j').id = k → ¬ DraftedBefore targets j' j := by
  let candidates : Set (Fin targets.length) :=
    {j | (targets.get j).id = k ∧ DraftedBefore targets j i}
  obtain ⟨j, ⟨hid, before⟩, hleast⟩ :=
    (InvImage.wf (slot targets) Nat.lt_wfRel.wf).has_min candidates hsome
  refine ⟨j, hid, before, ?_⟩
  intro j' hid' earlier
  have hslot := slot_lt_slot earlier
  have before' : DraftedBefore targets j' i :=
    (slot_lt_slot_iff targets j' i).mp (hslot.trans (slot_lt_slot before))
  exact hleast j' ⟨hid', before'⟩ hslot

end ConstructorSynthesis
