import Mathlib.Data.Fintype.EquivFin
import ConstructorSynthesis.Blueprint.Schedule

/-!
The order in which the targets of a run are drafted, seen from the positions at
which they are given. Positions are used and not types, since a list may hold
the same target twice. `DraftedBefore` states the order: roots come before the
others, and within each of the two the given order decides. `slot` computes the
place of a position in the schedule, and the two are shown to agree.
-/

namespace ConstructorSynthesis

def rootAt (targets : List Target) (i : Fin targets.length) : Bool :=
  isRoot targets (targets.get i)

/-- The target given at `i` is drafted before the one given at `j`. -/
def DraftedBefore (targets : List Target) (i j : Fin targets.length) : Prop :=
  (rootAt targets i = true ∧ rootAt targets j = false) ∨
    (rootAt targets i = rootAt targets j ∧ i < j)

/-- The place in the schedule of the target given at `i`. -/
def slot (targets : List Target) (i : Fin targets.length) : Nat :=
  if rootAt targets i then (targets.take i).countP (isRoot targets)
  else targets.countP (isRoot targets) + (targets.take i).countP (fun t => !isRoot targets t)

theorem schedule_eq (targets : List Target) :
    schedule targets =
      targets.filter (isRoot targets) ++ targets.filter (fun t => !isRoot targets t) := by
  simp only [schedule, splitRoots, List.partition_eq_filter_filter]
  rfl

theorem schedule_perm (targets : List Target) : (schedule targets).Perm targets := by
  rw [schedule_eq]
  exact List.filter_append_perm (isRoot targets) targets

theorem length_schedule (targets : List Target) :
    (schedule targets).length = targets.length := by
  rw [schedule_eq]
  exact (List.filter_append_perm (isRoot targets) targets).length_eq

/-- With one root in front, the targets are drafted in the order in which they are
given. -/
theorem schedule_of_only_root {first : Target} {rest : List Target}
    (root : isRoot (first :: rest) first = true)
    (others : ∀ t ∈ rest, isRoot (first :: rest) t = false) :
    schedule (first :: rest) = first :: rest := by
  have hnone : rest.filter (isRoot (first :: rest)) = [] :=
    List.filter_eq_nil_iff.mpr fun t member => by simp [others t member]
  have hall : rest.filter (fun t => !isRoot (first :: rest) t) = rest :=
    List.filter_eq_self.mpr fun t member => by simp [others t member]
  rw [schedule_eq, List.filter_cons_of_pos root, hnone, List.filter_cons_of_neg (by simp [root]),
    hall]
  rfl

/-- A target that is given with its base is no root, and only such a one. -/
theorem rootAt_eq_false_iff (targets : List Target) (i : Fin targets.length) :
    rootAt targets i = false ↔
      ∃ j : Fin targets.length, (targets.get i).baseId = some (targets.get j).id := by
  unfold rootAt isRoot
  cases hbase : (targets.get i).baseId with
  | none => simp
  | some base =>
      simp only [Bool.not_eq_false', List.any_eq_true, beq_iff_eq, Option.some.injEq]
      constructor
      · rintro ⟨u, member, same⟩
        obtain ⟨j, hj, rfl⟩ := List.getElem_of_mem member
        exact ⟨⟨j, hj⟩, same.symm⟩
      · rintro ⟨j, same⟩
        exact ⟨targets.get j, List.get_mem _ j, same.symm⟩

/-- Before a target that is no root come all roots, and of the others those
that are given before it. -/
theorem draftedBefore_iff_of_not_root {targets : List Target} {i j : Fin targets.length}
    (hi : rootAt targets i = false) :
    DraftedBefore targets j i ↔ rootAt targets j = true ∨ j < i := by
  unfold DraftedBefore
  cases rootAt targets j <;> simp [hi]

theorem draftedBefore_trichotomy (targets : List Target) (i j : Fin targets.length) :
    DraftedBefore targets i j ∨ i = j ∨ DraftedBefore targets j i := by
  unfold DraftedBefore
  rcases lt_trichotomy i j with before | same | behind
  · cases rootAt targets i <;> cases rootAt targets j <;> simp [before]
  · exact Or.inr (Or.inl same)
  · cases rootAt targets i <;> cases rootAt targets j <;> simp [behind]

private theorem filter_getElem?_countP {p : Target → Bool} {ts : List Target}
    (i : Fin ts.length) (hp : p (ts.get i) = true) :
    (ts.filter p)[(ts.take i).countP p]? = some (ts.get i) := by
  have hsplit : ts = ts.take i ++ ts.get i :: ts.drop (i + 1) := by simp
  have hfilter : ts.filter p =
      (ts.take i).filter p ++ ts.get i :: (ts.drop (i + 1)).filter p := by
    conv_lhs => rw [hsplit]
    rw [List.filter_append, List.filter_cons_of_pos hp]
  rw [hfilter, List.countP_eq_length_filter]
  simp

private theorem countP_take_lt {p : Target → Bool} {ts : List Target}
    (i : Fin ts.length) (hp : p (ts.get i) = true) {n : Nat} (hn : i < n) :
    (ts.take i).countP p < (ts.take n).countP p := by
  have hstep : (ts.take (i + 1)).countP p = (ts.take i).countP p + 1 := by
    rw [List.take_succ_eq_append_getElem i.isLt, List.countP_append]
    simpa using hp
  have hmore : (ts.take (i + 1)).countP p ≤ (ts.take n).countP p :=
    (List.take_sublist_take_left (by omega)).countP_le
  omega

theorem slot_of_root {targets : List Target} {i : Fin targets.length}
    (hroot : rootAt targets i = true) :
    slot targets i = (targets.take i).countP (isRoot targets) := if_pos hroot

theorem slot_of_not_root {targets : List Target} {i : Fin targets.length}
    (hroot : rootAt targets i = false) :
    slot targets i = targets.countP (isRoot targets) +
      (targets.take i).countP (fun t => !isRoot targets t) := if_neg (by simp [hroot])

/-- The schedule holds every given target at its slot. -/
theorem schedule_getElem?_slot (targets : List Target) (i : Fin targets.length) :
    (schedule targets)[slot targets i]? = some (targets.get i) := by
  rw [schedule_eq]
  cases hroot : rootAt targets i with
  | true =>
      have hget := filter_getElem?_countP i hroot
      rw [slot_of_root hroot, List.getElem?_append_left]
      · exact hget
      · exact (List.getElem?_eq_some_iff.mp hget).1
  | false =>
      have hget := filter_getElem?_countP (p := fun t => !isRoot targets t) i
        (by simpa [rootAt] using hroot)
      rw [slot_of_not_root hroot, List.countP_eq_length_filter,
        List.getElem?_append_right (Nat.le_add_right _ _), Nat.add_sub_cancel_left]
      exact hget

theorem slot_lt_length (targets : List Target) (i : Fin targets.length) :
    slot targets i < targets.length := by
  rw [← length_schedule]
  exact (List.getElem?_eq_some_iff.mp (schedule_getElem?_slot targets i)).1

theorem slot_lt_slot {targets : List Target} {i j : Fin targets.length}
    (h : DraftedBefore targets i j) : slot targets i < slot targets j := by
  rcases h with ⟨hi, hj⟩ | ⟨same, before⟩
  · have hroots : slot targets i < targets.countP (isRoot targets) := by
      rw [slot_of_root hi]
      simpa using countP_take_lt i hi i.isLt
    rw [slot_of_not_root hj]
    omega
  · cases hi : rootAt targets i with
    | true =>
        rw [slot_of_root hi, slot_of_root (same ▸ hi)]
        exact countP_take_lt i hi before
    | false =>
        have hcount := countP_take_lt (p := fun t => !isRoot targets t) i
          (by simpa [rootAt] using hi) before
        rw [slot_of_not_root hi, slot_of_not_root (same ▸ hi)]
        omega

/-- Slots are ordered as the targets are drafted. -/
theorem slot_lt_slot_iff (targets : List Target) (i j : Fin targets.length) :
    slot targets i < slot targets j ↔ DraftedBefore targets i j := by
  refine ⟨fun hlt => ?_, slot_lt_slot⟩
  rcases draftedBefore_trichotomy targets i j with before | same | behind
  · exact before
  · subst same
    omega
  · have hgt := slot_lt_slot behind
    omega

theorem slot_injective (targets : List Target) : Function.Injective (slot targets) := by
  intro i j same
  rcases draftedBefore_trichotomy targets i j with before | equal | behind
  · have hlt := slot_lt_slot before
    omega
  · exact equal
  · have hlt := slot_lt_slot behind
    omega

/-- No place of the schedule is left out: an injective map of finitely many
positions to as many places reaches all of them. -/
theorem exists_slot_eq (targets : List Target) {n : Nat} (hn : n < targets.length) :
    ∃ i, slot targets i = n := by
  let place : Fin targets.length → Fin targets.length :=
    fun i => ⟨slot targets i, slot_lt_length targets i⟩
  have hinjective : Function.Injective place := by
    intro i j same
    exact slot_injective targets (congrArg Fin.val same)
  obtain ⟨i, hi⟩ := Finite.surjective_of_injective hinjective ⟨n, hn⟩
  exact ⟨i, congrArg Fin.val hi⟩

end ConstructorSynthesis
