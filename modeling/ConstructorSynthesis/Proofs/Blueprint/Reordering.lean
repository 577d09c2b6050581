import Mathlib.Data.List.Sort
import Mathlib.Order.Extension.Linear
import ConstructorSynthesis.Proofs.Blueprint.Chain

/-!
When a better order helps. A target that is drafted before its base passes on
nothing, although the base is given. For distinct targets this is a matter of
order alone unless links lead from a target back to itself: without such a cycle
the links can be extended to a linear order, and sorted by it the targets are
drafted bases first; on a cycle, whatever the order, the target that is drafted
first comes before its base.
-/

namespace ConstructorSynthesis

/-- The target `u` is given as the base of the given target `t`, which would take
its parameters over. -/
def Links (targets : List Target) (t u : Target) : Prop :=
  t ∈ targets ∧ baseLink? targets t = some u

theorem mem_draftAll_iff (targets : List Target) (d : Drafted) :
    d ∈ draftAll targets ↔ ∃ i, draftOf targets i = d := by
  constructor
  · intro member
    obtain ⟨n, hn, hd⟩ := List.getElem_of_mem member
    obtain ⟨i, rfl⟩ := exists_slot_eq targets (by rwa [length_draftAll] at hn)
    exact ⟨i, hd⟩
  · rintro ⟨i, rfl⟩
    exact List.mem_of_getElem? (draftAll_getElem?_slot targets i)

/-- A base without a constructor to call has its parameters taken over exactly
if a target supplies them. -/
theorem draftOf_recorded_iff {targets : List Target} {i : Fin targets.length} {base : BaseType}
    (hbase : (targets.get i).base = some base) (hnone : base.callees = []) :
    (draftOf targets i).blueprint.baseOrigin = .recorded ↔
      ∃ j, Supplies targets i base.id j := by
  rw [draftOf_blueprint, Target.draft_baseOrigin, Target.baseRequirement_of_none _ hbase hnone]
  constructor
  · intro hrecorded
    by_contra hmissing
    rw [get?_ledgerFor_of_not_supplied hbase hmissing] at hrecorded
    cases hrecorded
  · intro hsupplied
    obtain ⟨j, -, hledger⟩ := get?_ledgerFor_of_supplied hbase hsupplied
    rw [hledger]
    rfl

/-- Along a link between distinct targets, parameters are taken over exactly if
the base is drafted before. -/
theorem recorded_iff_draftedBefore {targets : List Target}
    (distinct : (targets.map Target.id).Nodup) {i j : Fin targets.length}
    (hlink : baseLink? targets (targets.get i) = some (targets.get j)) :
    (draftOf targets i).blueprint.baseOrigin = .recorded ↔ DraftedBefore targets j i := by
  obtain ⟨base, hbase, hnone, -, hid⟩ := eq_some_of_baseLink? hlink
  rw [draftOf_recorded_iff hbase hnone]
  constructor
  · rintro ⟨j', hsupplies⟩
    obtain rfl := eq_of_id_eq distinct (hsupplies.1.trans hid.symm)
    exact ((supplies_iff hbase).mp hsupplies).2
  · intro before
    exact ⟨j, (supplies_iff hbase).mpr ⟨hid, before⟩⟩

/-- Every target with a link is drafted behind the base that it links to. -/
def BasesReady (targets : List Target) : Prop :=
  ∀ i j : Fin targets.length,
    baseLink? targets (targets.get i) = some (targets.get j) → DraftedBefore targets j i

/-- Every target with a link takes parameters over exactly if the bases are ready. -/
theorem forall_recorded_iff_basesReady {targets : List Target}
    (distinct : (targets.map Target.id).Nodup) :
    (∀ d ∈ draftAll targets, (∃ u, Links targets d.target u) →
      d.blueprint.baseOrigin = .recorded) ↔ BasesReady targets := by
  constructor
  · intro hrecorded i j hlink
    apply (recorded_iff_draftedBefore distinct hlink).mp
    apply hrecorded _ ((mem_draftAll_iff targets _).mpr ⟨i, rfl⟩)
    rw [draftOf_target]
    exact ⟨targets.get j, List.get_mem _ i, hlink⟩
  · intro ready d member
    obtain ⟨i, rfl⟩ := (mem_draftAll_iff targets d).mp member
    rw [draftOf_target]
    rintro ⟨u, -, hlink⟩
    obtain ⟨-, -, -, member', -⟩ := eq_some_of_baseLink? hlink
    obtain ⟨j, rfl⟩ := List.get_of_mem member'
    exact (recorded_iff_draftedBefore distinct hlink).mpr (ready i j hlink)

/-- With the bases ready, one or more steps along links lead to an earlier slot. -/
theorem BasesReady.slot_lt {targets : List Target} (ready : BasesReady targets)
    {i : Fin targets.length} {u : Target}
    (hsteps : Relation.TransGen (Links targets) (targets.get i) u) :
    ∃ j : Fin targets.length, targets.get j = u ∧ slot targets j < slot targets i := by
  have hstep {i : Fin targets.length} {u : Target} (hlink : Links targets (targets.get i) u) :
      ∃ j : Fin targets.length, targets.get j = u ∧ slot targets j < slot targets i := by
    obtain ⟨-, -, -, member, -⟩ := eq_some_of_baseLink? hlink.2
    obtain ⟨j, rfl⟩ := List.get_of_mem member
    exact ⟨j, rfl, slot_lt_slot (ready i j hlink.2)⟩
  induction hsteps with
  | single hlink => exact hstep hlink
  | tail _ hlink ih =>
      obtain ⟨j, rfl, hj⟩ := ih
      obtain ⟨k, hk, hlt⟩ := hstep hlink
      exact ⟨k, hk, hlt.trans hj⟩

/-- A list can be sorted so that no element is related to a later one, if the
relation has no cycles. -/
theorem exists_perm_pairwise_not {α : Type} (r : α → α → Prop)
    (acyclic : ∀ a, ¬ Relation.TransGen r a a) (xs : List α) :
    ∃ sorted : List α, sorted.Perm xs ∧ sorted.Pairwise fun a b => ¬ r a b := by
  classical
  -- What is reached over steps comes first.
  let before : α → α → Prop := fun a b => Relation.ReflTransGen r b a
  have hpartial : IsPartialOrder α before :=
    { refl := fun a => .refl
      trans := fun a b c hab hbc => hbc.trans hab
      antisymm := by
        intro a b hab hba
        rcases Relation.reflTransGen_iff_eq_or_transGen.mp hab with same | hsteps
        · exact same
        · exact absurd (hsteps.trans_left hba) (acyclic b) }
  obtain ⟨le, hle, hextends⟩ := extend_partialOrder before
  refine ⟨xs.insertionSort le, List.perm_insertionSort le xs, ?_⟩
  apply (List.pairwise_insertionSort le xs).imp
  intro a b hab hr
  have hba : le b a := hextends b a (.single hr)
  obtain rfl := hle.antisymm a b hab hba
  exact acyclic a (.single hr)

/-- In an order in which no target links to itself or to a later one, the bases
are ready: a base that is given before is drafted before, root or not. -/
theorem basesReady_of_sorted {targets : List Target}
    (irreflexive : ∀ t, ¬ Links targets t t)
    (hsorted : targets.Pairwise fun t u => ¬ Links targets t u) : BasesReady targets := by
  intro i j hlink
  have hlinks : Links targets (targets.get i) (targets.get j) := ⟨List.get_mem _ i, hlink⟩
  have hlt : j < i := by
    rcases lt_trichotomy j i with before | same | behind
    · exact before
    · rw [same] at hlinks
      exact absurd hlinks (irreflexive _)
    · exact absurd hlinks (List.pairwise_iff_get.mp hsorted i j behind)
  obtain ⟨base, hbase, -, -, hid⟩ := eq_some_of_baseLink? hlink
  exact ((supplies_iff hbase).mp ⟨hid, Or.inr hlt⟩).2

/-- Links do not depend on the order in which distinct targets are given. -/
theorem links_perm {targets order : List Target} (distinct : (targets.map Target.id).Nodup)
    (hperm : order.Perm targets) : Links order = Links targets := by
  funext t u
  simp only [Links, baseLink?_perm distinct hperm, hperm.mem_iff]

/-- Distinct targets can be given in an order in which every target that links to
its base takes over what the base was drafted with, exactly if no target leads
back to itself over one or more links. -/
theorem exists_order_iff_acyclic {targets : List Target}
    (distinct : (targets.map Target.id).Nodup) :
    (∃ order : List Target, order.Perm targets ∧
      ∀ d ∈ draftAll order, (∃ u, Links targets d.target u) →
        d.blueprint.baseOrigin = .recorded) ↔
    ∀ t ∈ targets, ¬ Relation.TransGen (Links targets) t t := by
  constructor
  · rintro ⟨order, hperm, hrecorded⟩ t member hcycle
    have distinct' : (order.map Target.id).Nodup := (hperm.map _).nodup_iff.mpr distinct
    rw [← links_perm distinct hperm] at hrecorded hcycle
    have ready : BasesReady order := (forall_recorded_iff_basesReady distinct').mp hrecorded
    obtain ⟨i, rfl⟩ := List.get_of_mem (hperm.mem_iff.mpr member)
    obtain ⟨j, hj, hlt⟩ := ready.slot_lt hcycle
    have same : j = i := eq_of_id_eq distinct' (congrArg Target.id hj)
    rw [same] at hlt
    exact lt_irrefl _ hlt
  · intro acyclic
    have acyclic' (t : Target) : ¬ Relation.TransGen (Links targets) t t := by
      intro hcycle
      obtain ⟨_, hlink, -⟩ := Relation.TransGen.head'_iff.mp hcycle
      exact acyclic t hlink.1 hcycle
    obtain ⟨order, hperm, hsorted⟩ := exists_perm_pairwise_not _ acyclic' targets
    have distinct' : (order.map Target.id).Nodup := (hperm.map _).nodup_iff.mpr distinct
    refine ⟨order, hperm, ?_⟩
    rw [← links_perm distinct hperm] at acyclic' hsorted ⊢
    apply (forall_recorded_iff_basesReady distinct').mpr
    exact basesReady_of_sorted (fun t hlink => acyclic' t (.single hlink)) hsorted

/-- A chain of three that is given from its end has a good order, while the order
in which it is given is not one; two types that extend each other have none, unless
both have a constructor to call. -/
theorem exists_order_iff_acyclic_chain_and_cycle :
    let a := Target.withField "A" "_a" none
    let b := Target.withField "B" "_b" (some "A")
    let c := Target.withField "C" "_c" (some "B")
    let x := Target.withField "X" "_x" (some "Y")
    let y := Target.withField "Y" "_y" (some "X")
    let p := (Target.withField "P" "_p" none).extending "Q" [.seeded]
    let q := (Target.withField "Q" "_q" none).extending "P" [.shared, .seeded]
    (([c, b, a].map Target.id).Nodup ∧ (draftOf [c, b, a] 0).blueprint.baseOrigin = .implicit ∧
      ∃ order : List Target, order.Perm [c, b, a] ∧
        ∀ d ∈ draftAll order, (∃ u, Links [c, b, a] d.target u) →
          d.blueprint.baseOrigin = .recorded) ∧
    (([x, y].map Target.id).Nodup ∧
      ¬ ∃ order : List Target, order.Perm [x, y] ∧
        ∀ d ∈ draftAll order, (∃ u, Links [x, y] d.target u) →
          d.blueprint.baseOrigin = .recorded) ∧
    (([p, q].map Target.id).Nodup ∧
      ∃ order : List Target, order.Perm [p, q] ∧
        ∀ d ∈ draftAll order, (∃ u, Links [p, q] d.target u) →
          d.blueprint.baseOrigin = .recorded) := by
  intro a b c x y p q
  have distinct : ([c, b, a].map Target.id).Nodup := by decide
  have distinct' : ([x, y].map Target.id).Nodup := by decide
  have called : ([p, q].map Target.id).Nodup := by decide
  have hdescends (t u : Target) (hlink : Links [c, b, a] t u) :
      [a, b, c].idxOf u < [a, b, c].idxOf t := by
    obtain ⟨member, hlink⟩ := hlink
    simp only [List.mem_cons, List.not_mem_nil, or_false] at member
    have hc : baseLink? [c, b, a] c = some b := by decide
    have hb : baseLink? [c, b, a] b = some a := by decide
    have ha : baseLink? [c, b, a] a = none := by decide
    rcases member with rfl | rfl | rfl
    · obtain rfl := Option.some.inj (hc.symm.trans hlink)
      decide
    · obtain rfl := Option.some.inj (hb.symm.trans hlink)
      decide
    · rw [ha] at hlink
      cases hlink
  have hapart (t u : Target) : ¬ Links [p, q] t u := by
    rintro ⟨member, hlink⟩
    simp only [List.mem_cons, List.not_mem_nil, or_false] at member
    have hp : baseLink? [p, q] p = none := by decide
    have hq : baseLink? [p, q] q = none := by decide
    rcases member with rfl | rfl
    · cases hp.symm.trans hlink
    · cases hq.symm.trans hlink
  refine ⟨⟨distinct, by decide +kernel, ?_⟩, ⟨distinct', ?_⟩, called, ?_⟩
  · apply (exists_order_iff_acyclic distinct).mpr
    intro t _ hcycle
    have hlt := hcycle.lift ([a, b, c].idxOf ·) (p := (· > ·)) hdescends
    rw [Relation.transGen_eq_self] at hlt
    exact lt_irrefl _ hlt
  · intro horder
    apply (exists_order_iff_acyclic distinct').mp horder x (by simp)
    exact .tail (b := y) (.single ⟨by simp, by decide⟩) ⟨by simp, by decide⟩
  · apply (exists_order_iff_acyclic called).mpr
    intro t _ hcycle
    obtain ⟨u, hlink, -⟩ := Relation.TransGen.head'_iff.mp hcycle
    exact hapart t u hlink

end ConstructorSynthesis
