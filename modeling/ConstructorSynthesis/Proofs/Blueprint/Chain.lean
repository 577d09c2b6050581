import ConstructorSynthesis.Proofs.Blueprint.Forwarding
import ConstructorSynthesis.Proofs.Repetition

/-!
Chains of bases. If no type is given twice and every base that is not a root is
given before the types that extend it, the parameters of a target have a closed
form: the links from type to base are followed to the last target that has no
base to take parameters from, and the own parameters of the targets on the way
are put in the opposite order. The form does not speak of positions, so a
reordering of the targets that keeps bases first changes no unit.
-/

namespace ConstructorSynthesis

/-- The given target whose parameters are passed on: the base, unless it
declares constructors that take arguments. -/
def baseLink? (targets : List Target) (t : Target) : Option Target :=
  t.base.bind fun base =>
    if base.callees.isEmpty then targets.find? (·.id == base.id) else none

/-- The targets from the first one along its links, up to one without a link. -/
inductive BaseChain (targets : List Target) : Target → List Target → Prop
  | last {t : Target} (stop : baseLink? targets t = none) : BaseChain targets t [t]
  | link {t u : Target} {chain : List Target} (next : baseLink? targets t = some u)
      (rest : BaseChain targets u chain) : BaseChain targets t (t :: chain)

/-- The parameters of the only constructor to call, if there is exactly one. -/
def Target.declaredParameters (t : Target) : List Parameter :=
  match t.base.map BaseType.callees with
  | some [c] => c.parameters
  | _ => []

/-- The closed form: what the last target of a chain passes on, then the own
parameters from the last target back to the first. -/
def chainParameters (chain : List Target) : List Parameter :=
  (chain.getLast?.map Target.declaredParameters).getD [] ++
    chain.reverse.flatMap Target.ownParameters

/-- Every base that is given and is no root stands before the types that extend it. -/
def BasesFirst (targets : List Target) : Prop :=
  ∀ i j : Fin targets.length,
    (targets.get i).baseId = some (targets.get j).id → rootAt targets j = false → j < i

instance (targets : List Target) : Decidable (BasesFirst targets) :=
  inferInstanceAs (Decidable (∀ i j : Fin targets.length,
    (targets.get i).baseId = some (targets.get j).id → rootAt targets j = false → j < i))

/-- With nothing settled for a base without a constructor to call, a target
passes on only what the base declares. -/
theorem Target.baseRequirement_of_unsettled {t : Target} {ledger : Ledger}
    (unsettled : ∀ base, t.base = some base → base.callees = [] → ledger.get? base.id = none) :
    (t.baseRequirement ledger).1 = t.declaredParameters := by
  cases hbase : t.base with
  | none =>
      rw [baseRequirement_of_no_base _ hbase]
      simp [declaredParameters, hbase]
  | some base =>
      match hcallees : base.callees with
      | [] =>
          rw [baseRequirement_of_none _ hbase hcallees, unsettled base hbase hcallees]
          simp [declaredParameters, hbase, hcallees]
      | [c] =>
          rw [baseRequirement_of_one _ hbase hcallees]
          simp [declaredParameters, hbase, hcallees]
      | _ :: _ :: _ =>
          rw [baseRequirement_of_several _ hbase (by simp [hcallees])]
          simp [declaredParameters, hbase, hcallees]

theorem baseLink?_of_callees {targets : List Target} {t : Target} {base : BaseType}
    (hbase : t.base = some base) (hnone : base.callees = []) :
    baseLink? targets t = targets.find? (·.id == base.id) := by
  simp [baseLink?, hbase, hnone]

theorem eq_some_of_baseLink? {targets : List Target} {t u : Target}
    (next : baseLink? targets t = some u) :
    ∃ base, t.base = some base ∧ base.callees = [] ∧ u ∈ targets ∧ u.id = base.id := by
  obtain ⟨base, hbase, hlink⟩ := Option.bind_eq_some_iff.mp next
  split at hlink
  · next hempty =>
      exact ⟨base, hbase, List.isEmpty_iff.mp hempty, List.mem_of_find?_eq_some hlink,
        by simpa using List.find?_some hlink⟩
  · cases hlink

theorem BaseChain.ne_nil {targets : List Target} {t : Target} {chain : List Target}
    (h : BaseChain targets t chain) : chain ≠ [] := by
  cases h <;> simp

theorem BaseChain.unique {targets : List Target} {t : Target} {first second : List Target}
    (h : BaseChain targets t first) (h' : BaseChain targets t second) : first = second := by
  induction h generalizing second with
  | last stop =>
      cases h' with
      | last _ => rfl
      | link next _ => simp [stop] at next
  | link next _ ih =>
      cases h' with
      | last stop => simp [next] at stop
      | link next' rest' =>
          obtain rfl := Option.some.inj (next.symm.trans next')
          rw [ih rest']

theorem chainParameters_cons {chain : List Target} (t : Target) (h : chain ≠ []) :
    chainParameters (t :: chain) = chainParameters chain ++ t.ownParameters := by
  obtain ⟨u, us, rfl⟩ := List.exists_cons_of_ne_nil h
  simp [chainParameters, List.getLast?_cons_cons]

section Distinct

variable {targets : List Target} (distinct : (targets.map Target.id).Nodup)

include distinct

theorem eq_of_id_eq {i j : Fin targets.length} (same : (targets.get i).id = (targets.get j).id) :
    i = j := by
  have hmap : (targets.map Target.id)[i.val]? = (targets.map Target.id)[j.val]? := by
    simpa using same
  exact Fin.ext ((List.getElem?_inj (by simp) distinct).mp hmap)

/-- Links do not depend on the order in which distinct targets are given. -/
theorem baseLink?_perm {other : List Target} (hperm : other.Perm targets) (t : Target) :
    baseLink? other t = baseLink? targets t := by
  have hfind := find?_key_perm Target.id hperm.symm distinct
  simp only [baseLink?, hfind]

theorem BaseChain.perm {other : List Target} (hperm : other.Perm targets) {t : Target}
    {chain : List Target} (h : BaseChain other t chain) : BaseChain targets t chain := by
  induction h with
  | last stop => exact .last (by rw [← baseLink?_perm distinct hperm, stop])
  | link next _ ih => exact .link (by rw [← baseLink?_perm distinct hperm, next]) ih

end Distinct

section ClosedForm

variable {targets : List Target}

/-- Nothing is settled for the base of a target without a link. -/
theorem get?_ledgerFor_of_no_link {i : Fin targets.length} {base : BaseType}
    (stop : baseLink? targets (targets.get i) = none) (hbase : (targets.get i).base = some base)
    (hnone : base.callees = []) : (ledgerFor targets i).get? base.id = none := by
  apply get?_ledgerFor_of_not_supplied hbase
  rintro ⟨j, hid, -⟩
  rw [baseLink?_of_callees hbase hnone, List.find?_eq_none] at stop
  exact stop (targets.get j) (List.get_mem _ j) (beq_iff_eq.mpr hid)

variable (distinct : (targets.map Target.id).Nodup) (ordered : BasesFirst targets)

include distinct ordered

/-- With bases first, the target behind a link is drafted before, and what is
settled for the base are its parameters. -/
theorem get?_ledgerFor_of_link {i : Fin targets.length} {base : BaseType} {u : Target}
    (hbase : (targets.get i).base = some base) (member : u ∈ targets) (hid : u.id = base.id) :
    ∃ j : Fin targets.length, targets.get j = u ∧ DraftedBefore targets j i ∧
      (ledgerFor targets i).get? base.id = some (draftOf targets j).blueprint.parameters := by
  obtain ⟨n, hn, hu⟩ := List.getElem_of_mem member
  let j : Fin targets.length := ⟨n, hn⟩
  have hj : (targets.get j).id = base.id := by
    rw [← hid, ← hu]
    rfl
  have hsupplies : Supplies targets i base.id j := by
    refine ⟨hj, ?_⟩
    cases hroot : rootAt targets j with
    | true => exact Or.inl rfl
    | false =>
        refine Or.inr (ordered i j ?_ hroot)
        rw [Target.baseId, hbase, hj]
        rfl
  obtain ⟨first, ⟨⟨hfirst, -⟩, -⟩, hledger⟩ := get?_ledgerFor_of_supplied hbase ⟨j, hsupplies⟩
  obtain rfl := eq_of_id_eq distinct (hfirst.trans hj.symm)
  exact ⟨j, hu, ((supplies_iff hbase).mp hsupplies).2, hledger⟩

/-- Every target has a chain, and its parameters are those of the chain. The
induction is on the place in the schedule, since a link leads to an earlier one. -/
theorem exists_baseChain (i : Fin targets.length) :
    ∃ chain, BaseChain targets (targets.get i) chain ∧
      (draftOf targets i).blueprint.parameters = chainParameters chain := by
  induction hplace : slot targets i using Nat.strong_induction_on generalizing i with
  | _ place ih =>
      subst hplace
      rw [draftOf_blueprint, Target.draft_parameters]
      cases hlink : baseLink? targets (targets.get i) with
      | none =>
          refine ⟨[targets.get i], .last hlink, ?_⟩
          rw [Target.baseRequirement_of_unsettled fun base hbase hnone =>
            get?_ledgerFor_of_no_link hlink hbase hnone]
          simp [chainParameters]
      | some u =>
          obtain ⟨base, hbase, hnone, member, hid⟩ := eq_some_of_baseLink? hlink
          obtain ⟨j, rfl, before, hledger⟩ :=
            get?_ledgerFor_of_link distinct ordered hbase member hid
          obtain ⟨chain, hchain, hparameters⟩ := ih (slot targets j) (slot_lt_slot before) j rfl
          refine ⟨targets.get i :: chain, .link hlink hchain, ?_⟩
          rw [Target.baseRequirement_of_none _ hbase hnone, hledger,
            chainParameters_cons _ hchain.ne_nil, ← hparameters]
          rfl

/-- What is settled for a base without a constructor to call follows from the
links alone. -/
theorem get?_ledgerFor_eq_iff (i : Fin targets.length) {base : BaseType}
    (hbase : (targets.get i).base = some base) (hnone : base.callees = [])
    (parameters : List Parameter) :
    (ledgerFor targets i).get? base.id = some parameters ↔
      ∃ u chain, baseLink? targets (targets.get i) = some u ∧ BaseChain targets u chain ∧
        parameters = chainParameters chain := by
  cases hlink : baseLink? targets (targets.get i) with
  | none => simp [get?_ledgerFor_of_no_link hlink hbase hnone]
  | some u =>
      have hfound := hlink
      rw [baseLink?_of_callees hbase hnone, find?_key_eq_some_iff Target.id distinct] at hfound
      obtain ⟨j, rfl, -, hledger⟩ :=
        get?_ledgerFor_of_link distinct ordered hbase hfound.1 hfound.2
      obtain ⟨chain, hchain, hparameters⟩ := exists_baseChain distinct ordered j
      rw [hledger, hparameters]
      constructor
      · intro h
        exact ⟨_, chain, rfl, hchain, (Option.some.inj h).symm⟩
      · rintro ⟨v, chain', hv, hchain', rfl⟩
        obtain rfl := Option.some.inj hv
        rw [hchain.unique hchain']

/-- Reordering distinct targets with bases first leaves every blueprint as it is:
both ledgers hold what the links say, and the links are the same. -/
theorem draftOf_blueprint_perm {other : List Target} (hperm : other.Perm targets)
    (ordered' : BasesFirst other) {i : Fin targets.length} {j : Fin other.length}
    (same : targets.get i = other.get j) :
    (draftOf targets i).blueprint = (draftOf other j).blueprint := by
  have distinct' : (other.map Target.id).Nodup := (hperm.map _).nodup_iff.mpr distinct
  rw [draftOf_blueprint, draftOf_blueprint, ← same]
  apply Target.draft_congr
  intro base hbase hnone
  apply Option.ext
  intro parameters
  rw [get?_ledgerFor_eq_iff distinct ordered i hbase hnone,
    get?_ledgerFor_eq_iff distinct' ordered' j (same ▸ hbase) hnone, ← same,
    baseLink?_perm distinct hperm]
  constructor
  · rintro ⟨u, chain, hlink, hchain, hparameters⟩
    exact ⟨u, chain, hlink, hchain.perm distinct' hperm.symm, hparameters⟩
  · rintro ⟨u, chain, hlink, hchain, hparameters⟩
    exact ⟨u, chain, hlink, hchain.perm distinct hperm, hparameters⟩

end ClosedForm

/-- In a list of distinct targets with bases first, every target gets the
parameters of its chain, however long the chain is and whatever stands between
its members; and two such orders of the same targets give, for each type, the
same unit. -/
theorem units_follow_chains {targets : List Target}
    (distinct : (targets.map Target.id).Nodup) (ordered : BasesFirst targets) :
    (∀ i : Fin targets.length, ∃ chain, BaseChain targets (targets.get i) chain ∧
      (draftOf targets i).blueprint.parameters = chainParameters chain) ∧
    ∀ (settings : Settings) (other : List Target), other.Perm targets → BasesFirst other →
      ∃ units units', generateTargets settings false targets = .ok units ∧
        generateTargets settings false other = .ok units' ∧
        ∀ (i : Fin targets.length) (j : Fin other.length), (targets.get i).id = (other.get j).id →
          ∃ source, units[slot targets i]? = some ⟨(targets.get i).stem, source⟩ ∧
            units'[slot other j]? = some ⟨(targets.get i).stem, source⟩ ∧
            source = (draftOf targets i).blueprint.render settings (targets.get i) := by
  refine ⟨exists_baseChain distinct ordered, ?_⟩
  intro settings other hperm ordered'
  obtain ⟨units, hrun, -, hunits⟩ := generateTargets_of_not_cancelled settings targets
  obtain ⟨units', hrun', -, hunits'⟩ := generateTargets_of_not_cancelled settings other
  refine ⟨units, units', hrun, hrun', ?_⟩
  intro i j hid
  have same : targets.get i = other.get j :=
    List.inj_on_of_nodup_map distinct (List.get_mem _ i)
      (hperm.mem_iff.mp (List.get_mem _ j)) hid
  refine ⟨_, hunits i, ?_, rfl⟩
  rw [hunits' j, draftOf_blueprint_perm distinct ordered hperm ordered' same, ← same]

/-- Of three levels the middle one is given before its base, a root whose own base
has one constructor to call. The last one gets the parameters of all of them, and
giving the root first changes nothing. Beside them stands a target whose base is
given, but has two constructors to call. -/
theorem units_follow_chains_three_levels :
    let a := (Target.withField "A" "_a" none).extending "Root" [.shared, .seeded]
    let b := Target.withField "B" "_b" (some "A")
    let c := Target.withField "C" "_c" (some "B")
    let d := (Target.withField "D" "_d" none).extending "A" [.seeded, .seeded]
    (([b, a, c, d].map Target.id).Nodup ∧ BasesFirst [b, a, c, d]) ∧
      ([a, b, c, d].Perm [b, a, c, d] ∧ BasesFirst [a, b, c, d]) ∧
      (draftOf [b, a, c, d] 2).blueprint.parameters =
        [⟨"int", "seed"⟩, ⟨"int", "a"⟩, ⟨"int", "b"⟩, ⟨"int", "c"⟩] ∧
      (draftOf [b, a, c, d] 3).blueprint.parameters = [⟨"int", "d"⟩] ∧
      ∃ units units' source,
        generateTargets .default false [b, a, c, d] = .ok units ∧
        generateTargets .default false [a, b, c, d] = .ok units' ∧
        units[2]? = some ⟨"C", source⟩ ∧ units'[2]? = some ⟨"C", source⟩ := by
  intro a b c d
  have distinct : ([b, a, c, d].map Target.id).Nodup := by decide
  have ordered : BasesFirst [b, a, c, d] := by decide
  have ordered' : BasesFirst [a, b, c, d] := by decide
  have hperm : [a, b, c, d].Perm [b, a, c, d] := .swap b a [c, d]
  obtain ⟨hchains, horders⟩ := units_follow_chains distinct ordered
  obtain ⟨chain, hchain, hparameters⟩ := hchains 2
  have hlinks : BaseChain [b, a, c, d] c [c, b, a] :=
    .link (u := b) (by decide) (.link (u := a) (by decide) (.last (by decide)))
  obtain ⟨chainD, hchainD, hparametersD⟩ := hchains 3
  have hlinksD : BaseChain [b, a, c, d] d [d] := .last (by decide)
  obtain ⟨units, units', hrun, hrun', hsame⟩ := horders .default [a, b, c, d] hperm ordered'
  obtain ⟨source, hunit, hunit', -⟩ := hsame 2 2 rfl
  have hstem : c.stem = "C" := by decide +kernel
  have hslot : slot [b, a, c, d] 2 = 2 := by decide
  have hslot' : slot [a, b, c, d] 2 = 2 := by decide
  refine ⟨⟨distinct, ordered⟩, ⟨hperm, ordered'⟩, ?_, ?_, units, units', source, hrun, hrun', ?_, ?_⟩
  · rw [hparameters, hchain.unique hlinks]
    decide
  · rw [hparametersD, hchainD.unique hlinksD]
    decide
  · rw [hslot] at hunit
    rw [hunit, ← hstem]
    rfl
  · rw [hslot'] at hunit'
    rw [hunit', ← hstem]
    rfl

end ConstructorSynthesis
