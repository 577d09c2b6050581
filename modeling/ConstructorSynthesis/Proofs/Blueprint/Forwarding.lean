import ConstructorSynthesis.Generation.Basic
import ConstructorSynthesis.Proofs.Blueprint.Run

/-!
What a target of a run passes on to its base. The rule of a single draft speaks
of the ledger; here it is stated for a whole run in terms of the given list
alone. A base without a constructor that takes arguments supplies parameters
exactly if it is given as a root or before the target, and the first of several
targets of that type in the order of drafting is the one that counts.
-/

namespace ConstructorSynthesis

/-- The constructors of a base to which arguments can be passed on: those that take
arguments and are not static. -/
def BaseType.callees (b : BaseType) : List Constructor :=
  b.constructors.filter fun c => !c.isStatic && !c.parameters.isEmpty

theorem BaseType.isAmbiguous_eq (b : BaseType) :
    b.isAmbiguous = decide (1 < b.callees.length) := rfl

theorem BaseType.callee?_eq (b : BaseType) :
    b.callee? = match b.callees with
      | [c] => some c
      | _ => none := rfl

/-- The parameters that a target adds for its own fields. -/
def Target.ownParameters (t : Target) : List Parameter :=
  t.assignedFields.map TargetField.parameter

section Draft

variable {t : Target} {base : BaseType} (ledger : Ledger)

theorem Target.baseRequirement_of_no_base (hbase : t.base = none) :
    t.baseRequirement ledger = ([], .implicit) := by
  simp [baseRequirement, hbase]

theorem Target.baseRequirement_of_several (hbase : t.base = some base)
    (hseveral : 2 ≤ base.callees.length) :
    t.baseRequirement ledger = ([], .implicit) := by
  have hambiguous : base.isAmbiguous = true := decide_eq_true hseveral
  simp [baseRequirement, hbase, hambiguous]

theorem Target.baseRequirement_of_one {c : Constructor} (hbase : t.base = some base)
    (hone : base.callees = [c]) :
    t.baseRequirement ledger = (c.parameters, .declared) := by
  have hclear : base.isAmbiguous = false := by
    rw [BaseType.isAmbiguous_eq, hone]
    rfl
  have hcallee : base.callee? = some c := by
    rw [BaseType.callee?_eq, hone]
  simp [baseRequirement, hbase, hclear, hcallee]

/-- Without a constructor to call, what is settled for the base decides. -/
theorem Target.baseRequirement_of_none (hbase : t.base = some base)
    (hnone : base.callees = []) :
    t.baseRequirement ledger =
      ((ledger.get? base.id).elim ([], .implicit) fun parameters => (parameters, .recorded)) := by
  have hclear : base.isAmbiguous = false := by
    rw [BaseType.isAmbiguous_eq, hnone]
    rfl
  have hcallee : base.callee? = none := by
    rw [BaseType.callee?_eq, hnone]
  cases hledger : ledger.get? base.id <;> simp [baseRequirement, hbase, hclear, hcallee, hledger]

theorem Target.draft_parameters :
    (t.draft ledger).parameters = (t.baseRequirement ledger).1 ++ t.ownParameters := rfl

theorem Target.draft_baseOrigin :
    (t.draft ledger).baseOrigin = (t.baseRequirement ledger).2 := rfl

theorem Target.draft_baseParameters :
    (t.draft ledger).baseParameters = (t.baseRequirement ledger).1 := by
  simp [Blueprint.baseParameters, draft]

/-- Only the entry of a base without a constructor to call matters to a draft. -/
theorem Target.draft_congr {ledger ledger' : Ledger}
    (same : ∀ base, t.base = some base → base.callees = [] →
      ledger.get? base.id = ledger'.get? base.id) :
    t.draft ledger = t.draft ledger' := by
  have hrequirement : t.baseRequirement ledger = t.baseRequirement ledger' := by
    cases hbase : t.base with
    | none => rw [baseRequirement_of_no_base _ hbase, baseRequirement_of_no_base _ hbase]
    | some base =>
        match hcallees : base.callees with
        | [] =>
            rw [baseRequirement_of_none _ hbase hcallees, baseRequirement_of_none _ hbase hcallees,
              same base hbase hcallees]
        | [c] =>
            rw [baseRequirement_of_one _ hbase hcallees, baseRequirement_of_one _ hbase hcallees]
        | _ :: _ :: _ =>
            have hseveral : 2 ≤ base.callees.length := by simp [hcallees]
            rw [baseRequirement_of_several _ hbase hseveral,
              baseRequirement_of_several _ hbase hseveral]
  simp only [draft, hrequirement]

end Draft

/-- A run that is not cancelled gives one unit for each target, at its slot. -/
theorem generateTargets_of_not_cancelled (settings : Settings) (targets : List Target) :
    ∃ units, generateTargets settings false targets = .ok units ∧
      units.length = targets.length ∧
      ∀ i : Fin targets.length, units[slot targets i]? =
        some ⟨(targets.get i).stem,
          (draftOf targets i).blueprint.render settings (targets.get i)⟩ := by
  refine ⟨(draftAll targets).map (Drafted.unit settings), rfl, ?_, ?_⟩
  · rw [List.length_map, length_draftAll]
  · intro i
    rw [List.getElem?_map, draftAll_getElem?_slot, Option.map_some, Drafted.unit, draftOf_target]

/-- The target given at `j` is of the type `k` and is there when the one given
at `i` is reached: it is a root, or it is given before. -/
def Supplies (targets : List Target) (i : Fin targets.length) (k : TypeId)
    (j : Fin targets.length) : Prop :=
  (targets.get j).id = k ∧ (rootAt targets j = true ∨ j < i)

/-- The first position in the order of drafting that supplies the type `k`. -/
def IsFirstSupplier (targets : List Target) (i : Fin targets.length) (k : TypeId)
    (j : Fin targets.length) : Prop :=
  Supplies targets i k j ∧
    ∀ j', Supplies targets i k j' → j' = j ∨ DraftedBefore targets j j'

/-- A target of the type of the base supplies it exactly if it is drafted before. -/
theorem supplies_iff {targets : List Target} {i j : Fin targets.length} {base : BaseType}
    (hbase : (targets.get i).base = some base) :
    Supplies targets i base.id j ↔
      (targets.get j).id = base.id ∧ DraftedBefore targets j i := by
  have hnotRoot (hid : (targets.get j).id = base.id) : rootAt targets i = false := by
    refine (rootAt_eq_false_iff targets i).mpr ⟨j, ?_⟩
    rw [Target.baseId, hbase, hid]
    rfl
  constructor
  · rintro ⟨hid, hthere⟩
    exact ⟨hid, (draftedBefore_iff_of_not_root (hnotRoot hid)).mpr hthere⟩
  · rintro ⟨hid, before⟩
    exact ⟨hid, (draftedBefore_iff_of_not_root (hnotRoot hid)).mp before⟩

/-- With a supplier at hand the ledger holds the parameters of the first one. -/
theorem get?_ledgerFor_of_supplied {targets : List Target} {i : Fin targets.length}
    {base : BaseType} (hbase : (targets.get i).base = some base)
    (hsupplied : ∃ j, Supplies targets i base.id j) :
    ∃ j, IsFirstSupplier targets i base.id j ∧
      (ledgerFor targets i).get? base.id = some (draftOf targets j).blueprint.parameters := by
  simp only [IsFirstSupplier, supplies_iff hbase] at hsupplied ⊢
  obtain ⟨j, hid, before, hfirst⟩ := exists_first_before hsupplied
  refine ⟨j, ⟨⟨hid, before⟩, ?_⟩, get?_ledgerFor_eq_some hid before hfirst⟩
  rintro j' ⟨hid', -⟩
  rcases draftedBefore_trichotomy targets j j' with later | same | earlier
  · exact Or.inr later
  · exact Or.inl same.symm
  · exact absurd earlier (hfirst j' hid')

theorem get?_ledgerFor_of_not_supplied {targets : List Target} {i : Fin targets.length}
    {base : BaseType} (hbase : (targets.get i).base = some base)
    (hmissing : ¬ ∃ j, Supplies targets i base.id j) :
    (ledgerFor targets i).get? base.id = none := by
  apply get?_ledgerFor_eq_none
  intro j hid before
  exact hmissing ⟨j, (supplies_iff hbase).mpr ⟨hid, before⟩⟩

/-- The rule of a whole run that is not cancelled. The run gives one unit for
each target, at its slot; the blueprint behind that unit passes on nothing, the
parameters of the only constructor to call, or what the first supplier of the
base was drafted with, as the base and the given list demand. -/
theorem run_forwards_by_rule (settings : Settings) (targets : List Target)
    (i : Fin targets.length) :
    let t := targets.get i
    let plan := (draftOf targets i).blueprint
    (∃ units, generateTargets settings false targets = .ok units ∧
      units.length = targets.length ∧
      units[slot targets i]? = some ⟨t.stem, plan.render settings t⟩) ∧
    (t.base = none → plan.baseOrigin = .implicit ∧ plan.baseParameters = []) ∧
    ∀ base, t.base = some base →
      (2 ≤ base.callees.length → plan.baseOrigin = .implicit ∧ plan.baseParameters = []) ∧
      (∀ c, base.callees = [c] →
        plan.baseOrigin = .declared ∧ plan.baseParameters = c.parameters) ∧
      (base.callees = [] →
        (plan.baseOrigin = .recorded ↔ ∃ j, Supplies targets i base.id j) ∧
        ((∃ j, Supplies targets i base.id j) →
          ∃ j, IsFirstSupplier targets i base.id j ∧
            plan.baseParameters = (draftOf targets j).blueprint.parameters) ∧
        ((¬ ∃ j, Supplies targets i base.id j) →
          plan.baseOrigin = .implicit ∧ plan.baseParameters = [])) := by
  intro t plan
  have hplan : plan = t.draft (ledgerFor targets i) := draftOf_blueprint targets i
  obtain ⟨units, hrun, hlength, hunits⟩ := generateTargets_of_not_cancelled settings targets
  refine ⟨⟨units, hrun, hlength, hunits i⟩, ?_, ?_⟩
  · intro hbase
    rw [hplan, Target.draft_baseOrigin, Target.draft_baseParameters,
      Target.baseRequirement_of_no_base _ hbase]
    exact ⟨rfl, rfl⟩
  · intro base hbase
    rw [hplan, Target.draft_baseOrigin, Target.draft_baseParameters]
    refine ⟨?_, ?_, ?_⟩
    · intro hseveral
      rw [Target.baseRequirement_of_several _ hbase hseveral]
      exact ⟨rfl, rfl⟩
    · intro c hone
      rw [Target.baseRequirement_of_one _ hbase hone]
      exact ⟨rfl, rfl⟩
    · intro hnone
      rw [Target.baseRequirement_of_none _ hbase hnone]
      by_cases hsupplied : ∃ j, Supplies targets i base.id j
      · obtain ⟨j, hfirst, hledger⟩ := get?_ledgerFor_of_supplied hbase hsupplied
        rw [hledger]
        exact ⟨iff_of_true rfl hsupplied, fun _ => ⟨j, hfirst, rfl⟩, fun h => absurd hsupplied h⟩
      · rw [get?_ledgerFor_of_not_supplied hbase hsupplied]
        exact ⟨iff_of_false (by simp) hsupplied, fun h => absurd h hsupplied, fun _ => ⟨rfl, rfl⟩⟩

/-- A target with one field of type `int`, whose base declares no constructors. -/
def Target.withField (name field : String) (base : Option String) : Target where
  id := ⟨name⟩
  name := name
  kind := .classType
  inNamespace := none
  enclosing := []
  typeParams := []
  base := base.map fun b => ⟨⟨b⟩, []⟩
  fields := [⟨field, "int", true, false, true, false⟩]

/-- The same target, extending a base that declares these constructors. -/
def Target.extending (t : Target) (base : String) (constructors : List Constructor) : Target :=
  { t with base := some ⟨⟨base⟩, constructors⟩ }

/-- Constructors that differ in whether arguments can be passed on to them. -/
def Constructor.silent : Constructor := ⟨false, []⟩

def Constructor.shared : Constructor := ⟨true, [⟨"int", "count"⟩]⟩

def Constructor.seeded : Constructor := ⟨false, [⟨"int", "seed"⟩]⟩

-- Targets that extend `A` with none, one and two constructors to call there.
example :
    let targets := [(Target.withField "B" "_b" none).extending "A" [.silent, .shared],
      (Target.withField "C" "_c" none).extending "A" [.silent, .shared, .seeded],
      (Target.withField "D" "_d" none).extending "A" [.seeded, .shared, .seeded],
      Target.withField "A" "_a" none]
    (draftAll targets).map (fun d =>
        (d.target.name, d.blueprint.baseOrigin, d.blueprint.parameters.map Parameter.name)) =
      [("A", .implicit, ["a"]), ("B", .recorded, ["a", "b"]), ("C", .declared, ["seed", "c"]),
        ("D", .implicit, ["d"])] := by
  decide +kernel

end ConstructorSynthesis
