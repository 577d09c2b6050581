import ConstructorSynthesis.Proofs.Blueprint.ParameterNames

/-!
The lists of a blueprint stay in step. Going through the fields of a target, each
field that the constructor has to give a value adds one assignment and one
parameter, and no other field adds any. So behind the parameters that the base
contributes there is one parameter for each assignment, and the number of
assignments is enough to find where the part of the base ends. That holds whatever
the ledger holds, also if the base contributes parameters of the same names, or an
empty list that was recorded.
-/

namespace ConstructorSynthesis

/-- The constructor has to give the field its value. -/
structure TargetField.NeedsValue (f : TargetField) : Prop where
  isReadonly : f.isReadonly = true
  isStatic : f.isStatic = false
  isNameable : f.isNameable = true
  hasInitializer : f.hasInitializer = false

theorem TargetField.isAssigned_iff (f : TargetField) : f.isAssigned = true ↔ f.NeedsValue := by
  constructor
  · intro h
    simp only [isAssigned, Bool.and_eq_true, Bool.not_eq_true'] at h
    obtain ⟨⟨⟨hreadonly, hstatic⟩, hnameable⟩, hinitializer⟩ := h
    exact ⟨hreadonly, hstatic, hnameable, hinitializer⟩
  · rintro ⟨hreadonly, hstatic, hnameable, hinitializer⟩
    simp [isAssigned, hreadonly, hstatic, hnameable, hinitializer]

/-- How the parameter for a field is named: an underscore with something behind it
is dropped, and every other name is kept. -/
inductive NamedAfter : String → String → Prop where
  | dropped {rest : String} (more : rest ≠ "") : NamedAfter ("_" ++ rest) rest
  | kept {name : String} (nothing : ∀ rest, name = "_" ++ rest → rest = "") : NamedAfter name name

theorem namedAfter_parameterName (name : String) : NamedAfter name (parameterName name) := by
  unfold parameterName
  split
  · next c cs hchars =>
      have hname : name = "_" ++ String.ofList (c :: cs) := by
        apply String.toList_inj.mp
        simp [hchars]
      rw [hname]
      exact .dropped (by simp)
  · next hother =>
      apply NamedAfter.kept
      rintro rest rfl
      by_contra more
      obtain ⟨c, cs, hrest⟩ := List.exists_cons_of_ne_nil (String.toList_eq_nil_iff.not.mpr more)
      exact hother c cs (by simp [hrest])

/-- Fields in their order, with the assignments and the parameters that they add. -/
inductive InStep : List TargetField → List Assignment → List Parameter → Prop where
  | nil : InStep [] [] []
  | assigned {f : TargetField} {a : Assignment} {p : Parameter} {fs : List TargetField}
      {as : List Assignment} {ps : List Parameter} (needs : f.NeedsValue)
      (field : a.field = f.name) (typeName : p.typeName = f.typeName)
      (name : p.name = a.parameter) (namedAfter : NamedAfter f.name a.parameter)
      (rest : InStep fs as ps) : InStep (f :: fs) (a :: as) (p :: ps)
  | passedOver {f : TargetField} {fs : List TargetField} {as : List Assignment}
      {ps : List Parameter} (other : ¬ f.NeedsValue) (rest : InStep fs as ps) :
      InStep (f :: fs) as ps

theorem InStep.length_eq {fields : List TargetField} {assignments : List Assignment}
    {parameters : List Parameter} (h : InStep fields assignments parameters) :
    assignments.length = parameters.length := by
  induction h with
  | nil => rfl
  | assigned _ _ _ _ _ _ ih => exact congrArg Nat.succ ih
  | passedOver _ _ ih => exact ih

/-- The parameters that the base contributes, by the rule that they come from. -/
inductive Target.BasePart (t : Target) (ledger : Ledger) : BaseOrigin → List Parameter → Prop where
  | noBase (hbase : t.base = none) : BasePart t ledger .implicit []
  | several {base : BaseType} (hbase : t.base = some base) (many : 2 ≤ base.callees.length) :
      BasePart t ledger .implicit []
  | declared {base : BaseType} {c : Constructor} (hbase : t.base = some base)
      (only : base.callees = [c]) : BasePart t ledger .declared c.parameters
  | recorded {base : BaseType} {parameters : List Parameter} (hbase : t.base = some base)
      (silent : base.callees = []) (settled : ledger.get? base.id = some parameters) :
      BasePart t ledger .recorded parameters
  | unsettled {base : BaseType} (hbase : t.base = some base) (silent : base.callees = [])
      (unknown : ledger.get? base.id = none) : BasePart t ledger .implicit []

namespace Target

variable (t : Target) (ledger : Ledger)

theorem BasePart.eq_nil {t : Target} {ledger : Ledger} {base : List Parameter}
    (h : t.BasePart ledger .implicit base) : base = [] := by
  cases h <;> rfl

theorem basePart_baseRequirement :
    t.BasePart ledger (t.baseRequirement ledger).2 (t.baseRequirement ledger).1 := by
  cases hbase : t.base with
  | none =>
      rw [baseRequirement_of_no_base ledger hbase]
      exact .noBase hbase
  | some base =>
      match hcallees : base.callees with
      | [] =>
          rw [baseRequirement_of_none ledger hbase hcallees]
          cases hledger : ledger.get? base.id with
          | none => exact .unsettled hbase hcallees hledger
          | some parameters => exact .recorded hbase hcallees hledger
      | [c] =>
          rw [baseRequirement_of_one ledger hbase hcallees]
          exact .declared hbase hcallees
      | _ :: _ :: _ =>
          have hseveral : 2 ≤ base.callees.length := by simp [hcallees]
          rw [baseRequirement_of_several ledger hbase hseveral]
          exact .several hbase hseveral

theorem inStep_assignedFields :
    InStep t.fields (t.assignedFields.map TargetField.assignment) t.ownParameters := by
  rw [ownParameters, assignedFields]
  induction t.fields with
  | nil => exact .nil
  | cons f fs ih =>
      cases hassigned : f.isAssigned with
      | false =>
          have hother : ¬ f.NeedsValue := by
            rw [← f.isAssigned_iff, hassigned]
            exact Bool.false_ne_true
          rw [List.filter_cons_of_neg (by simp [hassigned])]
          exact .passedOver hother ih
      | true =>
          rw [List.filter_cons_of_pos hassigned, List.map_cons, List.map_cons]
          exact .assigned (f.isAssigned_iff.mp hassigned) rfl rfl rfl
            (namedAfter_parameterName f.name) ih

theorem draft_baseArguments :
    (t.draft ledger).baseArguments =
      if (t.draft ledger).baseOrigin = .implicit then none
      else some ((t.draft ledger).baseParameters.map Parameter.name) := by
  rw [draft_baseParameters]
  rfl

/-- The parameters of a blueprint are those of the base and then one for each
assignment, which are the fields in their order that need a value. The part of the
base is found by counting, comes from the rule that the origin names, and is passed
on by name, unless nothing is passed on: then it is empty and there is no call. -/
theorem draft_lists_in_step (t : Target) (ledger : Ledger) :
    let plan := Target.draft ledger t
    ∃ base own, plan.parameters = base ++ own ∧ InStep t.fields plan.assignments own ∧
      plan.assignments.length ≤ plan.parameters.length ∧ plan.baseParameters = base ∧
      t.BasePart ledger plan.baseOrigin base ∧
      (plan.baseArguments = none ↔ plan.baseOrigin = .implicit) ∧
      (plan.baseOrigin = .implicit → base = []) ∧
      (plan.baseOrigin ≠ .implicit → plan.baseArguments = some (base.map Parameter.name)) := by
  intro plan
  have hinStep : InStep t.fields plan.assignments t.ownParameters := t.inStep_assignedFields
  have hparameters : plan.parameters = plan.baseParameters ++ t.ownParameters := by
    rw [t.draft_baseParameters, t.draft_parameters]
  have hpart : t.BasePart ledger plan.baseOrigin plan.baseParameters := by
    rw [t.draft_baseParameters, t.draft_baseOrigin]
    exact t.basePart_baseRequirement ledger
  have harguments := t.draft_baseArguments ledger
  refine ⟨plan.baseParameters, t.ownParameters, hparameters, hinStep, ?_, rfl, hpart, ?_, ?_, ?_⟩
  · rw [hparameters, List.length_append, hinStep.length_eq]
    omega
  · rw [harguments]
    simp [plan]
  · intro himplicit
    rw [himplicit] at hpart
    exact hpart.eq_nil
  · intro hpassed
    rw [harguments, if_neg hpassed]

end Target

end ConstructorSynthesis
