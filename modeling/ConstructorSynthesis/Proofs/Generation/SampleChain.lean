import ConstructorSynthesis.Generation.Sample
import ConstructorSynthesis.Proofs.Blueprint.ParameterNames
import ConstructorSynthesis.Proofs.Declaration.BaseWalk
import ConstructorSynthesis.Proofs.Declaration.FirstIssue
import ConstructorSynthesis.Proofs.Declaration.Normalization
import ConstructorSynthesis.Proofs.Generation.Outcome
import ConstructorSynthesis.Proofs.Generation.UnitNames

/-!
The chain of sample types, from its declarations to its units. The levels of the chain
are counted from the type without a base, and each type above it derives from the one
below. Different numbers are written differently, so the levels are different types.
From each of them bases lead down through all levels below and out of the catalog, so
no walk loops. Only the lowest level is a root, so the types are drafted in the order
of the chain, and what the run keeps is that the ledger holds exactly the levels below
the one that comes next. So every level finds what it has to pass on, and the
parameters pile up from level to level.
-/

namespace ConstructorSynthesis

/-- A plain name is the name of the unit as it is. -/
theorem Target.stem_of_plain {t : Target} (plain : IsReferenceName t.fullName) :
    t.stem = t.fullName := by
  have hkept : ∀ c ∈ t.fullName.toList, stemChar? c = some c := by
    intro c member
    obtain ⟨hopening, hclosing, hspace⟩ := plain c member
    have hblank : c ≠ ' ' := by
      rintro rfl
      cases hspace
    simp [stemChar?, hopening, hclosing, hblank]
  apply String.toList_inj.mp
  rw [Target.toList_stem, List.filterMap_congr hkept, List.filterMap_some]

namespace Sample

/-- Texts that differ only in the number behind them differ. -/
theorem numbered_injective (front : String) :
    Function.Injective fun n : Nat => front ++ Nat.repr n := by
  intro m n same
  have hlists : front.toList ++ (Nat.repr m).toList = front.toList ++ (Nat.repr n).toList := by
    rw [← String.toList_append, ← String.toList_append]
    exact congrArg String.toList same
  have hdigits : Nat.toDigits 10 m = Nat.toDigits 10 n := by
    rw [← Nat.toList_repr, ← Nat.toList_repr]
    exact List.append_cancel_left hlists
  have hvalues := congrArg (fun digits => Nat.ofDigitChars 10 digits 0) hdigits
  simpa using hvalues

theorem numbered_ne_empty (front : String) (n : Nat) : front ++ Nat.repr n ≠ "" := by
  intro hempty
  exact Nat.repr_ne_empty (String.append_eq_empty_iff.mp hempty).2

/-- The type at the given level of the chain. -/
def chainType (fields level : Nat) : Declaration :=
  sampleType (chainName level) (chainBase level) fields

def chainId (level : Nat) : TypeId := ⟨"Bench." ++ chainName level⟩

theorem bench_chainName (level : Nat) :
    "Bench." ++ chainName level = "Bench.Deep" ++ Nat.repr level := by
  rw [chainName, ← String.append_assoc]
  rfl

theorem chainId_injective : Function.Injective chainId := by
  intro m n same
  have htext : "Bench." ++ chainName m = "Bench." ++ chainName n := congrArg TypeId.text same
  rw [bench_chainName, bench_chainName] at htext
  exact numbered_injective "Bench.Deep" htext

theorem dottedPath_bench (name : String) : dottedPath (some "Bench") [] name = "Bench." ++ name := by
  apply String.toList_inj.mp
  simp [dottedPath]

theorem id_chainType (fields level : Nat) : (chainType fields level).id = chainId level := by
  have hsegment : idSegment (chainName level) [] = chainName level := by
    simp [idSegment, TypeId.arityMark]
  have hid : (chainType fields level).id =
      ⟨dottedPath (some "Bench") [] (idSegment (chainName level) [])⟩ := rfl
  rw [hid, hsegment, dottedPath_bench]
  rfl

theorem toList_chainCatalog (depth fields : Nat) :
    (chainCatalog depth fields).toList = (List.range depth).map (chainType fields) :=
  Catalog.toList_ofList _

theorem nodup_map_chainId {levels : List Nat} (h : levels.Nodup) : (levels.map chainId).Nodup :=
  h.map chainId_injective

theorem map_id_chainType (fields : Nat) (levels : List Nat) :
    (levels.map (chainType fields)).map Declaration.id = levels.map chainId := by
  rw [List.map_map]
  exact List.map_congr_left fun level _ => id_chainType fields level

section Check

variable {depth fields : Nat}

theorem distinct_chainCatalog :
    ((chainCatalog depth fields).toList.map Declaration.id).Nodup := by
  rw [toList_chainCatalog, map_id_chainType]
  exact nodup_map_chainId List.nodup_range

theorem get?_chainId {level : Nat} (h : level < depth) :
    (chainCatalog depth fields).get? (chainId level) = some (chainType fields level) := by
  have hmember : chainType fields level ∈ (chainCatalog depth fields).toList := by
    rw [toList_chainCatalog]
    exact List.mem_map_of_mem (List.mem_range.mpr h)
  rw [← id_chainType fields level]
  exact Catalog.get?_id_of_mem distinct_chainCatalog hmember

/-- From a level of the chain, bases lead down through all lower levels. -/
theorem leadsOut_chainBase {level : Nat} (h : level ≤ depth) :
    (chainCatalog depth fields).LeadsOut (chainBase level)
      ((List.range level).reverse.map chainId) := by
  induction level with
  | zero => exact .noBase
  | succ level ih =>
      rw [List.range_succ, List.reverse_append, List.reverse_singleton, List.singleton_append,
        List.map_cons]
      exact .declared (get?_chainId h) (ih (by omega))

theorem baseWalk_chainType {level : Nat} (h : level < depth) :
    (chainCatalog depth fields).baseWalk (chainType fields level) =
      ⟨(List.range (level + 1)).reverse.map chainId, false⟩ := by
  have hpath : (List.range (level + 1)).reverse.map chainId =
      [chainId level] ++ (List.range level).reverse.map chainId := by
    rw [List.range_succ, List.reverse_append]
    rfl
  have hdistinct := nodup_map_chainId (List.nodup_reverse.mpr (List.nodup_range (n := level + 1)))
  rw [hpath] at hdistinct ⊢
  rw [Catalog.baseWalk, id_chainType]
  exact (chainCatalog depth fields).followBases_of_leadsOut (leadsOut_chainBase (by omega))
    hdistinct

theorem fieldIssue?_chainType (fields level : Nat) :
    fieldIssue? [] (chainType fields level).fields = none := by
  have hfields : (chainType fields level).fields = (List.range fields).map sampleField := rfl
  have hnames : ((List.range fields).map sampleField).map Field.name =
      (List.range fields).map fun i => "_f" ++ Nat.repr i := by
    rw [List.map_map]
    rfl
  rw [fieldIssue?_eq_none_iff_sound, hfields]
  constructor
  · intro f member
    obtain ⟨i, -, rfl⟩ := List.mem_map.mp member
    exact numbered_ne_empty "_f" i
  · rw [hnames]
    exact List.nodup_range.map (numbered_injective "_f")

theorem check_chainCatalog (depth fields : Nat) : (chainCatalog depth fields).check = .ok () := by
  have hrepeated : repeatedId? [] (chainCatalog depth fields).toList = none :=
    (repeatedId?_eq_none_iff [] _).mpr ⟨by simp, distinct_chainCatalog⟩
  simp only [Catalog.check, hrepeated]
  rw [Catalog.forM_checkType_eq_ok_iff]
  intro d member
  rw [toList_chainCatalog] at member
  obtain ⟨level, hlevel, rfl⟩ := List.mem_map.mp member
  rw [Catalog.checkType_eq_ok_iff, baseWalk_chainType (List.mem_range.mp hlevel)]
  exact ⟨fieldIssue?_chainType fields level, rfl⟩

end Check

section Targets

def chainField (index : Nat) : TargetField where
  name := "_f" ++ Nat.repr index
  typeName := "int"
  isReadonly := true
  isStatic := false
  isNameable := true
  hasInitializer := false

/-- The target that the type at the given level becomes. -/
def chainTarget (fields level : Nat) : Target where
  id := chainId level
  name := chainName level
  kind := .classType
  inNamespace := some "Bench"
  enclosing := []
  typeParams := []
  base := (chainBase level).map fun k => ⟨k, []⟩
  fields := (List.range fields).map chainField

variable {depth fields : Nat}

theorem ofCatalog_chainCatalog (k : TypeId) :
    BaseType.ofCatalog (chainCatalog depth fields) k = ⟨k, []⟩ := by
  rw [BaseType.ofCatalog]
  cases hfound : (chainCatalog depth fields).get? k with
  | none => rfl
  | some d =>
      have member := (Catalog.mem_of_get? hfound).1
      rw [toList_chainCatalog] at member
      obtain ⟨level, -, rfl⟩ := List.mem_map.mp member
      rfl

theorem ofDeclaration_chainType (level : Nat) :
    Target.ofDeclaration (chainCatalog depth fields) (chainType fields level) =
      chainTarget fields level := by
  have hbase : (chainType fields level).base.map (BaseType.ofCatalog (chainCatalog depth fields)) =
      (chainBase level).map fun k => ⟨k, []⟩ :=
    congrArg (fun f => (chainBase level).map f) (funext ofCatalog_chainCatalog)
  have hfields : (chainType fields level).fields.map TargetField.ofField =
      (List.range fields).map chainField := List.map_map
  rw [Target.ofDeclaration, hbase, hfields, id_chainType]
  rfl

theorem targets_chainCatalog (depth fields : Nat) :
    (chainCatalog depth fields).targets = (List.range depth).map (chainTarget fields) := by
  have hasking : (chainCatalog depth fields).toList.filter Declaration.requestsConstructor =
      (chainCatalog depth fields).toList := by
    rw [List.filter_eq_self, toList_chainCatalog]
    intro d member
    obtain ⟨level, -, rfl⟩ := List.mem_map.mp member
    rfl
  rw [Catalog.targets, hasking, firstOfEachId_of_distinct (by simp) distinct_chainCatalog,
    toList_chainCatalog, List.map_map]
  exact List.map_congr_left fun level _ => ofDeclaration_chainType level

theorem isRoot_above {targets : List Target} {level : Nat}
    (given : chainTarget fields level ∈ targets) :
    isRoot targets (chainTarget fields (level + 1)) = false := by
  have hany : targets.any (·.id == chainId level) = true :=
    List.any_eq_true.mpr ⟨chainTarget fields level, given, beq_self_eq_true _⟩
  change (!targets.any (·.id == chainId level)) = false
  rw [hany]
  rfl

theorem schedule_chain (depth fields : Nat) :
    schedule ((List.range depth).map (chainTarget fields)) =
      (List.range depth).map (chainTarget fields) := by
  cases depth with
  | zero => rfl
  | succ depth =>
      have hsplit : (List.range (depth + 1)).map (chainTarget fields) =
          chainTarget fields 0 :: (List.range depth).map fun n => chainTarget fields (n + 1) := by
        rw [List.range_succ_eq_map, List.map_cons, List.map_map]
        rfl
      have habove : ∀ t ∈ (List.range depth).map fun n => chainTarget fields (n + 1),
          isRoot ((List.range (depth + 1)).map (chainTarget fields)) t = false := by
        intro t member
        obtain ⟨n, hn, rfl⟩ := List.mem_map.mp member
        have hbelow : n < depth + 1 := Nat.lt_succ_of_lt (List.mem_range.mp hn)
        exact isRoot_above (List.mem_map_of_mem (List.mem_range.mpr hbelow))
      rw [hsplit] at habove ⊢
      exact schedule_of_only_root rfl habove

end Targets

section Run

def levelParameters (fields : Nat) : List Parameter :=
  (List.range fields).map fun i => ⟨"int", "f" ++ Nat.repr i⟩

/-- The parameters of so many levels on top of each other. -/
def stackedParameters (fields levels : Nat) : List Parameter :=
  (List.replicate levels (levelParameters fields)).flatten

theorem stackedParameters_succ (fields levels : Nat) :
    stackedParameters fields (levels + 1) =
      stackedParameters fields levels ++ levelParameters fields := by
  simp [stackedParameters, List.replicate_succ']

/-- The blueprint of the type at the given level. -/
def chainPlan (fields level : Nat) : Blueprint where
  parameters := stackedParameters fields (level + 1)
  baseArguments :=
    if level = 0 then none else some ((stackedParameters fields level).map Parameter.name)
  baseOrigin := if level = 0 then .implicit else .recorded
  assignments := (List.range fields).map fun i => ⟨"_f" ++ Nat.repr i, "f" ++ Nat.repr i⟩

theorem parameters_chainPlan (fields level : Nat) :
    (chainPlan fields level).parameters = stackedParameters fields (level + 1) := rfl

/-- The ledger holds the parameters of the levels below, and nothing for the others. -/
def HoldsBelow (fields level : Nat) (ledger : Ledger) : Prop :=
  ∀ n, ledger.get? (chainId n) =
    if n < level then some (stackedParameters fields (n + 1)) else none

theorem holdsBelow_empty (fields : Nat) : HoldsBelow fields 0 .empty := by
  intro n
  rw [Ledger.get?_empty, if_neg (Nat.not_lt_zero n)]

theorem parameterName_numbered (index : Nat) :
    parameterName ("_f" ++ Nat.repr index) = "f" ++ Nat.repr index := by
  have hsplit : "_f" ++ Nat.repr index = "_" ++ ("f" ++ Nat.repr index) := by
    rw [← String.append_assoc]
    rfl
  rw [hsplit, parameterName_underscore (numbered_ne_empty "f" index)]

theorem assignedFields_chainTarget (fields level : Nat) :
    (chainTarget fields level).assignedFields = (List.range fields).map chainField := by
  apply List.filter_eq_self.mpr
  intro f member
  obtain ⟨i, -, rfl⟩ := List.mem_map.mp member
  rfl

variable {fields level : Nat} {ledger : Ledger}

theorem baseRequirement_chainTarget (h : HoldsBelow fields level ledger) :
    (chainTarget fields level).baseRequirement ledger =
      (stackedParameters fields level, if level = 0 then .implicit else .recorded) := by
  cases level with
  | zero => exact Target.baseRequirement_of_no_base ledger rfl
  | succ level =>
      have hbase : (chainTarget fields (level + 1)).base = some ⟨chainId level, []⟩ := rfl
      rw [Target.baseRequirement_of_none ledger hbase rfl, h level, if_pos (Nat.lt_succ_self level)]
      rfl

theorem draft_chainTarget (h : HoldsBelow fields level ledger) :
    (chainTarget fields level).draft ledger = chainPlan fields level := by
  have hown : (chainTarget fields level).assignedFields.map TargetField.parameter =
      levelParameters fields := by
    rw [assignedFields_chainTarget, List.map_map]
    refine List.map_congr_left fun i _ => ?_
    exact congrArg (Parameter.mk "int") (parameterName_numbered i)
  have hassigned : (chainTarget fields level).assignedFields.map TargetField.assignment =
      (chainPlan fields level).assignments := by
    rw [assignedFields_chainTarget, List.map_map]
    refine List.map_congr_left fun i _ => ?_
    exact congrArg (Assignment.mk _) (parameterName_numbered i)
  simp only [Target.draft, baseRequirement_chainTarget h, hown, hassigned,
    ← stackedParameters_succ]
  cases level with
  | zero => rfl
  | succ level => rfl

theorem HoldsBelow.record (h : HoldsBelow fields level ledger) :
    HoldsBelow fields (level + 1)
      (ledger.record (chainId level) (stackedParameters fields (level + 1))).2 := by
  intro n
  rw [Ledger.get?_record, h n]
  by_cases same : level = n
  · subst same
    simp
  · have hother : chainId level ≠ chainId n := fun hid => same (chainId_injective hid)
    have hbelow : n < level + 1 ↔ n < level := by omega
    simp only [if_neg hother, hbelow]

/-- A run over the levels from one on, with what the levels below have settled. -/
theorem draftInOrder_chain (h : HoldsBelow fields level ledger) (count : Nat) :
    draftInOrder ledger ((List.range' level count).map (chainTarget fields)) =
      (List.range' level count).map fun n => ⟨chainTarget fields n, chainPlan fields n, true⟩ := by
  induction count generalizing level ledger with
  | zero => rfl
  | succ count ih =>
      -- The ledger knows no level that still comes, so every entry is new.
      have hnew : ledger.get? (chainId level) = none := by
        rw [h level, if_neg (Nat.lt_irrefl level)]
      have hid : (chainTarget fields level).id = chainId level := rfl
      rw [List.range'_succ, List.map_cons, List.map_cons, draftInOrder_cons, draft_chainTarget h]
      simp only [hid, hnew, parameters_chainPlan]
      rw [ih h.record]
      rfl

theorem draftAll_chain (depth fields : Nat) :
    draftAll ((List.range depth).map (chainTarget fields)) =
      (List.range depth).map fun n => ⟨chainTarget fields n, chainPlan fields n, true⟩ := by
  rw [draftAll, schedule_chain, List.range_eq_range']
  exact draftInOrder_chain (holdsBelow_empty fields) depth

end Run

section Units

theorem stem_chainTarget (fields level : Nat) :
    (chainTarget fields level).stem = "Bench.Deep" ++ Nat.repr level := by
  have hname : (chainTarget fields level).fullName = "Bench.Deep" ++ Nat.repr level := by
    have hpath : (chainTarget fields level).fullName =
        dottedPath (some "Bench") [] (chainName level) := rfl
    rw [hpath, dottedPath_bench, bench_chainName]
  have hplain : IsReferenceName (chainTarget fields level).fullName := by
    rw [hname]
    exact isReferenceName_append.mpr ⟨by decide, isReferenceName_repr level⟩
  rw [Target.stem_of_plain hplain, hname]

theorem length_stackedParameters (fields levels : Nat) :
    (stackedParameters fields levels).length = levels * fields := by
  simp [stackedParameters, levelParameters]

/-- The parameters of a blueprint for the given level: one for each field of each level
up to it, the lowest level first. All but those of the last level go to the base. -/
structure IsLevelPlan (fields level : Nat) (plan : Blueprint) : Prop where
  count : plan.parameters.length = (level + 1) * fields
  typeNames : ∀ p ∈ plan.parameters, p.typeName = "int"
  names : plan.parameters.map Parameter.name =
    (List.replicate (level + 1) ((List.range fields).map fun i => "f" ++ Nat.repr i)).flatten
  noCall : level = 0 → plan.baseArguments = none
  call : 0 < level →
    plan.baseArguments = some ((plan.parameters.take (level * fields)).map Parameter.name)

theorem isLevelPlan_chainPlan (fields level : Nat) :
    IsLevelPlan fields level (chainPlan fields level) where
  count := length_stackedParameters fields (level + 1)
  typeNames := by
    intro p member
    obtain ⟨parameters, hlevel, hp⟩ := List.mem_flatten.mp member
    rw [List.eq_of_mem_replicate hlevel] at hp
    obtain ⟨i, -, rfl⟩ := List.mem_map.mp hp
    rfl
  names := by
    have hlevel : (levelParameters fields).map Parameter.name =
        (List.range fields).map fun i => "f" ++ Nat.repr i := List.map_map
    rw [parameters_chainPlan, stackedParameters, List.map_flatten, List.map_replicate, hlevel]
  noCall := fun lowest => if_pos lowest
  call := by
    intro above
    have hbase : (chainPlan fields level).parameters.take (level * fields) =
        stackedParameters fields level := by
      rw [parameters_chainPlan, stackedParameters_succ]
      exact List.take_left' (length_stackedParameters fields level)
    rw [hbase]
    exact if_neg (by omega)

end Units

/-- The chain of any depth, with any number of fields, passes the check. Generation
gives one unit for each level, in the order of the levels and named after the type;
its source is written from the blueprint that the run drafted for the level. -/
theorem generate_chainCatalog (depth fields : Nat) :
    (chainCatalog depth fields).check = .ok () ∧
    ∃ units, generate .default false (chainCatalog depth fields) = .ok units ∧
      units.length = depth ∧
      ∀ level < depth, ∃ plan, IsLevelPlan fields level plan ∧
        (draftAll (chainCatalog depth fields).targets)[level]? =
          some ⟨chainTarget fields level, plan, true⟩ ∧
        units[level]? = some ⟨"Bench.Deep" ++ Nat.repr level,
          plan.render .default (chainTarget fields level)⟩ := by
  have hcheck := check_chainCatalog depth fields
  have hdrafts : draftAll (chainCatalog depth fields).targets =
      (List.range depth).map fun n => ⟨chainTarget fields n, chainPlan fields n, true⟩ := by
    rw [targets_chainCatalog, draftAll_chain]
  refine ⟨hcheck, (draftAll (chainCatalog depth fields).targets).map (Drafted.unit .default),
    ?_, ?_, ?_⟩
  · rw [generate_of_passes fun _ => hcheck]
    rfl
  · rw [hdrafts, List.length_map, List.length_map, List.length_range]
  · intro level hlevel
    have hdraft : (draftAll (chainCatalog depth fields).targets)[level]? =
        some ⟨chainTarget fields level, chainPlan fields level, true⟩ := by
      rw [hdrafts, List.getElem?_map, List.getElem?_range hlevel]
      rfl
    refine ⟨chainPlan fields level, isLevelPlan_chainPlan fields level, hdraft, ?_⟩
    rw [List.getElem?_map, hdraft, Option.map_some, Drafted.unit, stem_chainTarget]

end Sample

end ConstructorSynthesis
