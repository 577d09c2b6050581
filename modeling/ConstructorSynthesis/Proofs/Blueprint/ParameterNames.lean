import ConstructorSynthesis.Proofs.Declaration.FirstIssue
import ConstructorSynthesis.Proofs.Generation.UnitNames

/-!
The names of the parameters that a constructor has for its own fields. Dropping one
leading underscore can make two names equal, though in one way only: a name that
has no underscore to drop meets the name with one underscore more. So in a type
that passed the check, whose fields are named and distinct, the parameters are
distinct unless two assigned fields are such a pair, and then both fields are
assigned from the parameters of that one name.
-/

namespace ConstructorSynthesis

/-- There is no underscore to drop: the name is a lone underscore or begins with
another character. -/
def IsBareName (name : String) : Prop :=
  name = "_" ∨ name ≠ "" ∧ name.toList.head? ≠ some '_'

/-- The second name is the first one behind one more underscore, and the first one
has none to drop. -/
def UnderscoreTwins (bare marked : String) : Prop := IsBareName bare ∧ marked = "_" ++ bare

instance (name : String) : Decidable (IsBareName name) :=
  inferInstanceAs (Decidable (name = "_" ∨ name ≠ "" ∧ name.toList.head? ≠ some '_'))

instance (bare marked : String) : Decidable (UnderscoreTwins bare marked) :=
  inferInstanceAs (Decidable (IsBareName bare ∧ marked = "_" ++ bare))

section Names

variable {name rest : String}

theorem parameterName_of_bare (bare : IsBareName name) : parameterName name = name := by
  rcases bare with rfl | ⟨-, hhead⟩
  · rfl
  · unfold parameterName
    split
    · next c cs hchars => simp [hchars] at hhead
    · rfl

theorem parameterName_underscore (more : rest ≠ "") : parameterName ("_" ++ rest) = rest := by
  obtain ⟨c, cs, hrest⟩ := List.exists_cons_of_ne_nil (String.toList_eq_nil_iff.not.mpr more)
  have hchars : ("_" ++ rest).toList = '_' :: c :: cs := by simp [hrest]
  rw [parameterName, hchars]
  change String.ofList (c :: cs) = rest
  rw [← hrest, String.ofList_toList]

/-- A name is bare and stays, or it loses an underscore. -/
theorem bare_or_eq_underscore (named : name ≠ "") :
    IsBareName name ∨ name = "_" ++ parameterName name := by
  obtain ⟨c, cs, hname⟩ := List.exists_cons_of_ne_nil (String.toList_eq_nil_iff.not.mpr named)
  by_cases hmark : c = '_'
  · subst hmark
    have hsplit : name = "_" ++ String.ofList cs := by
      apply String.toList_inj.mp
      simp [hname]
    cases cs with
    | nil => exact .inl (.inl (by simpa using hsplit))
    | cons c cs =>
        right
        rw [hsplit, parameterName_underscore (by simp)]
  · exact .inl (.inr ⟨named, by simpa [hname] using hmark⟩)

theorem UnderscoreTwins.parameterName_eq {bare marked : String}
    (twins : UnderscoreTwins bare marked) : parameterName bare = parameterName marked := by
  obtain ⟨hbare, rfl⟩ := twins
  have hnamed : bare ≠ "" := by
    rintro rfl
    revert hbare
    decide
  rw [parameterName_of_bare hbare, parameterName_underscore hnamed]

theorem UnderscoreTwins.ne {bare marked : String} (twins : UnderscoreTwins bare marked) :
    bare ≠ marked := by
  intro same
  have hlength := congrArg String.length (same.trans twins.2)
  simp at hlength

end Names

/-- Of two different names that are not empty, only twins give the same parameter. -/
theorem parameterName_eq_iff {a b : String} (ha : a ≠ "") (hb : b ≠ "") :
    parameterName a = parameterName b ↔ a = b ∨ UnderscoreTwins a b ∨ UnderscoreTwins b a := by
  constructor
  · intro same
    rcases bare_or_eq_underscore ha with bareA | markedA <;>
      rcases bare_or_eq_underscore hb with bareB | markedB
    · rw [parameterName_of_bare bareA, parameterName_of_bare bareB] at same
      exact .inl same
    · rw [parameterName_of_bare bareA] at same
      exact .inr (.inl ⟨bareA, same ▸ markedB⟩)
    · rw [parameterName_of_bare bareB] at same
      exact .inr (.inr ⟨bareB, same ▸ markedA⟩)
    · exact .inl (by rw [markedA, same, ← markedB])
  · rintro (rfl | twins | twins)
    · rfl
    · exact twins.parameterName_eq
    · exact twins.parameterName_eq.symm

/-- The names of the fields that a target assigns. -/
def Target.assignedNames (t : Target) : List String := t.assignedFields.map TargetField.name

section Accepted

variable {c : Catalog} (accepted : c.check = .ok ()) {d : Declaration} (member : d ∈ c.toList)

include accepted member

/-- The assigned fields of a type that passed the check are named and distinct. -/
theorem assignedNames_of_check :
    (∀ name ∈ (Target.ofDeclaration c d).assignedNames, name ≠ "") ∧
    (Target.ofDeclaration c d).assignedNames.Nodup := by
  have hpasses := (Catalog.checkType_eq_ok_iff c d).mp (Catalog.checkType_of_check accepted member)
  obtain ⟨hnamed, hdistinct⟩ := (fieldIssue?_eq_none_iff_sound d.fields).mp hpasses.1
  have hsublist : (Target.ofDeclaration c d).assignedNames.Sublist (d.fields.map Field.name) := by
    have hfilter : ((d.fields.map TargetField.ofField).filter TargetField.isAssigned).Sublist
        (d.fields.map TargetField.ofField) := List.filter_sublist
    have hnames := hfilter.map TargetField.name
    rw [List.map_map] at hnames
    exact hnames
  refine ⟨?_, hsublist.nodup hdistinct⟩
  intro name hname
  obtain ⟨f, hf, rfl⟩ := List.mem_map.mp (hsublist.subset hname)
  exact hnamed f hf

theorem nodup_parameterNames_iff :
    ((Target.ofDeclaration c d).assignedNames.map parameterName).Nodup ↔
      ∀ a ∈ (Target.ofDeclaration c d).assignedNames,
        ∀ b ∈ (Target.ofDeclaration c d).assignedNames, ¬ UnderscoreTwins a b := by
  obtain ⟨hnamed, hdistinct⟩ := assignedNames_of_check accepted member
  rw [List.nodup_map_iff_inj_on hdistinct]
  constructor
  · intro hinjective a ha b hb twins
    exact twins.ne (hinjective a ha b hb twins.parameterName_eq)
  · intro apart a ha b hb same
    rcases (parameterName_eq_iff (hnamed a ha) (hnamed b hb)).mp same with rfl | twins | twins
    · rfl
    · exact absurd twins (apart a ha b hb)
    · exact absurd twins (apart b hb a ha)

end Accepted

theorem Target.draft_assignments (t : Target) (ledger : Ledger) :
    (t.draft ledger).assignments = t.assignedFields.map TargetField.assignment := rfl

/-- In a catalog that passed the check, let a type be drafted with no parameters but
those of its own fields. Their names are distinct exactly if no two of the assigned
fields are twins. And whatever the names: a field is assigned from the parameter of
another field exactly if the two are twins. -/
theorem parameter_names_distinct_iff {c : Catalog} (accepted : c.check = .ok ())
    {d : Declaration} (member : d ∈ c.toList) (ledger : Ledger)
    (ownOnly : ((Target.ofDeclaration c d).draft ledger).baseParameters = []) :
    let t := Target.ofDeclaration c d
    let plan := t.draft ledger
    ((plan.parameters.map Parameter.name).Nodup ↔
      ∀ f ∈ t.assignedFields, ∀ g ∈ t.assignedFields, ¬ UnderscoreTwins f.name g.name) ∧
    ∀ (i j : Nat) (a b : Assignment),
      plan.assignments[i]? = some a → plan.assignments[j]? = some b →
      ∃ p, plan.parameters[j]? = some p ∧
        (a.parameter = p.name ↔
          i = j ∨ UnderscoreTwins a.field b.field ∨ UnderscoreTwins b.field a.field) := by
  intro t plan
  have hown : plan.parameters = t.assignedFields.map TargetField.parameter := by
    rw [Target.draft_baseParameters] at ownOnly
    rw [Target.draft_parameters, ownOnly]
    rfl
  obtain ⟨hnamed, hdistinct⟩ := assignedNames_of_check accepted member
  constructor
  · have hnames : plan.parameters.map Parameter.name = t.assignedNames.map parameterName := by
      rw [hown, Target.assignedNames, List.map_map, List.map_map]
      rfl
    rw [hnames, nodup_parameterNames_iff accepted member]
    simp [Target.assignedNames, t]
  · intro i j a b ha hb
    rw [Target.draft_assignments, List.getElem?_map, Option.map_eq_some_iff] at ha hb
    obtain ⟨f, hf, rfl⟩ := ha
    obtain ⟨g, hg, rfl⟩ := hb
    refine ⟨g.parameter, by rw [hown, List.getElem?_map, hg]; rfl, ?_⟩
    have hf' : f.name ≠ "" := hnamed _ (List.mem_map_of_mem (List.mem_of_getElem? hf))
    have hg' : g.name ≠ "" := hnamed _ (List.mem_map_of_mem (List.mem_of_getElem? hg))
    have hindex : f.name = g.name ↔ i = j := by
      have hi : t.assignedNames[i]? = some f.name := by simp [Target.assignedNames, t, hf]
      have hj : t.assignedNames[j]? = some g.name := by simp [Target.assignedNames, t, hg]
      constructor
      · intro same
        have hbound : i < t.assignedNames.length := (List.getElem?_eq_some_iff.mp hi).1
        exact (List.getElem?_inj hbound hdistinct).mp (by rw [hi, hj, same])
      · rintro rfl
        exact Option.some.inj (hi.symm.trans hj)
    rw [← hindex]
    exact parameterName_eq_iff hf' hg'

/-- Underscores in front of distinct names, and a field `x` that is not assigned:
the parameters are distinct, and `__y` is not assigned from the one for `_y`. -/
theorem parameter_names_distinct_iff_underscores :
    let field (name : String) (isReadonly : Bool) : Field :=
      ⟨name, "int", isReadonly, false, false, false⟩
    let d := { Declaration.bare none [] "A" [] with
      fields := [field "x" false, field "_x" true, field "_y" true, field "__y" true, field "_" true] }
    let c := Catalog.ofList [d]
    let plan := (Target.ofDeclaration c d).draft .empty
    c.check = .ok () ∧ d ∈ c.toList ∧ plan.baseParameters = [] ∧
      plan.parameters.map Parameter.name = ["x", "y", "_y", "_"] ∧
      (plan.parameters.map Parameter.name).Nodup ∧
      plan.assignments[2]? = some ⟨"__y", "_y"⟩ ∧
      ∃ p : Parameter, plan.parameters[1]? = some p ∧ "_y" ≠ p.name := by
  intro field d c plan
  have accepted : c.check = .ok () := by decide +kernel
  have member : d ∈ c.toList := by simp [c]
  have ownOnly : plan.baseParameters = [] := by decide +kernel
  have apart : ∀ f ∈ (Target.ofDeclaration c d).assignedFields,
      ∀ g ∈ (Target.ofDeclaration c d).assignedFields, ¬ UnderscoreTwins f.name g.name := by
    decide +kernel
  have hfirst : plan.assignments[1]? = some ⟨"_y", "y"⟩ := by decide +kernel
  have hsecond : plan.assignments[2]? = some ⟨"__y", "_y"⟩ := by decide +kernel
  obtain ⟨hnames, hassigned⟩ := parameter_names_distinct_iff accepted member .empty ownOnly
  obtain ⟨p, hp, hown⟩ := hassigned 2 1 _ _ hsecond hfirst
  refine ⟨accepted, member, ownOnly, by decide +kernel, hnames.mpr apart, hsecond, p, hp, ?_⟩
  rw [Ne, hown]
  decide

/-- A type with the fields `x` and `_x` passes the check. Its constructor has two
parameters of the name `x`, and both fields are assigned from that name. -/
theorem twin_fields_share_parameter :
    let d := { Declaration.bare none [] "A" [] with
      fields := [⟨"x", "int", true, false, false, false⟩, ⟨"_x", "string", true, false, false, false⟩] }
    let c := Catalog.ofList [d]
    let plan := (Target.ofDeclaration c d).draft .empty
    c.check = .ok () ∧ d ∈ c.toList ∧ d.requestsConstructor = true ∧ plan.baseParameters = [] ∧
      plan.parameters = [⟨"int", "x"⟩, ⟨"string", "x"⟩] ∧
      plan.assignments = [⟨"x", "x"⟩, ⟨"_x", "x"⟩] ∧
      ¬ (plan.parameters.map Parameter.name).Nodup := by
  decide +kernel

end ConstructorSynthesis
