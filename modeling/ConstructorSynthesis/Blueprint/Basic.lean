import Std.Data.TreeMap
import ConstructorSynthesis.Blueprint.Target

/-!
The blueprint of one constructor: its parameters, what it passes on to the base
and which fields it assigns. The parameters of the base come from the only
constructor that the base declares with arguments, or else from the blueprint
drawn up for the base before. A base with several such constructors gets nothing
passed on.
-/

namespace ConstructorSynthesis

/-- The parameters settled so far, by type. An entry is written once. -/
structure Ledger where
  entries : Std.TreeMap TypeId (List Parameter)

namespace Ledger

def empty : Ledger := ⟨{}⟩

instance : Inhabited Ledger := ⟨empty⟩

def get? (m : Ledger) (k : TypeId) : Option (List Parameter) := m.entries[k]?

/-- Records the parameters of a type, unless the type has an entry already, and
tells whether they were recorded. -/
def record (m : Ledger) (k : TypeId) (parameters : List Parameter) : Bool × Ledger :=
  let (known, entries) := m.entries.containsThenInsertIfNew k parameters
  (!known, ⟨entries⟩)

def size (m : Ledger) : Nat := m.entries.size

def isEmpty (m : Ledger) : Bool := m.entries.isEmpty

@[simp]
theorem get?_empty (k : TypeId) : empty.get? k = none := by
  simp [get?, empty]

theorem record_fst (m : Ledger) (k : TypeId) (parameters : List Parameter) :
    (m.record k parameters).1 = (m.get? k).isNone := by
  simp [record, get?, ← Option.not_isSome]

theorem get?_record (m : Ledger) (k a : TypeId) (parameters : List Parameter) :
    (m.record k parameters).2.get? a =
      if k = a then (m.get? a).or (some parameters) else m.get? a := by
  simp only [get?, record, Std.TreeMap.containsThenInsertIfNew_snd,
    Std.TreeMap.getElem?_insertIfNew, Std.LawfulEqCmp.compare_eq_iff_eq]
  by_cases same : k = a
  · subst same
    by_cases known : k ∈ m.entries <;> simp [known]
  · simp [same]

end Ledger

/-- Where the parameters that are passed on come from. -/
inductive BaseOrigin where
  | declared
  | recorded
  | implicit
deriving DecidableEq, Repr, Inhabited

structure Assignment where
  field : String
  parameter : String
deriving DecidableEq, Repr, Inhabited

structure Blueprint where
  parameters : List Parameter
  /-- The arguments of the call to the base; with none there is no call. -/
  baseArguments : Option (List String)
  baseOrigin : BaseOrigin
  assignments : List Assignment
deriving DecidableEq, Repr, Inhabited

/-- The parameters that stand before those of the assigned fields. -/
def Blueprint.baseParameters (b : Blueprint) : List Parameter :=
  b.parameters.take (b.parameters.length - b.assignments.length)

/-- The parameter name for a field: one leading underscore is dropped if
something follows it. -/
def parameterName (field : String) : String :=
  match field.toList with
  | '_' :: c :: cs => String.ofList (c :: cs)
  | _ => field

/-- The parameters to pass on to the base, and where they come from. -/
def Target.baseRequirement (ledger : Ledger) (t : Target) : List Parameter × BaseOrigin :=
  match t.base with
  | none => ([], .implicit)
  | some base =>
      if base.isAmbiguous then ([], .implicit)
      else
        match base.callee? with
        | some c => (c.parameters, .declared)
        | none =>
            match ledger.get? base.id with
            | some parameters => (parameters, .recorded)
            | none => ([], .implicit)

def TargetField.assignment (f : TargetField) : Assignment := ⟨f.name, parameterName f.name⟩

def TargetField.parameter (f : TargetField) : Parameter := ⟨f.typeName, parameterName f.name⟩

/-- The blueprint of a target, given what is settled for other types. -/
def Target.draft (ledger : Ledger) (t : Target) : Blueprint :=
  let (base, origin) := t.baseRequirement ledger
  { parameters := base ++ t.assignedFields.map TargetField.parameter
    baseArguments := if origin = .implicit then none else some (base.map Parameter.name)
    baseOrigin := origin
    assignments := t.assignedFields.map TargetField.assignment }

end ConstructorSynthesis
