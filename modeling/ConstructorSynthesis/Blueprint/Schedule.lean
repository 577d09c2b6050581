import ConstructorSynthesis.Blueprint.Basic

/-!
Drawing up the constructors of several targets. Targets without a base among the
given ones come first, then the others, both in the order in which they are
given. The parameters of each target are settled as soon as it is drafted, so a
target that comes behind its base passes on what the base was drafted with.
-/

namespace ConstructorSynthesis

/-- The base of the target, if it has one, is not among the given targets. -/
def isRoot (targets : List Target) (t : Target) : Bool :=
  match t.baseId with
  | none => true
  | some base => !targets.any (·.id == base)

/-- The roots and the other targets, each in the given order. -/
def splitRoots (targets : List Target) : List Target × List Target :=
  targets.partition (isRoot targets)

/-- The order in which the targets are drafted. -/
def schedule (targets : List Target) : List Target :=
  (splitRoots targets).1 ++ (splitRoots targets).2

/-- A target with the blueprint that it got. -/
structure Drafted where
  target : Target
  blueprint : Blueprint
  /-- The type had no entry in the ledger before. -/
  isNew : Bool
deriving DecidableEq, Repr

/-- Drafts the targets one after the other, each with what is settled so far. -/
def draftInOrder (ledger : Ledger) : List Target → List Drafted
  | [] => []
  | t :: ts =>
      let blueprint := t.draft ledger
      let (isNew, ledger) := ledger.record t.id blueprint.parameters
      ⟨t, blueprint, isNew⟩ :: draftInOrder ledger ts

def draftAll (targets : List Target) : List Drafted :=
  draftInOrder .empty (schedule targets)

end ConstructorSynthesis
