import ConstructorSynthesis.Generation.Basic
import ConstructorSynthesis.Log

/-!
What generation logs, step by step: reading, selecting, drafting and the end of
a run. The entries follow from the values that the steps work on.
-/

namespace ConstructorSynthesis.Trace

def read : Except Document.Error Catalog → List LogEntry
  | .error _ => []
  | .ok c =>
      [⟨.debug, "autoctor_model::parser",
        "parsed " ++ Nat.repr c.size ++ " type declarations"⟩]

def selectionChannel : String := "autoctor_model::collector"

def selection (c : Catalog) : List LogEntry :=
  c.targets.map (fun t => ⟨.trace, selectionChannel, "collected " ++ t.id.text⟩)
    ++ [⟨.debug, selectionChannel,
        "collected " ++ Nat.repr c.targets.length ++ " of " ++ Nat.repr c.size
          ++ " declarations"⟩]

def draftChannel : String := "autoctor_codegen::plan"

/-- Drafting tells of a base that could be called in several ways. -/
def draft (t : Target) : List LogEntry :=
  match t.base with
  | none => []
  | some base =>
      if base.isAmbiguous then
        [⟨.debug, draftChannel,
          t.id.text ++ " has several base constructors on " ++ base.id.text
            ++ ", not forwarding"⟩]
      else []

/-- Recording tells of a type that has an entry already. -/
def record (isNew : Bool) (type : TypeId) : List LogEntry :=
  if isNew then []
  else [⟨.warn, draftChannel, "parameter list for " ++ type.text ++ " already recorded"⟩]

def originLabel : BaseOrigin → String
  | .declared => "DeclaredConstructor"
  | .recorded => "Memoized"
  | .implicit => "Implicit"

def scheduleChannel : String := "autoctor_codegen::synthesizer"

def drafted (d : Drafted) : List LogEntry :=
  draft d.target
    ++ [⟨.trace, scheduleChannel,
        d.target.id.text ++ ": " ++ Nat.repr d.blueprint.parameters.length
          ++ " parameters, base " ++ originLabel d.blueprint.baseOrigin⟩]
    ++ record d.isNew d.target.id

def targets (cancelled : Bool) (ts : List Target) : List LogEntry :=
  let (roots, extended) := splitRoots ts
  ⟨.debug, scheduleChannel,
      "synthesizing " ++ Nat.repr ts.length ++ " types (" ++ Nat.repr roots.length
        ++ " roots, " ++ Nat.repr extended.length ++ " extended)"⟩
    :: if cancelled && !ts.isEmpty then
        [⟨.info, scheduleChannel, "synthesis cancelled after 0 units"⟩]
      else (draftAll ts).flatMap drafted

def generation (settings : Settings) (cancelled : Bool) (c : Catalog) : List LogEntry :=
  match settings.admits c with
  | .error _ => []
  | .ok _ =>
      selection c ++ targets cancelled c.targets ++
        match generateTargets settings cancelled c.targets with
        | .error _ => []
        | .ok units =>
            [⟨.info, "autoctor_codegen::generator",
              "generated " ++ Nat.repr units.length ++ " units"⟩]

end ConstructorSynthesis.Trace
