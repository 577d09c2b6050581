import ConstructorSynthesis.Text.Space

/-!
The identity of a type: its dotted path, in which a generic segment carries the
number of its parameters behind a grave accent. So `Demo.Box<int>`,
`Demo.Box<T>` and `Demo.Box<>` all name the one generic type with one parameter.
-/

namespace ConstructorSynthesis

structure TypeId where
  text : String
deriving DecidableEq, Repr, Inhabited

namespace TypeId

/-- Identities are ordered by code point. -/
instance : Ord TypeId := ⟨fun a b => compare a.text b.text⟩

instance : Std.TransOrd TypeId := inferInstanceAs (Std.TransCmp (compareOn TypeId.text))

instance : Std.LawfulEqOrd TypeId where
  compare_self {a} := (Std.LawfulEqCmp.compare_eq_iff_eq : compare a.text a.text = .eq ↔ _).mpr rfl
  eq_of_compare {a b} h :=
    congrArg TypeId.mk (Std.LawfulEqCmp.eq_of_compare (show compare a.text b.text = .eq from h))

/-- The mark behind a generic segment; a segment without parameters has none. -/
def arityMark (arity : Nat) : List Char :=
  if arity = 0 then [] else '\x60' :: (Nat.repr arity).toList

/-- Reads on in a written reference: `depth` brackets are open, and `arity`
arguments of the outermost open bracket have begun. White space and everything
between brackets is dropped; a closing bracket without an opening one is
dropped as well. -/
def scanReference (depth arity : Nat) : List Char → List Char
  | [] => []
  | c :: cs =>
      if c = '<' then scanReference (depth + 1) (if depth = 0 then 1 else arity) cs
      else if c = '>' then
        if depth ≤ 1 then arityMark arity ++ scanReference 0 0 cs
        else scanReference (depth - 1) arity cs
      else if c = ',' ∧ depth = 1 then scanReference depth (arity + 1) cs
      else if 0 < depth ∨ Text.isSpace c then scanReference depth arity cs
      else c :: scanReference depth arity cs

/-- The type that a reference names, as it is written in source: every list of
type arguments becomes its arity mark. -/
def ofReference (reference : String) : TypeId :=
  ⟨String.ofList (scanReference 0 0 reference.toList)⟩

end TypeId

end ConstructorSynthesis
