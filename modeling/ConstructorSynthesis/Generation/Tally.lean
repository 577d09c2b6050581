import ConstructorSynthesis.Generation.Basic

/-!
How much generation produces, and how much that is in a second. Rates are IEEE
double precision numbers: a count is rounded to the nearest one, and the seconds
are the whole seconds plus the nanoseconds that are left over.
-/

namespace ConstructorSynthesis

/-- Types and bytes of source that were generated. -/
structure Tally where
  types : Nat
  bytes : Nat
deriving DecidableEq, Repr

namespace Tally

def ofUnits (units : List SourceUnit) : Tally :=
  ⟨units.length, units.foldl (fun n u => n + u.source.utf8ByteSize) 0⟩

def add (t u : Tally) : Tally := ⟨t.types + u.types, t.bytes + u.bytes⟩

/-- What a run that is repeated gives altogether. -/
def repeated (run : Tally) : Nat → Tally
  | 0 => ⟨0, 0⟩
  | n + 1 => (repeated run n).add run

def seconds (nanoseconds : Nat) : Float :=
  (nanoseconds / 1000000000).toFloat + (nanoseconds % 1000000000).toFloat / 1000000000.0

def typesPerSecond (t : Tally) (nanoseconds : Nat) : Float := t.types.toFloat / seconds nanoseconds

def bytesPerSecond (t : Tally) (nanoseconds : Nat) : Float := t.bytes.toFloat / seconds nanoseconds

end Tally

/-- What generation from a catalog gives with the default settings. A run that fails
counts as nothing. -/
def generationTally (c : Catalog) : Tally :=
  match generate .default false c with
  | .ok units => .ofUnits units
  | .error _ => ⟨0, 0⟩

end ConstructorSynthesis
