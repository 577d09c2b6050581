import ConstructorSynthesis.Declaration.Catalog

/-!
Consistency of a catalog. A catalog is consistent when no type is declared
twice, every type has named and distinct fields, and no chain of bases comes
back to a type that it has passed. A base that is not declared ends a chain.
-/

namespace ConstructorSynthesis

inductive Inconsistency where
  | declaredTwice (type : TypeId)
  | circular (path : List TypeId)
  | invalid (note : String)
deriving DecidableEq, Repr

def Inconsistency.message : Inconsistency → String
  | .declaredTwice type => "duplicate type declaration: '" ++ type.text ++ "'"
  | .circular path =>
      "circular base type chain detected: " ++ " -> ".intercalate (path.map TypeId.text)
  | .invalid note => "validation error: " ++ note

/-- What is wrong with a field among the fields of its type. -/
inductive FieldIssue where
  | unnamed
  | repeated (name : String)
deriving DecidableEq, Repr

def FieldIssue.note (issue : FieldIssue) (owner : TypeId) : String :=
  match issue with
  | .unnamed => "Empty field name in type '" ++ owner.text ++ "'"
  | .repeated name =>
      "Duplicate field name '" ++ name ++ "' in type '" ++ owner.text ++ "'"

/-- The issue of the first field that has one, behind fields named `seen`. -/
def fieldIssue? (seen : List String) : List Field → Option FieldIssue
  | [] => none
  | f :: fs =>
      if f.name.isEmpty then some .unnamed
      else if seen.contains f.name then some (.repeated f.name)
      else fieldIssue? (f.name :: seen) fs

/-- The first type that is declared once more, behind the types `seen`. -/
def repeatedId? (seen : List TypeId) : List Declaration → Option TypeId
  | [] => none
  | d :: ds =>
      if seen.contains d.id then some d.id else repeatedId? (d.id :: seen) ds

/-- The types that following bases passes, and whether the last of them was
passed before. -/
structure BaseWalk where
  path : List TypeId
  loops : Bool
deriving DecidableEq, Repr

namespace Catalog

/-- The declarations that are still ahead of a walk. -/
def unvisited (c : Catalog) (path : List TypeId) : List Declaration :=
  c.toList.filter fun d => !path.contains d.id

theorem length_unvisited_lt {c : Catalog} {path : List TypeId} {k : TypeId}
    {d : Declaration} (fresh : k ∉ path) (found : c.get? k = some d) :
    (c.unvisited (path ++ [k])).length < (c.unvisited path).length := by
  rw [get?_eq_find?] at found
  have member : d ∈ c.toList := List.mem_of_find?_eq_some found
  have same : d.id = k := by simpa using List.find?_some found
  have narrower : c.unvisited (path ++ [k]) =
      (c.unvisited path).filter fun d => !decide (d.id = k) := by
    simp [unvisited, List.filter_filter, Bool.and_comm]
  rw [narrower, List.length_filter_lt_length_iff_exists]
  refine ⟨d, ?_, by simp [same]⟩
  simpa [unvisited, member, same] using fresh

/-- Follows bases from `next` on, behind the types of `path`. -/
def followBases (c : Catalog) (path : List TypeId) (next : Option TypeId) : BaseWalk :=
  match next with
  | none => ⟨path, false⟩
  | some k =>
      if fresh : k ∈ path then ⟨path ++ [k], true⟩
      else
        match found : c.get? k with
        | none => ⟨path ++ [k], false⟩
        | some d =>
            have := length_unvisited_lt fresh found
            c.followBases (path ++ [k]) d.base
termination_by (c.unvisited path).length

/-- The walk from a declaration through its bases. -/
def baseWalk (c : Catalog) (d : Declaration) : BaseWalk := c.followBases [d.id] d.base

def checkType (c : Catalog) (d : Declaration) : Except Inconsistency Unit :=
  match fieldIssue? [] d.fields with
  | some issue => .error (.invalid (issue.note d.id))
  | none =>
      let walk := c.baseWalk d
      if walk.loops then .error (.circular walk.path) else .ok ()

/-- Accepts a consistent catalog. Repeated declarations are looked for in the
whole catalog before anything else; then the types are examined in their order,
the fields of a type before its bases. -/
def check (c : Catalog) : Except Inconsistency Unit :=
  match repeatedId? [] c.toList with
  | some k => .error (.declaredTwice k)
  | none => c.toList.forM c.checkType

end Catalog

end ConstructorSynthesis
