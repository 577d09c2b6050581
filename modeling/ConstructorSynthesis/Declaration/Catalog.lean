import Std.Data.TreeMap
import ConstructorSynthesis.Declaration.Basic

/-!
A catalog holds declarations in the order in which they were added, with an
index from types to positions. A type may be declared more than once: every
declaration is kept, and looking the type up finds the first one. The index is
tied to the declarations by the structure, so a position that it holds is always
in range.
-/

namespace ConstructorSynthesis

structure Catalog where
  decls : Array Declaration
  index : Std.TreeMap TypeId Nat
  /-- The index holds the position of the first declaration of each type. -/
  index_eq : ∀ k, index[k]? = decls.toList.findIdx? (·.id == k)

namespace Catalog

def empty : Catalog where
  decls := #[]
  index := {}
  index_eq := by simp

instance : Inhabited Catalog := ⟨empty⟩

private theorem index_push (c : Catalog) (d : Declaration) (k : TypeId) :
    (c.index.insertIfNew d.id c.decls.size)[k]? =
      (c.decls.push d).toList.findIdx? (·.id == k) := by
  have hk := c.index_eq k
  have hd := c.index_eq d.id
  rw [Std.TreeMap.getElem?_insertIfNew, Array.toList_push, List.findIdx?_append, hk]
  by_cases same : d.id = k
  · subst same
    by_cases known : d.id ∈ c.index
    · obtain ⟨i, hi⟩ := Option.isSome_iff_exists.mp
        (Std.TreeMap.isSome_getElem?_iff_mem.mpr known)
      rw [hk] at hi
      simp [known, hi]
    · have absent : c.index[d.id]? = none := Std.TreeMap.getElem?_eq_none known
      rw [hk] at absent
      simp [known, absent, List.findIdx?_cons]
  · have differs : compare d.id k ≠ .eq := fun h => same (Std.LawfulEqCmp.eq_of_compare h)
    simp [differs, List.findIdx?_cons, same]

/-- Adds a declaration behind the others. An earlier declaration of the same
type stays the one that is looked up. -/
def insert (c : Catalog) (d : Declaration) : Catalog where
  decls := c.decls.push d
  index := c.index.insertIfNew d.id c.decls.size
  index_eq := index_push c d

def ofList (ds : List Declaration) : Catalog := ds.foldl insert empty

def toList (c : Catalog) : List Declaration := c.decls.toList

def size (c : Catalog) : Nat := c.decls.size

def isEmpty (c : Catalog) : Bool := c.decls.isEmpty

def contains (c : Catalog) (k : TypeId) : Bool := c.index.contains k

theorem lt_size_of_index {c : Catalog} {k : TypeId} {i : Nat}
    (h : c.index[k]? = some i) : i < c.decls.size := by
  rw [c.index_eq, List.findIdx?_eq_some_iff_getElem] at h
  exact h.1

/-- The first declaration that was added for this type. -/
def get? (c : Catalog) (k : TypeId) : Option Declaration :=
  match h : c.index[k]? with
  | none => none
  | some i => have := lt_size_of_index h
      some c.decls[i]

@[simp]
theorem toList_empty : empty.toList = [] := rfl

@[simp]
theorem toList_insert (c : Catalog) (d : Declaration) :
    (c.insert d).toList = c.toList ++ [d] := by
  simp [insert, toList]

private theorem toList_foldl_insert (ds : List Declaration) (c : Catalog) :
    (ds.foldl insert c).toList = c.toList ++ ds := by
  induction ds generalizing c with
  | nil => simp
  | cons d ds ih => simp [ih]

@[simp]
theorem toList_ofList (ds : List Declaration) : (ofList ds).toList = ds := by
  simp [ofList, toList_foldl_insert]

/-- Looking a type up finds the declaration that a search from the front finds. -/
theorem get?_eq_find? (c : Catalog) (k : TypeId) :
    c.get? k = c.toList.find? (·.id == k) := by
  have spec := c.index_eq k
  unfold get?
  split
  · next absent =>
      rw [absent] at spec
      have none_matches := List.findIdx?_eq_none_iff.mp spec.symm
      exact (List.find?_eq_none.mpr fun d hd => by simpa using none_matches d hd).symm
  · next i found =>
      rw [found] at spec
      obtain ⟨bound, hit, before⟩ := List.findIdx?_eq_some_iff_getElem.mp spec.symm
      symm
      rw [toList, List.find?_eq_some_iff_getElem]
      refine ⟨by simpa using hit, i, bound, by simp, fun j hj => ?_⟩
      simpa using before j hj

end Catalog

end ConstructorSynthesis
