import ConstructorSynthesis.Proofs.Declaration.Consistency

/-!
A catalog under insertions. The list of declarations and the index are two views of
what was added, and each insertion keeps them in step: the list grows at its end, and
the index takes up the position of a declaration only if its type is new. So after
any sequence of insertions, with types repeated or not, a position in the index leads
to a declaration of that type, and what is looked up is the one that was added first.
-/

namespace ConstructorSynthesis

/-- Of the declarations of the type `k` in the list, `d` is the first. -/
structure FirstDeclared (added : List Declaration) (k : TypeId) (d : Declaration) : Prop where
  same : d.id = k
  split : ∃ before behind, added = before ++ d :: behind ∧ ∀ e ∈ before, e.id ≠ k

theorem find?_id_eq_some_iff (added : List Declaration) (k : TypeId) (d : Declaration) :
    added.find? (·.id == k) = some d ↔ FirstDeclared added k d := by
  have hfirst (before : List Declaration) :
      (∀ e ∈ before, (!(e.id == k)) = true) ↔ ∀ e ∈ before, e.id ≠ k := by
    simp
  rw [List.find?_eq_some_iff_append, beq_iff_eq]
  simp only [hfirst]
  constructor
  · rintro ⟨same, split⟩
    exact ⟨same, split⟩
  · rintro ⟨same, split⟩
    exact ⟨same, split⟩

namespace Catalog

/-- Looking a type up goes to the position that the index holds for it. -/
theorem get?_of_index {c : Catalog} {k : TypeId} {i : Nat} (stored : c.index[k]? = some i) :
    c.get? k = c.decls[i]? := by
  unfold get?
  split
  · next absent => cases absent.symm.trans stored
  · next j found =>
      obtain rfl := Option.some.inj (found.symm.trans stored)
      exact (Array.getElem?_eq_getElem _).symm

theorem contains_eq_isSome_get? (c : Catalog) (k : TypeId) :
    c.contains k = (c.get? k).isSome := by
  rw [contains, Std.TreeMap.contains_eq_isSome_getElem?, c.index_eq, c.get?_eq_find?,
    List.findIdx?_isSome, List.isSome_find?]
  rfl

/-- The catalog holds what was added, and its index finds the first of each type. -/
structure Represents (c : Catalog) (added : List Declaration) : Prop where
  /-- Every declaration is there, in the order in which they were added. -/
  listed : c.toList = added
  /-- A position in the index is in range, a declaration of that type stands there,
  and it is the one that is looked up. -/
  indexed : ∀ k i, c.index[k]? = some i →
    ∃ d, c.decls[i]? = some d ∧ d.id = k ∧ c.get? k = some d
  found : ∀ k d, c.get? k = some d ↔ FirstDeclared added k d
  missing : ∀ k, c.get? k = none ↔ ∀ d ∈ added, d.id ≠ k
  contains : ∀ k, c.contains k = true ↔ ∃ d, c.get? k = some d

theorem represents_toList (c : Catalog) : c.Represents c.toList where
  listed := rfl
  indexed := by
    intro k i stored
    have hbound := lt_size_of_index stored
    have here : c.decls[i]? = some c.decls[i] := Array.getElem?_eq_getElem hbound
    have found : c.get? k = some c.decls[i] := (get?_of_index stored).trans here
    exact ⟨c.decls[i], here, (mem_of_get? found).2, found⟩
  found := by
    intro k d
    rw [get?_eq_find?, find?_id_eq_some_iff]
  missing := by
    intro k
    simp [get?_eq_find?]
  contains := by
    intro k
    rw [contains_eq_isSome_get?, Option.isSome_iff_exists]

/-- One insertion adds one declaration behind the others. -/
theorem Represents.insert {c : Catalog} {added : List Declaration} (h : c.Represents added)
    (d : Declaration) : (c.insert d).Represents (added ++ [d]) := by
  rw [← h.listed, ← toList_insert]
  exact represents_toList (c.insert d)

theorem Represents.insertAll {c : Catalog} {added : List Declaration} (h : c.Represents added)
    (more : List Declaration) : (more.foldl Catalog.insert c).Represents (added ++ more) := by
  induction more generalizing c added with
  | nil => simpa using h
  | cons d more ih => simpa using ih (h.insert d)

/-- Whatever is inserted into the empty catalog, and in whatever order, the catalog
holds it all, every position in its index leads to a declaration of the right type,
and of several declarations of a type the first one is looked up. -/
theorem represents_insertions (added : List Declaration) :
    (added.foldl Catalog.insert Catalog.empty).Represents added := by
  have hempty : Catalog.empty.Represents [] := represents_toList Catalog.empty
  simpa using hempty.insertAll added

end Catalog

end ConstructorSynthesis
