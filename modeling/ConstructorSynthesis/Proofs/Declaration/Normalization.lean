import ConstructorSynthesis.Proofs.Declaration.Reference

/-!
What is left when a reference is read. No text is turned down: a closing bracket may
stand alone, and an opening one may stay open. In whatever state the scanner is, it
passes on neither angle brackets nor white space, and the arity marks that it adds
have none either; a text without these characters is kept as it is. So reading is a
projection onto the plain texts. Reading once more changes nothing, and a reference
stands for itself exactly if it is plain.
-/

namespace ConstructorSynthesis

theorem Text.isSpace_of_isDigit {c : Char} (digit : c.isDigit = true) : isSpace c = false := by
  have hbounds : 48 ≤ c.toNat ∧ c.toNat ≤ 57 := by
    simpa [Char.isDigit, UInt32.le_iff_toNat_le] using digit
  simp only [isSpace]
  grind

theorem isReferenceName_append {first second : String} :
    IsReferenceName (first ++ second) ↔ IsReferenceName first ∧ IsReferenceName second := by
  simp only [IsReferenceName, String.toList_append, List.forall_mem_append]

theorem isReferenceName_ofList_cons {c : Char} {cs : List Char} :
    IsReferenceName (String.ofList (c :: cs)) ↔
      (c ≠ '<' ∧ c ≠ '>' ∧ Text.isSpace c = false) ∧ IsReferenceName (String.ofList cs) := by
  simp only [IsReferenceName, String.toList_ofList, List.forall_mem_cons]

theorem isReferenceName_repr (n : Nat) : IsReferenceName (Nat.repr n) := by
  intro c member
  rw [Nat.toList_repr] at member
  have hdigit := Nat.isDigit_of_mem_toDigits (by decide) (by decide) member
  refine ⟨?_, ?_, Text.isSpace_of_isDigit hdigit⟩
  · rintro rfl
    cases hdigit
  · rintro rfl
    cases hdigit

namespace TypeId

theorem isReferenceName_arityMark (arity : Nat) :
    IsReferenceName (String.ofList (arityMark arity)) := by
  unfold arityMark
  split
  · decide
  · refine isReferenceName_ofList_cons.mpr ⟨by decide, ?_⟩
    rw [String.ofList_toList]
    exact isReferenceName_repr arity

/-- From every state on, with brackets open or not, the scanner leaves plain text. -/
theorem isReferenceName_scanReference (depth arity : Nat) (cs : List Char) :
    IsReferenceName (String.ofList (scanReference depth arity cs)) := by
  fun_induction scanReference depth arity cs with
  | case1 => decide
  | case2 depth arity cs ih => exact ih
  | case3 depth arity cs outermost _ ih =>
      -- Here the outermost bracket is closed, or none was open and the mark is empty.
      rw [String.ofList_append, isReferenceName_append]
      exact ⟨isReferenceName_arityMark arity, ih⟩
  | case4 depth arity cs deeper _ ih => exact ih
  | case5 depth arity c cs _ _ separator ih => exact ih
  | case6 depth arity c cs _ _ _ dropped ih => exact ih
  | case7 depth arity c cs opening closing _ kept ih =>
      have hspace : Text.isSpace c = false := by
        rw [← Bool.not_eq_true]
        exact fun space => kept (Or.inr space)
      exact isReferenceName_ofList_cons.mpr ⟨⟨opening, closing, hspace⟩, ih⟩

theorem isReferenceName_ofReference (reference : String) :
    IsReferenceName (ofReference reference).text :=
  isReferenceName_scanReference 0 0 reference.toList

/-- A plain reference is read as itself. -/
theorem ofReference_of_plain {reference : String} (plain : IsReferenceName reference) :
    ofReference reference = ⟨reference⟩ := by
  have hscan : scanReference 0 0 (reference.toList ++ []) = reference.toList ++ [] :=
    carries_name plain []
  rw [List.append_nil] at hscan
  rw [ofReference, hscan, String.ofList_toList]

/-- Whatever is written, reading leaves neither angle brackets nor white space, and
what it leaves is read as itself. A reference is kept exactly if it has none of these
characters; these texts, and no others, are what some reference is read as. -/
theorem ofReference_is_projection (reference : String) :
    IsReferenceName (TypeId.ofReference reference).text ∧
    TypeId.ofReference (TypeId.ofReference reference).text = TypeId.ofReference reference ∧
    ((TypeId.ofReference reference).text = reference ↔ IsReferenceName reference) ∧
    (IsReferenceName reference ↔ ∃ written, (TypeId.ofReference written).text = reference) := by
  have hplain := isReferenceName_ofReference
  refine ⟨hplain reference, ofReference_of_plain (hplain reference), ⟨?_, ?_⟩, ⟨?_, ?_⟩⟩
  · intro kept
    exact kept ▸ hplain reference
  · intro plain
    rw [ofReference_of_plain plain]
  · intro plain
    exact ⟨reference, by rw [ofReference_of_plain plain]⟩
  · rintro ⟨written, rfl⟩
    exact hplain written

end TypeId

end ConstructorSynthesis
