import Mathlib.Data.List.Nodup

/-!
The first repetition in a list. Several scans go through a list with the keys that
they have met, and stop at the first member whose key is among them. What such a
scan finds is stated here without the scan: the list splits at a member whose key
is one of the given ones or the key of an earlier member, and in front of it there
is no such member. Where no key is repeated, a search by key finds a member wherever
it stands.
-/

namespace ConstructorSynthesis

/-- A list splits at its head, or its tail splits. -/
theorem split_cons {α : Type} {y x : α} {xs before after : List α}
    (split : y :: xs = before ++ x :: after) :
    before = [] ∧ y = x ∨ ∃ rest, before = y :: rest ∧ xs = rest ++ x :: after := by
  rcases List.cons_eq_append_iff.mp split with ⟨hbefore, hhere⟩ | hlater
  · exact .inl ⟨hbefore, (List.cons.inj hhere).1.symm⟩
  · exact .inr hlater

variable {α κ : Type} (key : α → κ)

/-- In a list with distinct keys there is one member that a search by key can find. -/
theorem find?_key_eq_some_iff [BEq κ] [LawfulBEq κ] {xs : List α} (distinct : (xs.map key).Nodup)
    (k : κ) (x : α) : xs.find? (key · == k) = some x ↔ x ∈ xs ∧ key x = k := by
  constructor
  · intro found
    exact ⟨List.mem_of_find?_eq_some found, by simpa using List.find?_some found⟩
  · rintro ⟨member, hkey⟩
    have hsome : (xs.find? (key · == k)).isSome := by
      rw [List.find?_isSome]
      exact ⟨x, member, by simp [hkey]⟩
    obtain ⟨y, found⟩ := Option.isSome_iff_exists.mp hsome
    have hy : key y = k := by simpa using List.find?_some found
    have same : y = x := List.inj_on_of_nodup_map distinct (List.mem_of_find?_eq_some found) member
      (hy.trans hkey.symm)
    rw [found, same]

theorem find?_key_perm [BEq κ] [LawfulBEq κ] {xs ys : List α} (perm : xs.Perm ys)
    (distinct : (xs.map key).Nodup) (k : κ) :
    xs.find? (key · == k) = ys.find? (key · == k) := by
  have distinct' : (ys.map key).Nodup := (perm.map key).nodup_iff.mp distinct
  apply Option.ext
  intro x
  rw [find?_key_eq_some_iff key distinct, find?_key_eq_some_iff key distinct', perm.mem_iff]

/-- The list splits at `x`, the first member whose key is one of `seen` or the key
of an earlier member. -/
structure FirstRepeat (seen : List κ) (xs before : List α) (x : α) : Prop where
  split : ∃ after, xs = before ++ x :: after
  fresh : ∀ y ∈ before, key y ∉ seen
  distinct : (before.map key).Nodup
  again : key x ∈ seen ∨ key x ∈ before.map key

theorem firstRepeat_cons_iff {seen : List κ} {y x : α} {xs before : List α} (fresh : key y ∉ seen) :
    FirstRepeat key seen (y :: xs) before x ↔
      ∃ rest, before = y :: rest ∧ FirstRepeat key (key y :: seen) xs rest x := by
  constructor
  · rintro ⟨⟨after, hsplit⟩, hfresh, hdistinct, hagain⟩
    rcases split_cons hsplit with ⟨rfl, rfl⟩ | ⟨rest, rfl, hrest⟩
    · simp [fresh] at hagain
    · refine ⟨rest, rfl, ⟨after, hrest⟩, ?_, ?_, ?_⟩ <;> grind
  · rintro ⟨rest, rfl, ⟨after, hsplit⟩, hfresh, hdistinct, hagain⟩
    refine ⟨⟨after, by rw [hsplit]; rfl⟩, ?_, ?_, ?_⟩ <;> grind

variable [DecidableEq κ]

/-- The key of the first member that repeats one, behind the keys `seen`. -/
def firstRepeat? (seen : List κ) : List α → Option κ
  | [] => none
  | x :: xs => if key x ∈ seen then some (key x) else firstRepeat? (key x :: seen) xs

theorem firstRepeat?_eq_none_iff (seen : List κ) (xs : List α) :
    firstRepeat? key seen xs = none ↔ (∀ x ∈ xs, key x ∉ seen) ∧ (xs.map key).Nodup := by
  induction xs generalizing seen with
  | nil => simp [firstRepeat?]
  | cons x xs ih =>
      by_cases known : key x ∈ seen
      · simp [firstRepeat?, known]
      · simp only [firstRepeat?, known, if_false, ih]
        simp only [List.mem_cons, List.map_cons, List.nodup_cons, List.mem_map]
        grind

theorem firstRepeat?_eq_some_iff (seen : List κ) (xs : List α) (k : κ) :
    firstRepeat? key seen xs = some k ↔
      ∃ before x, FirstRepeat key seen xs before x ∧ key x = k := by
  induction xs generalizing seen with
  | nil =>
      simp only [firstRepeat?, reduceCtorEq, false_iff]
      rintro ⟨before, x, ⟨⟨after, hsplit⟩, -⟩, -⟩
      simp at hsplit
  | cons y xs ih =>
      by_cases known : key y ∈ seen
      · simp only [firstRepeat?, known, if_true, Option.some.injEq]
        constructor
        · intro hk
          exact ⟨[], y, ⟨⟨xs, rfl⟩, by simp, by simp, .inl known⟩, hk⟩
        · rintro ⟨before, x, ⟨⟨after, hsplit⟩, hfresh, -⟩, hk⟩
          rcases split_cons hsplit with ⟨rfl, rfl⟩ | ⟨rest, rfl, -⟩
          · exact hk
          · exact absurd known (hfresh y List.mem_cons_self)
      · simp only [firstRepeat?, known, if_false, ih, firstRepeat_cons_iff key known]
        constructor
        · rintro ⟨rest, x, hfirst, hk⟩
          exact ⟨y :: rest, x, ⟨rest, rfl, hfirst⟩, hk⟩
        · rintro ⟨_, x, ⟨rest, rfl, hfirst⟩, hk⟩
          exact ⟨rest, x, hfirst, hk⟩

end ConstructorSynthesis
