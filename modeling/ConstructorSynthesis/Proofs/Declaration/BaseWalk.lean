import Mathlib.Data.Finset.Card
import ConstructorSynthesis.Proofs.Declaration.Consistency

/-!
The walk through the bases of a declaration comes to an end. Here it is a machine: its
state holds the types that were passed and the one that comes next. A turn passes a
type that is new and looks its base up; there is no turn when nothing comes next, or
when a type comes once more. What bounds the walk is that a type can only be followed
by another one if it is declared. So the types on the path, but for the last one, are
different declared types, and there are no more of these than the catalog has.

Declarations of one type may have different bases, and the walk starts in one of them
while it looks up the first. So a walk can come back to the type that it started from
although the bases that are looked up lead out of the catalog.
-/

namespace ConstructorSynthesis

theorem nodup_append_singleton_iff {path : List TypeId} {k : TypeId} :
    (path ++ [k]).Nodup ↔ k ∉ path ∧ path.Nodup := by
  rw [← List.concat_eq_append, List.nodup_concat]

/-- Where a walk stands: the types that it passed, and the one that comes next. -/
structure WalkState where
  path : List TypeId
  next : Option TypeId

/-- A walk that starts in a declaration. -/
def WalkState.start (d : Declaration) : WalkState := ⟨[d.id], d.base⟩

/-- What a walk has found when there is no further turn. -/
inductive WalkState.Ends : WalkState → BaseWalk → Prop where
  | nothingNext {path : List TypeId} : Ends ⟨path, none⟩ ⟨path, false⟩
  | onceMore {path : List TypeId} {k : TypeId} (again : k ∈ path) :
      Ends ⟨path, some k⟩ ⟨path ++ [k], true⟩

namespace Catalog

variable (c : Catalog)

/-- The base of the declaration that is looked up; there is none if the type is not
declared. -/
def baseOf? (k : TypeId) : Option TypeId := (c.get? k).bind Declaration.base

theorem baseOf?_of_missing {c : Catalog} {k : TypeId} (missing : c.get? k = none) :
    c.baseOf? k = none := by
  rw [baseOf?, missing]
  rfl

theorem baseOf?_of_found {c : Catalog} {k : TypeId} {d : Declaration} (found : c.get? k = some d) :
    c.baseOf? k = d.base := by
  rw [baseOf?, found]
  rfl

/-- One turn of a walk. -/
inductive Turn : WalkState → WalkState → Prop where
  | pass {path : List TypeId} {k : TypeId} {next : Option TypeId} (fresh : k ∉ path)
      (base : c.baseOf? k = next) : Turn ⟨path, some k⟩ ⟨path ++ [k], next⟩

/-- The types that are declared, each of them once. -/
def declaredTypes : Finset TypeId := (c.toList.map Declaration.id).toFinset

theorem mem_declaredTypes_of_mem {d : Declaration} (member : d ∈ c.toList) :
    d.id ∈ c.declaredTypes :=
  List.mem_toFinset.mpr (List.mem_map_of_mem member)

theorem mem_declaredTypes_of_baseOf? {k base : TypeId} (h : c.baseOf? k = some base) :
    k ∈ c.declaredTypes := by
  obtain ⟨d, found, -⟩ := Option.bind_eq_some_iff.mp h
  obtain ⟨member, rfl⟩ := mem_of_get? found
  exact c.mem_declaredTypes_of_mem member

section Bound

/-- What every turn keeps. While a type comes next, all types on the path are declared;
only the last one of a walk that is over may be undeclared. -/
structure Bounded (s : WalkState) : Prop where
  distinct : s.path.Nodup
  declared : ∀ k, s.next = some k → ∀ p ∈ s.path, p ∈ c.declaredTypes
  length_le : s.path.length ≤ c.declaredTypes.card + 1

variable {c}

/-- With a type still to come, the path has room for it. -/
theorem Bounded.room {path : List TypeId} {k : TypeId} (h : c.Bounded ⟨path, some k⟩) :
    (path ++ [k]).length ≤ c.declaredTypes.card + 1 := by
  have hsubset : path.toFinset ⊆ c.declaredTypes := by
    intro p member
    exact h.declared k rfl p (List.mem_toFinset.mp member)
  have hcard : path.length ≤ c.declaredTypes.card := by
    rw [← List.toFinset_card_of_nodup h.distinct]
    exact Finset.card_le_card hsubset
  rw [List.length_append, List.length_singleton]
  omega

theorem Bounded.turn {s s' : WalkState} (h : c.Bounded s) (turn : c.Turn s s') :
    c.Bounded s' := by
  cases turn with
  | @pass path k next fresh hbase =>
      refine ⟨?_, ?_, h.room⟩
      · exact nodup_append_singleton_iff.mpr ⟨fresh, h.distinct⟩
      · intro k' hnext p member
        rcases List.mem_append.mp member with earlier | last
        · exact h.declared k rfl p earlier
        · rw [List.mem_singleton.mp last]
          exact c.mem_declaredTypes_of_baseOf? (hbase.trans hnext)

theorem Bounded.turns {s s' : WalkState} (h : c.Bounded s)
    (turns : Relation.ReflTransGen c.Turn s s') : c.Bounded s' := by
  induction turns with
  | refl => exact h
  | tail _ turn ih => exact ih.turn turn

theorem bounded_start {d : Declaration} (member : d ∈ c.toList) : c.Bounded (.start d) := by
  have hdeclared := c.mem_declaredTypes_of_mem member
  refine ⟨List.nodup_singleton d.id, ?_, ?_⟩
  · intro k _ p hp
    rw [List.mem_singleton.mp hp]
    exact hdeclared
  · exact Nat.le_add_left 1 c.declaredTypes.card

theorem Turn.length_path {s s' : WalkState} (turn : c.Turn s s') :
    s'.path.length = s.path.length + 1 := by
  cases turn with
  | pass _ _ => exact List.length_append

/-- Each turn makes the path longer, so there are not more turns than it has room for. -/
theorem Bounded.not_endless {walk : Nat → WalkState} (h : c.Bounded (walk 0)) :
    ¬ ∀ n, c.Turn (walk n) (walk (n + 1)) := by
  intro turn
  have hbounded : ∀ n, c.Bounded (walk n) := by
    intro n
    induction n with
    | zero => exact h
    | succ n ih => exact ih.turn (turn n)
  have hlonger : ∀ n, n ≤ (walk n).path.length := by
    intro n
    induction n with
    | zero => exact Nat.zero_le _
    | succ n ih =>
        rw [(turn n).length_path]
        exact Nat.succ_le_succ ih
  have hroom := (hbounded (c.declaredTypes.card + 2)).length_le
  have hlong := hlonger (c.declaredTypes.card + 2)
  omega

theorem Bounded.length_le_of_ends {s : WalkState} {walk : BaseWalk} (h : c.Bounded s)
    (ends : s.Ends walk) : walk.path.length ≤ c.declaredTypes.card + 1 := by
  cases ends with
  | nothingNext => exact h.length_le
  | onceMore _ => exact h.room

end Bound

section Run

/-- A walk goes on behind a type that is new, whether the type is declared or not. -/
theorem followBases_fresh {path : List TypeId} {k : TypeId} (fresh : k ∉ path) :
    c.followBases path (some k) = c.followBases (path ++ [k]) (c.baseOf? k) := by
  conv_lhs => rw [followBases]
  rw [dif_neg fresh]
  split
  · next missing => rw [baseOf?_of_missing missing, followBases]
  · next d found => rw [baseOf?_of_found found]

/-- Following bases takes the turns of the machine, up to a state without one. -/
theorem exists_ends_followBases (path : List TypeId) (next : Option TypeId) :
    ∃ last : WalkState, Relation.ReflTransGen c.Turn ⟨path, next⟩ last ∧
      last.Ends (c.followBases path next) := by
  fun_induction followBases c path next with
  | case1 path => exact ⟨_, .refl, .nothingNext⟩
  | case2 path k again => exact ⟨_, .refl, .onceMore again⟩
  | case3 path k fresh missing =>
      exact ⟨_, .single (.pass fresh (baseOf?_of_missing missing)), .nothingNext⟩
  | case4 path k fresh d found smaller ih =>
      obtain ⟨last, hturns, hends⟩ := ih
      exact ⟨last, .head (.pass fresh (baseOf?_of_found found)) hturns, hends⟩

/-- A turn changes nothing in what following bases finds. -/
theorem followBases_turn {s s' : WalkState} (turn : c.Turn s s') :
    c.followBases s'.path s'.next = c.followBases s.path s.next := by
  cases turn with
  | @pass path k next fresh hbase =>
      rw [c.followBases_fresh fresh, hbase]

theorem followBases_turns {s s' : WalkState} (turns : Relation.ReflTransGen c.Turn s s') :
    c.followBases s'.path s'.next = c.followBases s.path s.next := by
  induction turns with
  | refl => rfl
  | tail _ turn ih => rw [c.followBases_turn turn, ih]

end Run

section Outcome

/-- Looking bases up from `next` on passes the types of the list and then comes to an
end: the last of them has no base or is not declared. -/
inductive LeadsOut : Option TypeId → List TypeId → Prop where
  | noBase : LeadsOut none []
  | undeclared {k : TypeId} (missing : c.get? k = none) : LeadsOut (some k) [k]
  | declared {k : TypeId} {d : Declaration} {passed : List TypeId} (found : c.get? k = some d)
      (rest : LeadsOut d.base passed) : LeadsOut (some k) (k :: passed)

/-- A walk along different types that leads out does not loop. -/
theorem followBases_of_leadsOut {path passed : List TypeId} {next : Option TypeId}
    (h : c.LeadsOut next passed) (distinct : (path ++ passed).Nodup) :
    c.followBases path next = ⟨path ++ passed, false⟩ := by
  induction h generalizing path with
  | noBase => rw [followBases, List.append_nil]
  | @undeclared k missing =>
      have hfresh : k ∉ path := (nodup_append_singleton_iff.mp distinct).1
      rw [c.followBases_fresh hfresh, baseOf?_of_missing missing, followBases]
  | @declared k d passed found _ ih =>
      rw [List.append_cons] at distinct ⊢
      have hfresh : k ∉ path :=
        (nodup_append_singleton_iff.mp (List.nodup_append.mp distinct).1).1
      rw [c.followBases_fresh hfresh, baseOf?_of_found found, ih distinct]

/-- A walk that does not loop has led out along different types. -/
theorem exists_leadsOut_of_followBases (path : List TypeId) (next : Option TypeId)
    (distinct : path.Nodup) (finishes : (c.followBases path next).loops = false) :
    ∃ passed, c.LeadsOut next passed ∧ (path ++ passed).Nodup := by
  fun_induction followBases c path next with
  | case1 path => exact ⟨[], .noBase, by simpa using distinct⟩
  | case2 path k again => cases finishes
  | case3 path k fresh missing =>
      exact ⟨[k], .undeclared missing, nodup_append_singleton_iff.mpr ⟨fresh, distinct⟩⟩
  | case4 path k fresh d found smaller ih =>
      have hdistinct : (path ++ [k]).Nodup := nodup_append_singleton_iff.mpr ⟨fresh, distinct⟩
      obtain ⟨passed, hleads, hpassed⟩ := ih hdistinct finishes
      exact ⟨k :: passed, .declared found hleads, by simpa using hpassed⟩

end Outcome

/-- The walk from a declaration does not go on for ever, whatever the catalog declares
twice or in a cycle. Wherever it has come to, its path is no longer than the number of
declared types and one, and it goes on to the one end that following bases finds. It
finds no loop exactly if looking bases up leads out of the catalog along different
types, all of them different from the type of the declaration as well. -/
theorem baseWalk_comes_to_end (c : Catalog) (d : Declaration) (member : d ∈ c.toList) :
    (¬ ∃ walk : Nat → WalkState, walk 0 = .start d ∧ ∀ n, c.Turn (walk n) (walk (n + 1))) ∧
    (∀ s, Relation.ReflTransGen c.Turn (.start d) s →
      s.path.length ≤ c.declaredTypes.card + 1 ∧
      ∃ last : WalkState, Relation.ReflTransGen c.Turn s last ∧ last.Ends (c.baseWalk d)) ∧
    (c.baseWalk d).path.length ≤ c.declaredTypes.card + 1 ∧
    ((c.baseWalk d).loops = false ↔
      ∃ passed, c.LeadsOut d.base passed ∧ (d.id :: passed).Nodup) := by
  have hbounded := bounded_start member
  refine ⟨?_, ?_, ?_, ?_, ?_⟩
  · rintro ⟨walk, hstart, turn⟩
    rw [← hstart] at hbounded
    exact hbounded.not_endless turn
  · intro s turns
    obtain ⟨last, hturns, hends⟩ := c.exists_ends_followBases s.path s.next
    rw [c.followBases_turns turns] at hends
    exact ⟨(hbounded.turns turns).length_le, last, hturns, hends⟩
  · obtain ⟨last, hturns, hends⟩ := c.exists_ends_followBases [d.id] d.base
    exact (hbounded.turns hturns).length_le_of_ends hends
  · intro finishes
    exact c.exists_leadsOut_of_followBases [d.id] d.base (List.nodup_singleton d.id) finishes
  · rintro ⟨passed, hleads, distinct⟩
    rw [baseWalk, c.followBases_of_leadsOut hleads distinct]

/-- A type is declared without a base and then once more, with a base that leads back
to it. From the second declaration the walk loops, although the bases that are looked
up lead out, and its path is as long as it can be; from the base it ends well. -/
theorem baseWalk_comes_to_end_second_declaration :
    let a : Declaration :=
      { name := "A", kind := .classType, inNamespace := none, enclosing := [], typeParams := []
        base := none, attributes := [], fields := [], constructors := [] }
    let again := { a with base := some ⟨"B"⟩ }
    let b := { a with name := "B", base := some ⟨"A"⟩ }
    let c := Catalog.ofList [a, again, b]
    (again ∈ c.toList ∧ b ∈ c.toList) ∧
    (c.baseWalk again = ⟨[⟨"A"⟩, ⟨"B"⟩, ⟨"A"⟩], true⟩ ∧ c.declaredTypes.card = 2 ∧
      (c.baseWalk again).path.length ≤ c.declaredTypes.card + 1) ∧
    (c.LeadsOut again.base [⟨"B"⟩, ⟨"A"⟩] ∧
      ¬ ∃ passed, c.LeadsOut again.base passed ∧ (again.id :: passed).Nodup) ∧
    (c.baseWalk b).loops = false := by
  intro a again b c
  have hlist : c.toList = [a, again, b] := toList_ofList _
  have hagain : again ∈ c.toList := by simp [hlist]
  have hb : b ∈ c.toList := by simp [hlist]
  have hfoundA : c.get? ⟨"A"⟩ = some a := by
    rw [get?_eq_find?, hlist]
    decide +kernel
  have hfoundB : c.get? ⟨"B"⟩ = some b := by
    rw [get?_eq_find?, hlist]
    decide +kernel
  have hleads : c.LeadsOut b.base [⟨"A"⟩] := .declared hfoundA .noBase
  have hwalk : c.baseWalk again = ⟨[⟨"A"⟩, ⟨"B"⟩, ⟨"A"⟩], true⟩ := by
    have hstart : c.baseWalk again = c.followBases [⟨"A"⟩] (some ⟨"B"⟩) := by
      rw [baseWalk]
      congr 1
    have hagainA : (⟨"A"⟩ : TypeId) ∈ [⟨"A"⟩] ++ [⟨"B"⟩] := by decide
    rw [hstart, c.followBases_fresh (by decide), baseOf?_of_found hfoundB, followBases,
      dif_pos hagainA]
    rfl
  obtain ⟨-, -, hlength, hfinishes⟩ := baseWalk_comes_to_end c again hagain
  obtain ⟨-, -, -, hfinishesB⟩ := baseWalk_comes_to_end c b hb
  refine ⟨⟨hagain, hb⟩, ⟨hwalk, ?_, hlength⟩, ⟨.declared hfoundB hleads, ?_⟩, ?_⟩
  · rw [declaredTypes, hlist]
    decide +kernel
  · rw [← hfinishes, hwalk]
    decide
  · exact hfinishesB.mpr ⟨[⟨"A"⟩], hleads, by decide +kernel⟩

end Catalog

end ConstructorSynthesis
