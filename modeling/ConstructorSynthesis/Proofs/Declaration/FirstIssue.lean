import Mathlib.Data.List.Chain
import ConstructorSynthesis.Proofs.Declaration.Consistency

/-!
Which problem of a catalog is reported. A type that is declared twice comes before
everything else; after that the first declaration counts that has a problem, with
its first bad field before its bases. A chain of bases that loops is reported with
the types on the way: each is the base of the one before it, and only the last one
was met before. Looking bases up leaves no choice, so there is just one such way
from a type; that is why the walk finds it, and why it comes back to its start
exactly if the start lies on the cycle. Each problem is stated with the text that is
shown for it, which names the type and the field.
-/

namespace ConstructorSynthesis

namespace Catalog

/-- The declaration that is looked up for the type `k` has the base `base`. -/
def HasBase (c : Catalog) (k base : TypeId) : Prop :=
  ∃ d, c.get? k = some d ∧ d.base = some base

theorem HasBase.unique {c : Catalog} {k base other : TypeId} (h : c.HasBase k base)
    (g : c.HasBase k other) : base = other := by
  obtain ⟨d, hfound, hbase⟩ := h
  obtain ⟨e, hfound', hother⟩ := g
  obtain rfl := Option.some.inj (hfound.symm.trans hfound')
  exact Option.some.inj (hbase.symm.trans hother)

/-- Following bases from `start` passes the types of `between` and comes to `last`,
the first type that it met before. -/
structure IsLoop (c : Catalog) (start : TypeId) (between : List TypeId) (last : TypeId) :
    Prop where
  steps : (start :: between ++ [last]).IsChain c.HasBase
  distinct : (start :: between).Nodup
  returns : last ∈ start :: between

section Walk

variable (c : Catalog)

/-- A walk that loops has passed different types up to the last one. -/
theorem exists_loop_of_followBases (path : List TypeId) (next : Option TypeId)
    (ahead : ∀ here ∈ path.getLast?, ∀ k, next = some k → c.HasBase here k)
    (steps : path.IsChain c.HasBase) (distinct : path.Nodup)
    (loops : (c.followBases path next).loops = true) :
    ∃ rest last, (c.followBases path next).path = path ++ rest ++ [last] ∧
      (path ++ rest ++ [last]).IsChain c.HasBase ∧ (path ++ rest).Nodup ∧ last ∈ path ++ rest := by
  fun_induction followBases c path next with
  | case1 path => cases loops
  | case2 path k again =>
      have hsteps : (path ++ [k]).IsChain c.HasBase :=
        List.isChain_append.mpr ⟨steps, .singleton k, by simpa using ahead⟩
      exact ⟨[], k, by simp, by simpa using hsteps, by simpa using distinct, by simpa using again⟩
  | case3 path k fresh missing => cases loops
  | case4 path k fresh d found smaller ih =>
      have hsteps : (path ++ [k]).IsChain c.HasBase :=
        List.isChain_append.mpr ⟨steps, .singleton k, by simpa using ahead⟩
      have hdistinct : (path ++ [k]).Nodup := by
        rw [List.nodup_append_comm]
        exact List.nodup_cons.mpr ⟨fresh, distinct⟩
      have hahead : ∀ here ∈ (path ++ [k]).getLast?, ∀ base, d.base = some base →
          c.HasBase here base := by
        intro here hlast base hbase
        obtain rfl : k = here := by simpa using hlast
        exact ⟨d, found, hbase⟩
      obtain ⟨rest, last, hpath, hloop⟩ := ih hahead hsteps hdistinct loops
      refine ⟨k :: rest, last, ?_, ?_⟩
      · simpa using hpath
      · simpa using hloop

/-- Behind each type that was passed, its base is next. -/
theorem exists_next_of_steps {path rest : List TypeId} {k last : TypeId}
    (steps : (path ++ k :: rest ++ [last]).IsChain c.HasBase) :
    ∃ base, (rest ++ [last]).head? = some base ∧ c.HasBase k base := by
  rw [List.append_assoc, List.cons_append, List.isChain_split] at steps
  cases rest with
  | nil => exact ⟨last, rfl, (List.isChain_cons_cons.mp steps.2).1⟩
  | cons base rest => exact ⟨base, rfl, (List.isChain_cons_cons.mp steps.2).1⟩

/-- A loop that begins with the types already passed is what the walk finds. -/
theorem followBases_of_loop (path : List TypeId) (next : Option TypeId) {rest : List TypeId}
    {last : TypeId} (ahead : (rest ++ [last]).head? = next)
    (steps : (path ++ rest ++ [last]).IsChain c.HasBase) (distinct : (path ++ rest).Nodup)
    (returns : last ∈ path ++ rest) :
    c.followBases path next = ⟨path ++ rest ++ [last], true⟩ := by
  fun_induction followBases c path next generalizing rest with
  | case1 path => cases rest <;> cases ahead
  | case2 path k again =>
      cases rest with
      | nil =>
          cases ahead
          simp
      | cons k' rest =>
          cases ahead
          have hfresh := (List.nodup_append.mp distinct).2.2 k again k (by simp)
          exact absurd rfl hfresh
  | case3 path k fresh missing =>
      cases rest with
      | nil =>
          cases ahead
          exact absurd returns (by simpa using fresh)
      | cons k' rest =>
          cases ahead
          obtain ⟨base, -, d, found, -⟩ := c.exists_next_of_steps steps
          cases missing.symm.trans found
  | case4 path k fresh d found smaller ih =>
      cases rest with
      | nil =>
          cases ahead
          exact absurd returns (by simpa using fresh)
      | cons k' rest =>
          cases ahead
          obtain ⟨base, hahead, e, found', hbase⟩ := c.exists_next_of_steps steps
          obtain rfl := Option.some.inj (found.symm.trans found')
          rw [List.append_cons path k rest] at steps distinct returns ⊢
          exact ih (hahead.trans hbase.symm) steps distinct returns

end Walk

section Cycle

variable {c : Catalog} {start last : TypeId} {between : List TypeId}

/-- From a type on a cycle, every type that is reached leads back. -/
theorem reaches_back_of_cycle {k : TypeId} (cycle : Relation.TransGen c.HasBase start start)
    (reached : Relation.ReflTransGen c.HasBase start k) :
    Relation.ReflTransGen c.HasBase k start := by
  induction reached with
  | refl => exact .refl
  | tail reached step ih =>
      obtain ⟨base, hstep, hback⟩ := Relation.TransGen.head'_iff.mp (.trans_right ih cycle)
      obtain rfl := hstep.unique step
      exact hback

/-- The types from the one that is met again on are closed under bases. -/
theorem mem_of_reached {front back : List TypeId} {k : TypeId}
    (steps : (front ++ last :: back ++ [last]).IsChain c.HasBase)
    (reached : Relation.ReflTransGen c.HasBase last k) : k ∈ last :: back := by
  induction reached with
  | refl => exact List.mem_cons_self
  | tail _ step ih =>
      obtain ⟨passed, rest, hsplit⟩ := List.mem_iff_append.mp ih
      rw [hsplit, ← List.append_assoc front] at steps
      obtain ⟨base, hnext, hbase⟩ := c.exists_next_of_steps steps
      obtain rfl := hbase.unique step
      rw [hsplit]
      have hmember := List.mem_of_mem_head? hnext
      grind

/-- A loop comes back to its start exactly if the start lies on the cycle. -/
theorem IsLoop.last_eq_start_iff (loop : c.IsLoop start between last) :
    last = start ↔ Relation.TransGen c.HasBase start start := by
  have hreached : Relation.TransGen c.HasBase start last := by
    have hsteps := loop.steps.imp fun _ _ => Relation.TransGen.single
    exact hsteps.rel_cons (by simp)
  constructor
  · rintro rfl
    exact hreached
  · intro cycle
    obtain ⟨front, back, hsplit⟩ := List.mem_iff_append.mp loop.returns
    have hsteps := loop.steps
    rw [hsplit] at hsteps
    have hback := reaches_back_of_cycle cycle hreached.to_reflTransGen
    have hmember : start ∈ last :: back := mem_of_reached hsteps hback
    -- The start stands in front, and what stands in front of `last` is not met again.
    cases front with
    | nil => exact (List.cons.inj hsplit).1.symm
    | cons first front =>
        obtain ⟨rfl, hbetween⟩ := List.cons.inj hsplit
        have hfresh := (List.nodup_cons.mp loop.distinct).1
        rw [hbetween] at hfresh
        exact absurd (List.mem_append_right front hmember) hfresh

end Cycle

section Distinct

variable {c : Catalog} (distinct : (c.toList.map Declaration.id).Nodup) {d : Declaration}
  (member : d ∈ c.toList)

include distinct member

theorem get?_id_of_mem : c.get? d.id = some d := by
  obtain ⟨e, found⟩ := Option.ne_none_iff_exists'.mp (get?_ne_none member)
  obtain ⟨member', same⟩ := mem_of_get? found
  rw [found, List.inj_on_of_nodup_map distinct member' member same]

theorem baseWalk_of_loop {between : List TypeId} {last : TypeId}
    (loop : c.IsLoop d.id between last) : c.baseWalk d = ⟨d.id :: between ++ [last], true⟩ := by
  have hsteps : ([] ++ d.id :: between ++ [last]).IsChain c.HasBase := loop.steps
  obtain ⟨base, hnext, e, found, hbase⟩ := c.exists_next_of_steps hsteps
  obtain rfl := Option.some.inj ((get?_id_of_mem distinct member).symm.trans found)
  exact c.followBases_of_loop [d.id] d.base (hnext.trans hbase.symm) loop.steps loop.distinct
    loop.returns

theorem exists_loop_of_baseWalk (loops : (c.baseWalk d).loops = true) :
    ∃ between last, c.IsLoop d.id between last ∧ (c.baseWalk d).path = d.id :: between ++ [last] := by
  have hahead : ∀ here ∈ [d.id].getLast?, ∀ k, d.base = some k → c.HasBase here k := by
    intro here hlast k hbase
    obtain rfl : d.id = here := by simpa using hlast
    exact ⟨d, get?_id_of_mem distinct member, hbase⟩
  obtain ⟨between, last, hpath, hsteps, hdistinct, hreturns⟩ :=
    c.exists_loop_of_followBases [d.id] d.base hahead (.singleton _) (List.nodup_singleton _) loops
  exact ⟨between, last, ⟨hsteps, hdistinct, hreturns⟩, hpath⟩

end Distinct

end Catalog

/-- Every field has a name, and no two fields have the same one. -/
structure SoundFields (fields : List Field) : Prop where
  named : ∀ f ∈ fields, f.name ≠ ""
  distinct : (fields.map Field.name).Nodup

theorem fieldIssue?_eq_none_iff_sound (fields : List Field) :
    fieldIssue? [] fields = none ↔ SoundFields fields := by
  rw [fieldIssue?_eq_none_iff]
  constructor
  · rintro ⟨hnamed, hdistinct⟩
    exact ⟨fun f member => (hnamed f member).1, hdistinct⟩
  · rintro ⟨hnamed, hdistinct⟩
    exact ⟨fun f member => ⟨hnamed f member, List.not_mem_nil⟩, hdistinct⟩

/-- The field `f` behind the fields `earlier` is the first bad one. -/
structure FirstBadField (fields earlier : List Field) (f : Field) : Prop where
  split : ∃ later, fields = earlier ++ f :: later
  sound : SoundFields earlier
  bad : f.name = "" ∨ f.name ∈ earlier.map Field.name

theorem fieldIssue?_eq_some_iff (fields : List Field) (issue : FieldIssue) :
    fieldIssue? [] fields = some issue ↔
      ∃ earlier f, FirstBadField fields earlier f ∧ FieldIssue.ofName f.name = issue := by
  have hfirst (earlier : List Field) (f : Field) :
      FirstRepeat Field.name [""] fields earlier f ↔ FirstBadField fields earlier f := by
    constructor
    · rintro ⟨hsplit, hfresh, hdistinct, hagain⟩
      exact ⟨hsplit, ⟨by simpa using hfresh, hdistinct⟩, by simpa using hagain⟩
    · rintro ⟨hsplit, ⟨hnamed, hdistinct⟩, hbad⟩
      exact ⟨hsplit, by simpa using hnamed, hdistinct, by simpa using hbad⟩
  rw [fieldIssue?_eq_firstRepeat? [] [""] (by simp), Option.map_eq_some_iff]
  simp only [firstRepeat?_eq_some_iff, hfirst]
  constructor
  · rintro ⟨name, ⟨earlier, f, hbad, rfl⟩, hissue⟩
    exact ⟨earlier, f, hbad, hissue⟩
  · rintro ⟨earlier, f, hbad, hissue⟩
    exact ⟨f.name, ⟨earlier, f, hbad, rfl⟩, hissue⟩

namespace Catalog

/-- Nothing is wrong with a declaration: its fields are sound, and following bases
from it never comes to a type again. -/
structure Sound (c : Catalog) (d : Declaration) : Prop where
  fields : SoundFields d.fields
  bases : ¬ ∃ between last, c.IsLoop d.id between last

/-- What is reported of a declaration that is not sound, and the text that is shown
for it: its first bad field, or else the loop that its bases run into. The loop comes
back to the declaration exactly if this lies on the cycle. -/
inductive Issue (c : Catalog) (d : Declaration) : Inconsistency → String → Prop where
  | unnamed {earlier : List Field} {f : Field} (first : FirstBadField d.fields earlier f)
      (empty : f.name = "") :
      c.Issue d (.invalid ("Empty field name in type '" ++ d.id.text ++ "'"))
        ("validation error: " ++ "Empty field name in type '" ++ d.id.text ++ "'")
  | repeated {earlier : List Field} {f : Field} (first : FirstBadField d.fields earlier f)
      (named : f.name ≠ "") :
      c.Issue d (.invalid ("Duplicate field name '" ++ f.name ++ "' in type '" ++ d.id.text ++ "'"))
        ("validation error: " ++ "Duplicate field name '" ++ f.name ++ "' in type '" ++ d.id.text
          ++ "'")
  | circular {between : List TypeId} {last : TypeId} (fields : SoundFields d.fields)
      (loop : c.IsLoop d.id between last)
      (closes : last = d.id ↔ Relation.TransGen c.HasBase d.id d.id) :
      c.Issue d (.circular (d.id :: between ++ [last]))
        ("circular base type chain detected: "
          ++ " -> ".intercalate ((d.id :: between ++ [last]).map TypeId.text))

/-- The first problem of a catalog, and the text that is shown for it. -/
inductive FirstIssue (c : Catalog) : Inconsistency → String → Prop where
  | declaredTwice {before after : List Declaration} {d : Declaration}
      (split : c.toList = before ++ d :: after) (distinct : (before.map Declaration.id).Nodup)
      (again : d.id ∈ before.map Declaration.id) :
      c.FirstIssue (.declaredTwice d.id) ("duplicate type declaration: '" ++ d.id.text ++ "'")
  | ofType {before after : List Declaration} {d : Declaration} {e : Inconsistency}
      {shown : String} (distinct : (c.toList.map Declaration.id).Nodup)
      (split : c.toList = before ++ d :: after) (sound : ∀ x ∈ before, c.Sound x)
      (issue : c.Issue d e shown) : c.FirstIssue e shown

theorem message_invalid (note : String) :
    (Inconsistency.invalid note).message = "validation error: " ++ note := rfl

theorem Issue.message_eq {c : Catalog} {d : Declaration} {e : Inconsistency} {shown : String}
    (issue : c.Issue d e shown) : e.message = shown := by
  cases issue with
  | unnamed first empty => rw [message_invalid, ← String.append_assoc, ← String.append_assoc]
  | repeated first named =>
      rw [message_invalid]
      simp only [String.append_assoc]
  | circular fields loop closes => rfl

theorem FirstIssue.message_eq {c : Catalog} {e : Inconsistency} {shown : String}
    (first : c.FirstIssue e shown) : e.message = shown := by
  cases first with
  | declaredTwice split distinct again => rfl
  | ofType distinct split sound issue => exact issue.message_eq

/-- What is noted of the first bad field is the issue of its declaration. -/
theorem issue_of_firstBadField (c : Catalog) {d : Declaration} {earlier : List Field} {f : Field}
    (first : FirstBadField d.fields earlier f) :
    ∃ shown, c.Issue d (.invalid ((FieldIssue.ofName f.name).note d.id)) shown := by
  by_cases hname : f.name = ""
  · rw [hname]
    exact ⟨_, .unnamed first hname⟩
  · rw [FieldIssue.ofName, if_neg hname]
    exact ⟨_, .repeated first hname⟩

section Distinct

variable {c : Catalog} (distinct : (c.toList.map Declaration.id).Nodup) {d : Declaration}
  (member : d ∈ c.toList)

include distinct member

theorem checkType_eq_ok_iff_sound : c.checkType d = .ok () ↔ c.Sound d := by
  rw [checkType_eq_ok_iff, fieldIssue?_eq_none_iff_sound, ← Bool.not_eq_true]
  constructor
  · rintro ⟨hfields, hloops⟩
    refine ⟨hfields, ?_⟩
    rintro ⟨between, last, loop⟩
    exact hloops (by rw [baseWalk_of_loop distinct member loop])
  · rintro ⟨hfields, hbases⟩
    refine ⟨hfields, ?_⟩
    intro hloops
    obtain ⟨between, last, loop, -⟩ := exists_loop_of_baseWalk distinct member hloops
    exact hbases ⟨between, last, loop⟩

theorem checkType_eq_error_iff (e : Inconsistency) :
    c.checkType d = .error e ↔ ∃ shown, c.Issue d e shown := by
  constructor
  · intro h
    unfold checkType at h
    cases hissue : fieldIssue? [] d.fields with
    | some issue =>
        rw [hissue] at h
        cases h
        obtain ⟨earlier, f, hfirst, rfl⟩ := (fieldIssue?_eq_some_iff _ _).mp hissue
        exact issue_of_firstBadField c hfirst
    | none =>
        simp only [hissue] at h
        split at h
        · next hloops =>
            cases h
            obtain ⟨between, last, loop, hpath⟩ := exists_loop_of_baseWalk distinct member hloops
            rw [hpath]
            exact ⟨_, .circular ((fieldIssue?_eq_none_iff_sound _).mp hissue) loop
              loop.last_eq_start_iff⟩
        · cases h
  · rintro ⟨shown, h⟩
    cases h with
    | @unnamed earlier f hfirst hname =>
        have hissue := (fieldIssue?_eq_some_iff _ _).mpr ⟨earlier, f, hfirst, if_pos hname⟩
        simp only [checkType, hissue]
        rfl
    | @repeated earlier f hfirst hname =>
        have hissue := (fieldIssue?_eq_some_iff _ _).mpr ⟨earlier, f, hfirst, if_neg hname⟩
        simp only [checkType, hissue]
        rfl
    | circular hfields loop hcloses =>
        have hnone := (fieldIssue?_eq_none_iff_sound _).mpr hfields
        simp only [checkType, hnone, baseWalk_of_loop distinct member loop, if_true]

end Distinct

/-- Types are examined in order, up to the first that is turned down. -/
theorem forM_checkType_eq_error_iff (c : Catalog) (ds : List Declaration) (e : Inconsistency) :
    ds.forM c.checkType = .error e ↔
      ∃ before d after, ds = before ++ d :: after ∧ (∀ x ∈ before, c.checkType x = .ok ()) ∧
        c.checkType d = .error e := by
  induction ds with
  | nil => simp [pure, Except.pure]
  | cons d ds ih =>
      rw [forM_checkType_cons]
      cases hd : c.checkType d with
      | error e' =>
          constructor
          · intro h
            exact ⟨[], d, ds, rfl, by simp, hd.trans h⟩
          · rintro ⟨before, x, after, hsplit, hpass, hx⟩
            rcases split_cons hsplit with ⟨rfl, rfl⟩ | ⟨rest, rfl, -⟩
            · exact hd.symm.trans hx
            · cases hd.symm.trans (hpass d List.mem_cons_self)
      | ok _ =>
          rw [Except.bind, ih]
          constructor
          · rintro ⟨before, x, after, rfl, hpass, hx⟩
            exact ⟨d :: before, x, after, rfl, by simpa [hd] using hpass, hx⟩
          · rintro ⟨before, x, after, hsplit, hpass, hx⟩
            rcases split_cons hsplit with ⟨rfl, rfl⟩ | ⟨rest, rfl, hrest⟩
            · cases hd.symm.trans hx
            · exact ⟨rest, x, after, hrest,
                fun y member => hpass y (List.mem_cons_of_mem d member), hx⟩

theorem repeatedId?_eq_some_iff (ds : List Declaration) (k : TypeId) :
    repeatedId? [] ds = some k ↔
      ∃ before d after, ds = before ++ d :: after ∧ (before.map Declaration.id).Nodup ∧
        d.id ∈ before.map Declaration.id ∧ d.id = k := by
  rw [repeatedId?_eq_firstRepeat?, firstRepeat?_eq_some_iff]
  constructor
  · rintro ⟨before, d, ⟨⟨after, hsplit⟩, -, hdistinct, hagain⟩, hk⟩
    exact ⟨before, d, after, hsplit, hdistinct, by simpa using hagain, hk⟩
  · rintro ⟨before, d, after, hsplit, hdistinct, hagain, hk⟩
    exact ⟨before, d, ⟨⟨after, hsplit⟩, by simp, hdistinct, .inr hagain⟩, hk⟩

theorem check_eq_error_iff (c : Catalog) (e : Inconsistency) :
    c.check = .error e ↔ ∃ shown, c.FirstIssue e shown := by
  unfold check
  constructor
  · intro h
    split at h
    · next k hrepeated =>
        cases h
        obtain ⟨before, d, after, hsplit, hdistinct, hagain, rfl⟩ :=
          (repeatedId?_eq_some_iff _ _).mp hrepeated
        exact ⟨_, .declaredTwice hsplit hdistinct hagain⟩
    · next hnone =>
        have distinct := ((repeatedId?_eq_none_iff [] c.toList).mp hnone).2
        obtain ⟨before, d, after, hsplit, hpass, hd⟩ := (forM_checkType_eq_error_iff _ _ _).mp h
        have member : d ∈ c.toList := by simp [hsplit]
        obtain ⟨shown, hissue⟩ := (checkType_eq_error_iff distinct member e).mp hd
        refine ⟨shown, .ofType distinct hsplit ?_ hissue⟩
        intro x hx
        have member : x ∈ c.toList := by simp [hsplit, hx]
        exact (checkType_eq_ok_iff_sound distinct member).mp (hpass x hx)
  · rintro ⟨shown, h⟩
    cases h with
    | @declaredTwice before after d hsplit hdistinct hagain =>
        have hrepeated : repeatedId? [] c.toList = some d.id :=
          (repeatedId?_eq_some_iff _ _).mpr ⟨before, d, after, hsplit, hdistinct, hagain, rfl⟩
        rw [hrepeated]
    | @ofType before after d e shown distinct hsplit hsound hissue =>
        have hnone := (repeatedId?_eq_none_iff [] c.toList).mpr ⟨by simp, distinct⟩
        simp only [hnone]
        refine (forM_checkType_eq_error_iff _ _ _).mpr ⟨before, d, after, hsplit, ?_, ?_⟩
        · intro x hx
          have member : x ∈ c.toList := by simp [hsplit, hx]
          exact (checkType_eq_ok_iff_sound distinct member).mpr (hsound x hx)
        · have member : d ∈ c.toList := by simp [hsplit]
          exact (checkType_eq_error_iff distinct member e).mpr ⟨shown, hissue⟩

/-- The check turns a catalog down with its first problem and shows the text that goes
with it, and it turns no other catalog down. -/
theorem check_reports_first_issue (c : Catalog) (e : Inconsistency) (shown : String) :
    c.check = .error e ∧ e.message = shown ↔ c.FirstIssue e shown := by
  rw [check_eq_error_iff]
  constructor
  · rintro ⟨⟨text, first⟩, rfl⟩
    rw [first.message_eq]
    exact first
  · intro first
    exact ⟨⟨shown, first⟩, first.message_eq⟩

/-- Of two types that extend each other, a third one is reported that extends one of
them and comes first; it does not lie on the cycle. A bad field of an earlier type is
reported before all that. -/
theorem check_reports_first_issue_tail :
    let declare (name : String) (base : Option String) (fields : List String) : Declaration :=
      { name, kind := .classType, inNamespace := some "N", enclosing := [], typeParams := []
        base := base.map TypeId.mk, attributes := [], constructors := []
        fields := fields.map fun f => ⟨f, "int", true, false, false, false⟩ }
    let looping := [declare "T" (some "N.A") ["x"], declare "A" (some "N.B") [],
      declare "B" (some "N.A") ["y", ""]]
    let twice := declare "S" none ["x", "y", "x", ""]
    (Catalog.ofList looping).FirstIssue (.circular [⟨"N.T"⟩, ⟨"N.A"⟩, ⟨"N.B"⟩, ⟨"N.A"⟩])
        "circular base type chain detected: N.T -> N.A -> N.B -> N.A" ∧
      (Catalog.ofList (twice :: looping)).FirstIssue
        (.invalid "Duplicate field name 'x' in type 'N.S'")
        "validation error: Duplicate field name 'x' in type 'N.S'" ∧
      (Catalog.ofList (twice :: looping ++ [twice])).FirstIssue (.declaredTwice ⟨"N.S"⟩)
        "duplicate type declaration: 'N.S'" := by
  intro declare looping twice
  refine ⟨?_, ?_, ?_⟩
  · exact (check_reports_first_issue _ _ _).mp ⟨by decide +kernel, by decide +kernel⟩
  · exact (check_reports_first_issue _ _ _).mp ⟨by decide +kernel, by decide +kernel⟩
  · exact (check_reports_first_issue _ _ _).mp ⟨by decide +kernel, by decide +kernel⟩

end Catalog

end ConstructorSynthesis
