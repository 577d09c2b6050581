import ConstructorSynthesis.Proofs.Blueprint.Selection
import ConstructorSynthesis.Proofs.Blueprint.Run
import ConstructorSynthesis.Proofs.Repetition
import ConstructorSynthesis.Generation.Basic

/-!
How a generation run ends. A failed check comes first, a cancelled run with
something to do second, and otherwise every type with a request is drafted and
written into the ledger once. `Outcome` states the three ends by what the catalog
declares, without the steps of the run, and generation is shown to end in the one
outcome that holds. Types whose base is drafted as well come behind the others,
and in a cycle all types do; no type is lost by that.
-/

namespace ConstructorSynthesis

section Ledger

/-- In a run over different types that the ledger does not know, every entry is
new when it is written. -/
theorem isNew_of_mem_draftInOrder {ledger : Ledger} {ts : List Target}
    (distinct : (ts.map Target.id).Nodup) (unknown : ∀ t ∈ ts, ledger.get? t.id = none)
    {d : Drafted} (member : d ∈ draftInOrder ledger ts) : d.isNew = true := by
  -- The ledger grows, but it never knows a type that still comes.
  induction ts generalizing ledger with
  | nil => cases member
  | cons t ts ih =>
      rw [List.map_cons, List.nodup_cons] at distinct
      rw [draftInOrder_cons] at member
      rcases List.mem_cons.mp member with rfl | later
      · simp [unknown t]
      · refine ih distinct.2 ?_ later
        intro u hu
        have hother : t.id ≠ u.id := by
          intro same
          exact distinct.1 (same ▸ List.mem_map_of_mem hu)
        rw [Ledger.get?_record, if_neg hother]
        exact unknown u (List.mem_cons_of_mem t hu)

/-- After drafts of different types the ledger holds the parameters of each. -/
theorem get?_recordAll_of_mem {drafts : List Drafted}
    (distinct : (drafts.map (·.target.id)).Nodup) {d : Drafted} (member : d ∈ drafts) :
    (Ledger.empty.recordAll drafts).get? d.target.id = some d.blueprint.parameters := by
  have hfound : drafts.find? (·.target.id == d.target.id) = some d :=
    (find?_key_eq_some_iff (·.target.id) distinct _ d).mpr ⟨member, rfl⟩
  rw [Ledger.get?_recordAll, Ledger.get?_empty, Option.none_or, settled?, hfound]
  rfl

end Ledger

namespace Catalog

theorem targets_isEmpty_iff (c : Catalog) :
    c.targets.isEmpty = true ↔ ∀ d ∈ c.toList, d.requestsConstructor = false := by
  constructor
  · intro hnone d member
    by_contra asks
    have hid : d.id ∈ c.targets.map Target.id :=
      (c.mem_ids_targets_iff d.id).mpr
        ((c.request?_isSome_iff d.id).mpr ⟨d, member, by simpa using asks, rfl⟩)
    rw [List.isEmpty_iff.mp hnone] at hid
    cases hid
  · intro hnone
    rw [List.isEmpty_iff, List.eq_nil_iff_forall_not_mem]
    intro t member
    obtain ⟨d, hd, asks, -⟩ := exists_declaration_of_mem_targets member
    simp [hnone d hd] at asks

/-- The base of the declaration has a request as well. -/
def extendsRequest (c : Catalog) (d : Declaration) : Bool := (d.base.bind c.request?).isSome

theorem isRoot_targets (c : Catalog) (d : Declaration) :
    isRoot c.targets (Target.ofDeclaration c d) = !c.extendsRequest d := by
  have hany (k : TypeId) : c.targets.any (·.id == k) = (c.request? k).isSome := by
    rw [Bool.eq_iff_iff, ← mem_ids_targets_iff]
    simp
  rw [isRoot, Target.baseId_ofDeclaration, extendsRequest]
  cases d.base with
  | none => rfl
  | some k => simp [hany]

/-- The targets are drafted in the order of their requests, those that extend
another request behind the others. -/
theorem schedule_targets {c : Catalog} {asking : List Declaration}
    (h : c.FirstRequests asking) :
    schedule c.targets =
      (asking.filter (fun d => !c.extendsRequest d) ++ asking.filter c.extendsRequest).map
        (Target.ofDeclaration c) := by
  obtain ⟨requests, hrequests, htargets⟩ := c.targets_eq
  obtain rfl := h.unique hrequests
  have hroots : isRoot c.targets ∘ Target.ofDeclaration c = fun d => !c.extendsRequest d :=
    funext c.isRoot_targets
  have hothers : (fun t => !isRoot c.targets t) ∘ Target.ofDeclaration c = c.extendsRequest :=
    funext fun d => by simp [c.isRoot_targets]
  rw [schedule_eq, List.map_append, ← hroots, ← hothers, ← List.filter_map, ← List.filter_map,
    ← htargets]

/-- These are the drafts of a run that nothing stops. -/
structure CompleteRun (c : Catalog) (drafts : List Drafted) : Prop where
  /-- Exactly the types with a request are drafted. -/
  covers : ∀ k, k ∈ drafts.map (·.target.id) ↔
    ∃ d ∈ c.toList, d.requestsConstructor = true ∧ d.id = k
  /-- No type is drafted twice. -/
  distinct : (drafts.map (·.target.id)).Nodup
  /-- Types that extend none of the others come first, and the first request of
  a type gives it its place. -/
  order : ∃ asking, c.FirstRequests asking ∧
    drafts.map Drafted.target =
      (asking.filter (fun d => !c.extendsRequest d) ++ asking.filter c.extendsRequest).map
        (Target.ofDeclaration c)
  /-- Each draft is made with what the ones before it settled. -/
  drafted : drafts = draftInOrder .empty (drafts.map Drafted.target)
  /-- Every recording writes, -/
  isNew : ∀ d ∈ drafts, d.isNew = true
  /-- and what it writes stays. -/
  recorded : ∀ d ∈ drafts,
    (Ledger.empty.recordAll drafts).get? d.target.id = some d.blueprint.parameters

theorem completeRun_draftAll (c : Catalog) : c.CompleteRun (draftAll c.targets) := by
  have htargets := map_target_draftAll c.targets
  have hids : (draftAll c.targets).map (·.target.id) = (schedule c.targets).map Target.id := by
    rw [← htargets, List.map_map]
    rfl
  have hperm : ((schedule c.targets).map Target.id).Perm (c.targets.map Target.id) :=
    (schedule_perm c.targets).map Target.id
  have distinct : ((schedule c.targets).map Target.id).Nodup :=
    hperm.nodup_iff.mpr c.nodup_ids_targets
  constructor
  case covers =>
    intro k
    rw [hids, hperm.mem_iff, mem_ids_targets_iff, request?_isSome_iff]
  case distinct =>
    rw [hids]
    exact distinct
  case order =>
    obtain ⟨asking, hasking, -⟩ := c.targets_eq
    exact ⟨asking, hasking, htargets.trans (schedule_targets hasking)⟩
  case drafted =>
    rw [htargets]
    rfl
  case isNew =>
    intro d member
    exact isNew_of_mem_draftInOrder distinct (fun t _ => Ledger.get?_empty t.id) member
  case recorded =>
    intro d member
    rw [← hids] at distinct
    exact get?_recordAll_of_mem distinct member

/-- There is one complete run of a catalog. -/
theorem CompleteRun.eq_draftAll {c : Catalog} {drafts : List Drafted}
    (run : c.CompleteRun drafts) : drafts = draftAll c.targets := by
  obtain ⟨asking, hasking, horder⟩ := run.order
  rw [run.drafted, horder, ← schedule_targets hasking]
  rfl

end Catalog

/-- How generation from a catalog ends. -/
inductive Outcome (settings : Settings) (cancelled : Bool) (c : Catalog) :
    Except GenerationError (List SourceUnit) → Prop where
  /-- The catalog is checked and does not pass, cancelled or not. -/
  | inconsistent {error : Inconsistency} (checks : settings.checks = true)
      (fails : c.check = .error error) :
      Outcome settings cancelled c (.error (.declarations error))
  /-- The run is cancelled and some declaration asks for a constructor. -/
  | stopped (passes : settings.checks = true → c.check = .ok ()) (stop : cancelled = true)
      (asked : ∃ d ∈ c.toList, d.requestsConstructor = true) :
      Outcome settings cancelled c (.error .cancelled)
  /-- Every type with a request gets its unit. -/
  | finished {drafts : List Drafted} (passes : settings.checks = true → c.check = .ok ())
      (free : cancelled = true → ∀ d ∈ c.toList, d.requestsConstructor = false)
      (run : c.CompleteRun drafts) :
      Outcome settings cancelled c (.ok (drafts.map (Drafted.unit settings)))

section Outcome

variable {settings : Settings} {cancelled : Bool} {c : Catalog}

theorem generate_of_passes (passes : settings.checks = true → c.check = .ok ()) :
    generate settings cancelled c = generateTargets settings cancelled c.targets := by
  have hadmits : settings.admits c = .ok () := by
    rw [Settings.admits]
    split
    · next checks => exact passes checks
    · rfl
  rw [generate, hadmits]

theorem generate_of_fails {error : Inconsistency} (checks : settings.checks = true)
    (fails : c.check = .error error) :
    generate settings cancelled c = .error (.declarations error) := by
  rw [generate, Settings.admits, if_pos checks, fails]

theorem generateTargets_of_free
    (free : cancelled = true → ∀ d ∈ c.toList, d.requestsConstructor = false) :
    generateTargets settings cancelled c.targets =
      .ok ((draftAll c.targets).map (Drafted.unit settings)) := by
  have hfree : (cancelled && !c.targets.isEmpty) = false := by
    cases cancelled with
    | false => rfl
    | true => simp [c.targets_isEmpty_iff.mpr (free rfl)]
  rw [generateTargets, hfree]
  rfl

theorem generateTargets_of_asked (stop : cancelled = true)
    (asked : ∃ d ∈ c.toList, d.requestsConstructor = true) :
    generateTargets settings cancelled c.targets = .error .cancelled := by
  have hsome : c.targets.isEmpty = false := by
    obtain ⟨d, member, asks⟩ := asked
    rw [Bool.eq_false_iff, Ne, c.targets_isEmpty_iff]
    intro hnone
    simp [hnone d member] at asks
  simp [generateTargets, stop, hsome]

theorem Outcome.generate_eq {result : Except GenerationError (List SourceUnit)}
    (h : Outcome settings cancelled c result) : generate settings cancelled c = result := by
  cases h with
  | inconsistent checks fails => exact generate_of_fails checks fails
  | stopped passes stop asked =>
      rw [generate_of_passes passes, generateTargets_of_asked stop asked]
  | finished passes free run =>
      rw [generate_of_passes passes, generateTargets_of_free free, run.eq_draftAll]

/-- One of the outcomes always holds. -/
theorem exists_outcome (settings : Settings) (cancelled : Bool) (c : Catalog) :
    ∃ result, Outcome settings cancelled c result := by
  by_cases fails : settings.checks = true ∧ ∃ error, c.check = .error error
  · obtain ⟨checks, error, hcheck⟩ := fails
    exact ⟨_, .inconsistent checks hcheck⟩
  · have passes : settings.checks = true → c.check = .ok () := by
      intro checks
      cases hcheck : c.check with
      | error error => exact absurd ⟨checks, error, hcheck⟩ fails
      | ok _ => rfl
    by_cases stops : cancelled = true ∧ ∃ d ∈ c.toList, d.requestsConstructor = true
    · exact ⟨_, .stopped passes stops.1 stops.2⟩
    · refine ⟨_, .finished passes ?_ c.completeRun_draftAll⟩
      intro stop d member
      by_contra asks
      exact stops ⟨stop, d, member, by simpa using asks⟩

end Outcome

/-- Generation ends with a result exactly if that is its outcome. So there are no
other failures, and a run that is not stopped gives one unit for each type with a
request: first for those whose base has none, then for the others, both in the
order of the catalog, and no type is written into the ledger twice. -/
theorem generate_eq_iff_outcome (settings : Settings) (cancelled : Bool) (c : Catalog)
    (result : Except GenerationError (List SourceUnit)) :
    generate settings cancelled c = result ↔ Outcome settings cancelled c result := by
  constructor
  · rintro rfl
    obtain ⟨result, h⟩ := exists_outcome settings cancelled c
    rw [h.generate_eq]
    exact h
  · exact Outcome.generate_eq

/-- A cycle, a type behind it, a type that asks twice and a base that does not
ask. The check fails whether the run is cancelled or not; without the check a
cancelled run stops, unless nothing asks, and the other run drafts each type
once, the one whose base does not ask before the others. -/
theorem generate_eq_iff_outcome_cycle :
    let declare (name : String) (base : Option TypeId) (marks : List String) : Declaration :=
      { name := name, kind := .classType, inNamespace := none, enclosing := [], typeParams := []
        base := base, attributes := marks, fields := [⟨"_x", "int", true, false, false, false⟩]
        constructors := [] }
    let a := declare "A" (some ⟨"B"⟩) ["AutoConstruct"]
    let b := declare "B" (some ⟨"A"⟩) ["AutoConstruct"]
    let quiet := declare "Q" none []
    let above := declare "R" (some ⟨"Q"⟩) ["AutoConstruct"]
    let behind := declare "S" (some ⟨"A"⟩) ["AutoConstruct"]
    let c := Catalog.ofList [behind, a, quiet, b, a, above]
    let unchecked := { Settings.default with checks := false }
    (∀ cancelled, generate .default cancelled c =
      .error (.declarations (.declaredTwice ⟨"A"⟩))) ∧
    generate unchecked true c = .error .cancelled ∧
    generate unchecked true (.ofList [quiet]) = .ok [] ∧
    ∃ drafts, generate unchecked false c = .ok (drafts.map (Drafted.unit unchecked)) ∧
      c.CompleteRun drafts ∧ drafts.map (·.target.name) = ["R", "S", "A", "B"] := by
  intro declare a b quiet above behind c unchecked
  have hlist : c.toList = [behind, a, quiet, b, a, above] := Catalog.toList_ofList _
  have hcheck : c.check = .error (.declaredTwice ⟨"A"⟩) := by
    have htwice : repeatedId? [] [behind, a, quiet, b, a, above] = some ⟨"A"⟩ := by
      decide +kernel
    rw [Catalog.check, hlist, htwice]
  have hskipped (c : Catalog) : unchecked.checks = true → c.check = .ok () := nofun
  refine ⟨?_, ?_, ?_, draftAll c.targets, ?_, c.completeRun_draftAll, ?_⟩
  · intro cancelled
    exact (generate_eq_iff_outcome _ _ _ _).mpr (.inconsistent rfl hcheck)
  · refine (generate_eq_iff_outcome _ _ _ _).mpr (.stopped (hskipped c) rfl ⟨a, ?_, by decide⟩)
    simp [hlist]
  · have hquiet : ∀ d ∈ (Catalog.ofList [quiet]).toList, d.requestsConstructor = false := by
      rw [Catalog.toList_ofList]
      decide
    have hnone : (Catalog.ofList [quiet]).targets = [] :=
      List.isEmpty_iff.mp ((Catalog.targets_isEmpty_iff _).mpr hquiet)
    have hrun := (Catalog.ofList [quiet]).completeRun_draftAll
    rw [hnone] at hrun
    exact (generate_eq_iff_outcome _ _ _ _).mpr (.finished (hskipped _) (fun _ => hquiet) hrun)
  · exact (generate_eq_iff_outcome _ _ _ _).mpr
      (.finished (hskipped c) nofun c.completeRun_draftAll)
  · have hnames : (draftAll c.targets).map (·.target.name) =
        (schedule c.targets).map Target.name := by
      rw [← map_target_draftAll, List.map_map]
      rfl
    rw [hnames]
    decide +kernel

end ConstructorSynthesis
