import ConstructorSynthesis.Proofs.Files.Delivery
import ConstructorSynthesis.Proofs.Generation.Outcome

/-!
Where the files of generated units end up. The name of a unit is put together from
the texts on the path of its type, and nothing but a slash in one of them can lead
out of the directory that the units are written into. Reading and checking let a
slash pass, and a unit whose name has one may be written elsewhere.
-/

namespace ConstructorSynthesis

open Files (FileSystem Location joinPath)

theorem mem_intercalate_iff {α : Type} {separator : List α} {x : α} (other : x ∉ separator)
    (parts : List (List α)) :
    x ∈ separator.intercalate parts ↔ ∃ part ∈ parts, x ∈ part := by
  induction parts with
  | nil => simp
  | cons part parts ih =>
      cases parts with
      | nil => simp
      | cons next parts =>
          rw [List.intercalate_cons_cons, List.mem_append, List.mem_append, ih]
          simp [other]

theorem slash_mem_genericName_iff (name : String) (params : List String) :
    '/' ∈ (genericName name params).toList ↔
      '/' ∈ name.toList ∨ ∃ p ∈ params, '/' ∈ p.toList := by
  unfold genericName
  split
  · next hempty => simp [List.isEmpty_iff.mp hempty]
  · have hjoined : '/' ∈ [',', ' '].intercalate (params.map String.toList) ↔
        ∃ p ∈ params, '/' ∈ p.toList := by
      rw [mem_intercalate_iff (by decide)]
      simp
    simp [hjoined]

theorem stemChar?_eq_slash_iff (c : Char) : stemChar? c = some '/' ↔ c = '/' := by
  unfold stemChar?
  grind

/-- The declaration has a slash in a name or in a type parameter on its path. -/
def Declaration.HasSlash (d : Declaration) : Prop :=
  ∃ text ∈ d.pathNames ++ d.pathParams, '/' ∈ text.toList

instance (d : Declaration) : Decidable d.HasSlash :=
  inferInstanceAs (Decidable (∃ text ∈ d.pathNames ++ d.pathParams, '/' ∈ text.toList))

/-- A slash in the name of a unit comes from the path of the type. -/
theorem hasSlash_of_slash_mem_stem {c : Catalog} {d : Declaration}
    (h : '/' ∈ (Target.ofDeclaration c d).stem.toList) : d.HasSlash := by
  rw [Target.toList_stem, List.mem_filterMap] at h
  obtain ⟨x, hfull, hx⟩ := h
  obtain rfl := (stemChar?_eq_slash_iff x).mp hx
  rw [Declaration.toList_fullName, Declaration.pathText, mem_intercalate_iff (by decide)] at hfull
  obtain ⟨part, hpart, hslash⟩ := hfull
  rcases List.mem_append.mp hpart with hns | hsegment
  · obtain ⟨name, member, rfl⟩ := List.mem_map.mp hns
    have hname := Declaration.mem_pathNames_of_inNamespace (Option.mem_toList.mp member)
    exact ⟨name, List.mem_append_left _ hname, hslash⟩
  · obtain ⟨segment, member, rfl⟩ := List.mem_map.mp hsegment
    rcases (slash_mem_genericName_iff _ _).mp hslash with hname | ⟨p, hp, hparam⟩
    · exact ⟨_, List.mem_append_left _ (Declaration.mem_pathNames_of_segment member), hname⟩
    · exact ⟨p, List.mem_append_right _ (Declaration.mem_pathParams_of_segment member hp), hparam⟩

/-- A unit is generated for a declaration that asks for it, and is named after it. -/
theorem exists_declaration_of_generated {settings : Settings} {cancelled : Bool} {c : Catalog}
    {units : List SourceUnit} (generated : generate settings cancelled c = .ok units)
    {u : SourceUnit} (member : u ∈ units) :
    ∃ d ∈ c.toList, d.requestsConstructor = true ∧ u.name = (Target.ofDeclaration c d).stem := by
  have hname : u.name ∈ units.map SourceUnit.name := List.mem_map_of_mem member
  rw [eq_units_of_generate generated, map_name_draftAll] at hname
  obtain ⟨t, ht, hstem⟩ := List.mem_map.mp hname
  obtain ⟨d, hd, asks, rfl⟩ :=
    Catalog.exists_declaration_of_mem_targets ((schedule_perm c.targets).mem_iff.mp ht)
  exact ⟨d, hd, asks, hstem.symm⟩

/-- Whatever a catalog generates, and wherever it is written to: a file that was
created or changed, also by a delivery that failed later on, is the file of a type
that asks for a constructor, since the name of that type's unit, joined to the
directory, leads to it. It is a direct child of the directory unless there is a slash
on the path of that very type. -/
theorem changed_files_are_children {settings : Settings} {cancelled : Bool} {c : Catalog}
    {units : List SourceUnit} (generated : generate settings cancelled c = .ok units)
    {fs after : FileSystem} {directory : String}
    (delivered : (deliver fs directory units).files = after) {l : Location} {content : ByteArray}
    (there : after.entry? l = some (.file content))
    (changed : fs.entry? l ≠ some (.file content)) :
    ∃ d ∈ c.toList, d.requestsConstructor = true ∧
      after.HoldsFile (joinPath directory ((Target.ofDeclaration c d).stem ++ ".g.cs")) l content ∧
      (d.HasSlash ∨ ∃ around, after.LeadsTo directory around ∧
        l = around ++ [(Target.ofDeclaration c d).stem ++ ".g.cs"]) := by
  subst delivered
  obtain ⟨u, member, hholds, hplace⟩ :=
    confined_deliver fs directory units l content there changed
  obtain ⟨d, hd, asks, hname⟩ := exists_declaration_of_generated generated member
  have hfile : u.fileName = (Target.ofDeclaration c d).stem ++ ".g.cs" := by
    rw [SourceUnit.fileName, hname]
  rw [hfile] at hholds hplace
  refine ⟨d, hd, asks, ⟨hholds.valid, hholds.leads, there⟩, ?_⟩
  rcases hplace with hslash | hchild
  · left
    rw [hname] at hslash
    exact hasSlash_of_slash_mem_stem hslash
  · exact Or.inr hchild

/-- The file of a type without a slash, in a directory that delivery makes. -/
theorem changed_files_are_children_new :
    let d := Declaration.bare (some "Demo") [] "A" ["T"]
    let c := Catalog.ofList [d]
    let units := (draftAll c.targets).map (Drafted.unit .default)
    let fs : FileSystem := ⟨[], []⟩
    let after := (deliver fs "out" units).files
    let place := ["out", "Demo.A[T].g.cs"]
    generate .default false c = .ok units ∧ fs.entry? place = none ∧
      (∃ content, after.entry? place = some (.file content) ∧
        after.HoldsFile "out/Demo.A[T].g.cs" place content) ∧
      ∃ around, after.LeadsTo "out" around ∧ place = around ++ ["Demo.A[T].g.cs"] := by
  intro d c units fs after place
  have hcheck : c.check = .ok () := by decide +kernel
  have generated : generate .default false c = .ok units := by
    rw [generate_of_passes fun _ => hcheck]
    exact generateTargets_of_free nofun
  have hfile : after.isFileAt place = true := by decide +kernel
  obtain ⟨content, there⟩ := (after.isFileAt_iff place).mp hfile
  have hnew : fs.entry? place = none := rfl
  have changed : fs.entry? place ≠ some (.file content) := by simp [hnew]
  obtain ⟨e, he, -, hholds, hplace⟩ := changed_files_are_children generated rfl there changed
  have hlist : c.toList = [d] := Catalog.toList_ofList [d]
  obtain rfl : e = d := by simpa [hlist] using he
  have hplain : ¬ d.HasSlash := by decide +kernel
  have hname : (Target.ofDeclaration c d).stem ++ ".g.cs" = "Demo.A[T].g.cs" := by decide +kernel
  have hpath : joinPath "out" "Demo.A[T].g.cs" = "out/Demo.A[T].g.cs" := by decide +kernel
  rw [hname] at hholds hplace
  rw [hpath] at hholds
  exact ⟨generated, hnew, ⟨content, there, hholds⟩, hplace.resolve_left hplain⟩

/-- A type whose name goes up one level passes reading and checking, and its unit
is written beside the directory `out` instead of into it. -/
theorem delivery_leaves_directory :
    let text := "<declarations><type name='../A'><attribute name='AutoConstruct'/></type>" ++
      "</declarations>"
    let c := Catalog.ofList [Declaration.bare none [] "../A" []]
    let units := (draftAll c.targets).map (Drafted.unit .default)
    let fs : FileSystem := ⟨[], []⟩
    let after := (deliver fs "out" units).files
    Document.parse text = .ok c ∧ generate .default false c = .ok units ∧
      fs.entry? ["A.g.cs"] = none ∧ (∃ content, after.entry? ["A.g.cs"] = some (.file content)) ∧
      after.LeadsTo "out" ["out"] ∧
      ∀ around, after.LeadsTo "out" around → ∀ name, ["A.g.cs"] ≠ around ++ [name] := by
  intro text c units fs after
  have hread : Document.declarationsOf text = .ok [Declaration.bare none [] "../A" []] := by
    decide +kernel
  have hparse : Document.parse text = .ok c := by
    rw [Document.parse, hread]
    rfl
  have hcheck : c.check = .ok () := by decide +kernel
  have hleads : after.LeadsTo "out" ["out"] := by decide +kernel
  have hfile : after.isFileAt ["A.g.cs"] = true := by decide +kernel
  refine ⟨hparse, ?_, rfl, (after.isFileAt_iff _).mp hfile, hleads, ?_⟩
  · rw [generate_of_passes fun _ => hcheck]
    exact generateTargets_of_free nofun
  · intro around hsame name
    rw [hsame.unique hleads]
    simp

end ConstructorSynthesis
