import ConstructorSynthesis.Files.Delivery
import ConstructorSynthesis.Proofs.Blueprint.Forwarding
import ConstructorSynthesis.Proofs.Blueprint.Selection
import ConstructorSynthesis.Proofs.Declaration.Path
import ConstructorSynthesis.Proofs.Repetition

/-!
The names of generated units. A unit is named after the shown name of its type,
with square brackets in place of angle brackets and without blanks. If brackets
stand only around type parameters and commas only between them, the identity of
the type can be read back from the name: each pair of brackets becomes an arity
mark again. So types of different identity have different names, and the files of
a generated list of units never clash.
-/

namespace ConstructorSynthesis

/-- Brackets and blanks are in no name, and brackets and commas in no type
parameter, on the path of the declaration. -/
structure Declaration.HasPlainPath (d : Declaration) : Prop where
  names : ∀ name ∈ d.pathNames, Text.Avoids ['<', '>', '[', ']', ' '] name.toList
  params : ∀ p ∈ d.pathParams, Text.Avoids ['<', '>', '[', ']', ','] p.toList

instance (d : Declaration) : Decidable d.HasPlainPath :=
  decidable_of_iff
    ((∀ name ∈ d.pathNames, Text.Avoids ['<', '>', '[', ']', ' '] name.toList) ∧
      ∀ p ∈ d.pathParams, Text.Avoids ['<', '>', '[', ']', ','] p.toList)
    ⟨fun h => ⟨h.1, h.2⟩, fun h => ⟨h.names, h.params⟩⟩

/-- Reads on in the name of a unit, back to an identity. Outside brackets, where
`open?` is `none`, characters are kept; `some n` says that a bracket is open and
that `n` parameters have begun in it. -/
def readStem (open? : Option Nat) : List Char → List Char
  | [] => []
  | c :: cs =>
      match open? with
      | none => if c = '[' then readStem (some 1) cs else c :: readStem none cs
      | some n =>
          if c = ']' then TypeId.arityMark n ++ readStem none cs
          else if c = ',' then readStem (some (n + 1)) cs
          else readStem (some n) cs

/-- What becomes of a character of a shown name in the name of a unit. -/
def stemChar? (c : Char) : Option Char :=
  if c = '<' then some '[' else if c = '>' then some ']' else if c = ' ' then none else some c

theorem Target.toList_stem (t : Target) :
    t.stem.toList = t.fullName.toList.filterMap stemChar? := by
  rw [stem, String.toList_ofList]
  rfl

/-- The part of a name that comes from the rest of a shown name, read back. -/
def readShown (open? : Option Nat) (cs : List Char) : List Char :=
  readStem open? (cs.filterMap stemChar?)

theorem readShown_outside {c : Char} (plain : c ∉ ['<', '>', '[', ']', ' ']) (cs : List Char) :
    readShown none (c :: cs) = c :: readShown none cs := by
  simp only [List.mem_cons, List.not_mem_nil, or_false, not_or] at plain
  have hkept : stemChar? c = some c := by simp [stemChar?, plain]
  simp [readShown, readStem, hkept, plain]

/-- Inside brackets a blank is gone already, and other characters are passed over. -/
theorem readShown_inside {c : Char} (plain : c ∉ ['<', '>', '[', ']', ',']) (n : Nat)
    (cs : List Char) : readShown (some n) (c :: cs) = readShown (some n) cs := by
  simp only [List.mem_cons, List.not_mem_nil, or_false, not_or] at plain
  by_cases hblank : c = ' '
  · have hdropped : stemChar? c = none := by simp [stemChar?, hblank]
    simp [readShown, hdropped]
  · have hkept : stemChar? c = some c := by simp [stemChar?, plain, hblank]
    simp [readShown, readStem, hkept, plain]

theorem carries_plain_name {name : String}
    (plain : Text.Avoids ['<', '>', '[', ']', ' '] name.toList) :
    Carries (readShown none) name.toList name.toList := by
  intro rest
  generalize name.toList = cs at plain
  induction cs with
  | nil => rfl
  | cons c cs ih =>
      rw [List.cons_append, List.cons_append, readShown_outside (plain c (by simp)),
        ih fun c member => plain c (by simp [member])]

theorem readShown_param {p : String}
    (plain : Text.Avoids ['<', '>', '[', ']', ','] p.toList) (n : Nat) (rest : List Char) :
    readShown (some n) (p.toList ++ rest) = readShown (some n) rest := by
  generalize p.toList = cs at plain
  induction cs with
  | nil => rfl
  | cons c cs ih =>
      rw [List.cons_append, readShown_inside (plain c (by simp)),
        ih fun c member => plain c (by simp [member])]

/-- The type parameters between brackets leave their number behind. -/
theorem readShown_params {first : String} {others : List String}
    (plain : ∀ p ∈ first :: others, Text.Avoids ['<', '>', '[', ']', ','] p.toList)
    (n : Nat) (rest : List Char) :
    readShown (some n) ((", ".intercalate (first :: others)).toList ++ '>' :: rest) =
      TypeId.arityMark (n + others.length) ++ readShown none rest := by
  induction others generalizing first n with
  | nil =>
      rw [String.intercalate_singleton, readShown_param (plain first (by simp))]
      rfl
  | cons next others ih =>
      have hcomma (cs : List Char) :
          readShown (some n) (", ".toList ++ cs) = readShown (some (n + 1)) cs := rfl
      rw [String.intercalate_cons_cons, String.toList_append, String.toList_append,
        List.append_assoc, List.append_assoc, readShown_param (plain first (by simp)), hcomma,
        ih fun p member => plain p (List.mem_cons_of_mem first member), List.length_cons,
        Nat.add_assoc, Nat.add_comm 1]

/-- A shown segment is read back as its form in the identity. -/
theorem carries_genericName {name : String} {params : List String}
    (hname : Text.Avoids ['<', '>', '[', ']', ' '] name.toList)
    (hparams : ∀ p ∈ params, Text.Avoids ['<', '>', '[', ']', ','] p.toList) :
    Carries (readShown none) (genericName name params).toList (idSegment name params).toList := by
  intro rest
  have hkept := carries_plain_name hname
  cases params with
  | nil => simpa [genericName, idSegment, TypeId.arityMark] using hkept rest
  | cons first others =>
      have hopen (cs : List Char) : readShown none ('<' :: cs) = readShown (some 1) cs := rfl
      have hshown : (genericName name (first :: others)).toList ++ rest =
          name.toList ++ '<' :: ((", ".intercalate (first :: others)).toList ++ '>' :: rest) := by
        simp [genericName]
      rw [hshown, hkept, hopen, readShown_params hparams, Nat.add_comm 1]
      simp [idSegment]

/-- The identity of a type is read back from the name of its unit. -/
theorem readStem_stem {d : Declaration} (plain : d.HasPlainPath) (c : Catalog) :
    readStem none (Target.ofDeclaration c d).stem.toList = d.id.text.toList := by
  rw [Target.toList_stem, Declaration.toList_fullName]
  change readShown none (d.pathText _) = _
  apply Declaration.scan_pathText
  · rfl
  · intro rest
    exact readShown_outside (by decide) rest
  · intro name member
    exact carries_plain_name (plain.names name (Declaration.mem_pathNames_of_inNamespace member))
  · rw [List.forall₂_map_right_iff, List.forall₂_same]
    intro s member
    apply carries_genericName
    · exact plain.names s.1 (Declaration.mem_pathNames_of_segment member)
    · intro p hp
      exact plain.params p (Declaration.mem_pathParams_of_segment member hp)

/-- Types with different identities have units with different names. -/
theorem id_eq_of_stem_eq {d e : Declaration} (hd : d.HasPlainPath) (he : e.HasPlainPath)
    {c b : Catalog} (same : (Target.ofDeclaration c d).stem = (Target.ofDeclaration b e).stem) :
    d.id = e.id := by
  have htext : d.id.text.toList = e.id.text.toList := by
    rw [← readStem_stem hd c, same, readStem_stem he b]
  exact congrArg TypeId.mk (String.toList_inj.mp htext)

/-- The names of the units of a run are the names for the scheduled targets. -/
theorem map_name_draftAll (settings : Settings) (targets : List Target) :
    ((draftAll targets).map (Drafted.unit settings)).map SourceUnit.name =
      (schedule targets).map Target.stem := by
  rw [← map_target_draftAll, List.map_map, List.map_map]
  rfl

/-- What generation returns are the drafted targets, rendered. -/
theorem eq_units_of_generate {settings : Settings} {cancelled : Bool} {c : Catalog}
    {units : List SourceUnit} (h : generate settings cancelled c = .ok units) :
    units = (draftAll c.targets).map (Drafted.unit settings) := by
  unfold generate at h
  split at h
  · cases h
  · unfold generateTargets at h
    split at h
    · cases h
    · exact (Except.ok.inj h).symm

/-- In a catalog of plain paths, no two targets give their units the same name. -/
theorem nodup_stems_targets {c : Catalog} (plain : ∀ d ∈ c.toList, d.HasPlainPath) :
    (c.targets.map Target.stem).Nodup := by
  have distinct := c.nodup_ids_targets
  apply distinct.of_map.map_on
  intro t ht u hu same
  obtain ⟨d, hd, -, rfl⟩ := Catalog.exists_declaration_of_mem_targets ht
  obtain ⟨e, he, -, rfl⟩ := Catalog.exists_declaration_of_mem_targets hu
  have hid : d.id = e.id := id_eq_of_stem_eq (plain d hd) (plain e he) same
  exact List.inj_on_of_nodup_map distinct ht hu hid

theorem repeatedFileName?_eq_firstRepeat? (seen : List String) (us : List SourceUnit) :
    repeatedFileName? seen us = firstRepeat? SourceUnit.fileName seen us := by
  induction us generalizing seen with
  | nil => rfl
  | cons u us ih => simp only [repeatedFileName?, firstRepeat?, List.contains_iff_mem, ih]

theorem repeatedFileName?_eq_none_iff (seen : List String) (us : List SourceUnit) :
    repeatedFileName? seen us = none ↔
      (∀ u ∈ us, u.fileName ∉ seen) ∧ (us.map SourceUnit.fileName).Nodup := by
  rw [repeatedFileName?_eq_firstRepeat?, firstRepeat?_eq_none_iff]

theorem nodup_fileNames {us : List SourceUnit} (h : (us.map SourceUnit.name).Nodup) :
    (us.map SourceUnit.fileName).Nodup := by
  have happend : us.map SourceUnit.fileName = (us.map SourceUnit.name).map (· ++ ".g.cs") := by
    rw [List.map_map]
    rfl
  rw [happend]
  apply h.map
  intro a b same
  exact (String.append_left_inj _).mp same

/-- While files are written, only the file system can stop it. -/
theorem deliverFiles_failure_ne (fs : Files.FileSystem) (written : List String)
    (files : List (String × String)) (note : String) :
    (deliverFiles fs written files).failure ≠ some (.failed note) := by
  induction files generalizing fs written with
  | nil => simp [deliverFiles]
  | cons file rest ih =>
      rw [deliverFiles]
      split
      · simp
      · exact ih _ _

/-- Units with different names are never turned down for their names. -/
theorem deliver_failure_ne {us : List SourceUnit} (h : (us.map SourceUnit.name).Nodup)
    (fs : Files.FileSystem) (directory note : String) :
    (deliver fs directory us).failure ≠ some (.failed note) := by
  have hclear : repeatedFileName? [] us = none :=
    (repeatedFileName?_eq_none_iff [] us).mpr ⟨by simp, nodup_fileNames h⟩
  simp only [deliver, addressed, hclear]
  split
  · simp
  · exact deliverFiles_failure_ne _ _ _ note

/-- With plain paths, units of different types have different names. So whatever
a catalog of such declarations generates has pairwise distinct names, and writing
it, into any directory of any file system, never ends in a clash of files. -/
theorem unit_names_are_distinct :
    (∀ (c b : Catalog) (d e : Declaration), d.HasPlainPath → e.HasPlainPath →
      (Target.ofDeclaration c d).stem = (Target.ofDeclaration b e).stem →
      (Target.ofDeclaration c d).id = (Target.ofDeclaration b e).id) ∧
    ∀ (settings : Settings) (cancelled : Bool) (c : Catalog) (units : List SourceUnit),
      (∀ d ∈ c.toList, d.HasPlainPath) → generate settings cancelled c = .ok units →
      (units.map SourceUnit.name).Nodup ∧
        ∀ (fs : Files.FileSystem) (directory note : String),
          (deliver fs directory units).failure ≠ some (.failed note) := by
  constructor
  · intro c b d e hd he same
    exact id_eq_of_stem_eq hd he same
  · intro settings cancelled c units plain hrun
    have hnames : (units.map SourceUnit.name).Nodup := by
      rw [eq_units_of_generate hrun, map_name_draftAll]
      exact ((schedule_perm c.targets).map _).nodup_iff.mpr (nodup_stems_targets plain)
    exact ⟨hnames, deliver_failure_ne hnames⟩

/-- A declaration that asks for a constructor and has no members. -/
def Declaration.bare (inNamespace : Option String) (enclosing : List EnclosingType) (name : String)
    (typeParams : List String) : Declaration where
  name := name
  kind := .classType
  inNamespace := inNamespace
  enclosing := enclosing
  typeParams := typeParams
  base := none
  attributes := ["AutoConstruct"]
  fields := []
  constructors := []

/-- A namespace and an enclosing type can be told apart neither by names nor by
identities. Of two types of one name and arity, the first one gets a unit; other
arities are different types, also where a parameter has no text. -/
theorem unit_names_are_distinct_arities :
    let map : EnclosingType := ⟨"Map", .classType, ["K", "V"]⟩
    let plain := Declaration.bare (some "Demo") [] "Box" []
    let one := Declaration.bare (some "Demo") [] "Box" [""]
    let again := Declaration.bare (some "Demo") [] "Box" ["in T"]
    let two := Declaration.bare (some "Demo") [] "Box" ["", ""]
    let nested := Declaration.bare none [⟨"Demo", .classType, []⟩, map] "Entry" ["T"]
    let spaced := Declaration.bare (some "Demo") [map] "Entry" ["T "]
    let c := Catalog.ofList [plain, one, again, two, nested]
    let settings := { Settings.default with checks := false }
    ((nested.HasPlainPath ∧ spaced.HasPlainPath) ∧
      (Target.ofDeclaration c nested).stem = (Target.ofDeclaration c spaced).stem ∧
      (Target.ofDeclaration c nested).id = (Target.ofDeclaration c spaced).id) ∧
    (∀ d ∈ c.toList, d.HasPlainPath) ∧
    ∃ units, generate settings false c = .ok units ∧
      units.map SourceUnit.name =
        ["Demo.Box", "Demo.Box[]", "Demo.Box[,]", "Demo.Map[K,V].Entry[T]"] ∧
      (units.map SourceUnit.name).Nodup ∧
      ∀ note, (deliver ⟨[], []⟩ "out" units).failure ≠ some (.failed note) := by
  intro map plain one again two nested spaced c settings
  have hnested : nested.HasPlainPath := by decide +kernel
  have hspaced : spaced.HasPlainPath := by decide +kernel
  have same : (Target.ofDeclaration c nested).stem = (Target.ofDeclaration c spaced).stem := by
    decide +kernel
  have hplain : ∀ d ∈ c.toList, d.HasPlainPath := by decide +kernel
  have hrun : generate settings false c =
      .ok ((draftAll c.targets).map (Drafted.unit settings)) := rfl
  obtain ⟨hnodup, hdelivered⟩ :=
    unit_names_are_distinct.2 settings false c _ hplain hrun
  refine ⟨⟨⟨hnested, hspaced⟩, same, ?_⟩, hplain, _, hrun, ?_, hnodup, hdelivered _ _⟩
  · exact unit_names_are_distinct.1 c c nested spaced hnested hspaced same
  · rw [map_name_draftAll]
    decide +kernel

end ConstructorSynthesis
