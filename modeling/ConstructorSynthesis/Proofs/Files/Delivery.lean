import ConstructorSynthesis.Files.Delivery
import ConstructorSynthesis.Proofs.Files.Walk
import ConstructorSynthesis.Proofs.Generation.UnitNames

/-!
What writing units into a directory does to the files. A name without a slash,
joined to a directory, leads to a child of that directory, so a unit with such a
name changes one entry there and nothing else. Delivery is a sequence of such
writes behind the making of the directory; what every write preserves, delivery
preserves, also where it stops early. Units with different names and without
slashes never write over each other.
-/

namespace ConstructorSynthesis.Text

theorem split_of_not_mem {separator : Char} {cs : List Char} (plain : separator ∉ cs) :
    split separator cs = [cs] := by
  induction cs with
  | nil => rfl
  | cons c cs ih =>
      simp only [List.mem_cons, not_or] at plain
      rw [split, if_neg (Ne.symm plain.1), ih plain.2]

theorem split_append_separator (separator : Char) (cs ds : List Char) :
    split separator (cs ++ separator :: ds) = split separator cs ++ split separator ds := by
  induction cs with
  | nil => simp [split]
  | cons c cs ih =>
      rw [List.cons_append, split, split, ih]
      split
      · rfl
      · cases hpieces : split separator cs with
        | nil => exact absurd hpieces (split_ne_nil separator cs)
        | cons piece pieces => rfl

end ConstructorSynthesis.Text

namespace ConstructorSynthesis.Files

section Join

variable {name : String} (plain : '/' ∉ name.toList) (directory : String)

theorem components_append_slash (name : String) :
    components (directory ++ "/" ++ name) = components directory ++ components name := by
  have htext : (directory ++ "/" ++ name).toList = directory.toList ++ '/' :: name.toList := by simp
  rw [components, htext, Text.split_append_separator, List.map_append, components, components]

include plain

theorem components_of_plain : components name = [name] := by
  simp [components, Text.split_of_not_mem plain]

theorem isAbsolute_of_plain : isAbsolute name = false := by
  rw [isAbsolute, decide_eq_false_iff_not]
  intro first
  exact plain (List.mem_of_mem_head? first)

theorem isAbsolute_joinPath : isAbsolute (joinPath directory name) = isAbsolute directory := by
  have hrelative := isAbsolute_of_plain plain
  by_cases hempty : directory = ""
  · simp only [hempty, joinPath, hrelative]
    exact hrelative
  · have hchars : directory.toList ≠ [] := by simpa using hempty
    have happend (rest : String) : isAbsolute (directory ++ rest) = isAbsolute directory := by
      simp [isAbsolute, List.head?_append_of_ne_nil _ hchars]
    rw [joinPath, hrelative]
    simp only [Bool.false_eq_true, if_false, String.isEmpty_iff, hempty]
    split
    · exact happend name
    · rw [String.append_assoc, happend]

/-- Joining a name to a directory adds the name as the last component. An empty
component at the end of the directory is gone then. -/
theorem components_joinPath :
    components (joinPath directory name) = components directory ++ [name] ∨
    ∃ front, components directory = front ++ [""] ∧
      components (joinPath directory name) = front ++ [name] := by
  have hrelative := isAbsolute_of_plain plain
  have hname := components_of_plain plain
  by_cases hempty : directory = ""
  · right
    refine ⟨[], by simp [hempty, components, Text.split], ?_⟩
    simp [hempty, joinPath, hrelative, hname]
  by_cases hslash : directory.toList.getLast? = some '/'
  · right
    obtain ⟨cs, hcs⟩ := List.getLast?_eq_some_iff.mp hslash
    have hdirectory : directory = String.ofList cs ++ "/" := by
      apply String.toList_inj.mp
      simp [hcs]
    refine ⟨components (String.ofList cs), ?_, ?_⟩
    · have hparts := components_append_slash (String.ofList cs) ""
      rw [String.append_empty, ← hdirectory] at hparts
      exact hparts
    · have hjoined : joinPath directory name = String.ofList cs ++ "/" ++ name := by
        simp [joinPath, hrelative, hempty, hslash, ← hdirectory]
      rw [hjoined, components_append_slash, hname]
  · left
    have hjoined : joinPath directory name = directory ++ "/" ++ name := by
      simp [joinPath, hrelative, hempty, hslash]
    rw [hjoined, components_append_slash, hname]

end Join

namespace FileSystem

/-- The path leads to a directory at this location. -/
structure LeadsTo (fs : FileSystem) (directory : String) (l : Location) : Prop where
  leads : fs.walk (fs.origin directory) (components directory) = .ok l
  isDirectory : fs.entry? l = some .directory

instance (fs : FileSystem) (directory : String) (l : Location) :
    Decidable (fs.LeadsTo directory l) :=
  decidable_of_iff
    (fs.walk (fs.origin directory) (components directory) = .ok l ∧ fs.isDirectoryAt l = true)
    ⟨fun h => ⟨h.1, (fs.isDirectoryAt_iff l).mp h.2⟩,
      fun h => ⟨h.leads, (fs.isDirectoryAt_iff l).mpr h.isDirectory⟩⟩

section Child

variable {fs after : FileSystem} {directory : String} {l k : Location}

theorem LeadsTo.unique (h : fs.LeadsTo directory l) (g : fs.LeadsTo directory k) : l = k := by
  have hsame := h.leads.symm.trans g.leads
  exact Except.ok.inj hsame

theorem LeadsTo.of_keeps (h : fs.LeadsTo directory l) (kept : Keeps fs after) :
    after.LeadsTo directory l where
  leads := by
    rw [kept.origin]
    exact kept.walk h.leads
  isDirectory := kept.directory h.isDirectory

/-- Under a name without a slash, a file is written into the directory. -/
theorem Writes.child {name : String} (plain : '/' ∉ name.toList) {content : ByteArray}
    {front : List String} {last : String} {around : Location}
    (h : fs.Writes (joinPath directory name) content after front last around) :
    last = name ∧ fs.LeadsTo directory around := by
  have horigin : fs.origin (joinPath directory name) = fs.origin directory := by
    simp only [origin, isAbsolute_joinPath plain]
  have hleads := h.leads
  rw [horigin] at hleads
  rcases components_joinPath plain directory with hparts | ⟨parts, hdirectory, hparts⟩
  · rw [h.parts] at hparts
    obtain ⟨rfl, hlast⟩ := List.append_inj' hparts rfl
    exact ⟨List.singleton_inj.mp hlast, hleads, h.inside⟩
  · rw [h.parts] at hparts
    obtain ⟨rfl, hlast⟩ := List.append_inj' hparts rfl
    refine ⟨List.singleton_inj.mp hlast, ?_, h.inside⟩
    rw [hdirectory]
    exact walk_concat hleads (descend_here rfl h.inside)

end Child

end FileSystem

end ConstructorSynthesis.Files

namespace ConstructorSynthesis

open Files (FileSystem Location joinPath)
open Files.FileSystem (Keeps AddsDirectories LeadsTo HoldsFile)

theorem mem_fileName_iff (u : SourceUnit) : '/' ∈ u.fileName.toList ↔ '/' ∈ u.name.toList := by
  simp [SourceUnit.fileName]

/-- The paths of some units, with what is written there. -/
def addresses (directory : String) (units : List SourceUnit) : List (String × String) :=
  units.map fun u => (joinPath directory u.fileName, u.source)

section Invariant

variable {P : FileSystem → Prop} {fs : FileSystem} {directory : String} {units : List SourceUnit}

/-- What writing the file of any of the units preserves, writing all of them
preserves, also if it stops before the end. -/
theorem deliverFiles_invariant (start : P fs)
    (step : ∀ u ∈ units, ∀ before after : FileSystem, P before →
      before.writeFile (joinPath directory u.fileName) u.source.toUTF8 = .ok after → P after)
    (written : List String) : P (deliverFiles fs written (addresses directory units)).files := by
  induction units generalizing fs written with
  | nil => exact start
  | cons u units ih =>
      simp only [addresses, List.map_cons, deliverFiles]
      cases hwrite : fs.writeFile (joinPath directory u.fileName) u.source.toUTF8 with
      | error fault => exact start
      | ok after =>
          have hfirst : P after := step u List.mem_cons_self fs after start hwrite
          exact ih hfirst (fun v member => step v (List.mem_cons_of_mem u member)) _

/-- Delivery makes directories and then writes the files of the units. -/
theorem deliver_invariant (made : ∀ after, AddsDirectories fs after → P after)
    (step : ∀ u ∈ units, ∀ before after : FileSystem, P before →
      before.writeFile (joinPath directory u.fileName) u.source.toUTF8 = .ok after → P after) :
    P (deliver fs directory units).files := by
  have hmade := made _ (fs.addsDirectories_makeDirectories directory)
  unfold deliver
  split
  · exact made fs (.refl fs)
  · next haddressed =>
      unfold addressed at haddressed
      split at haddressed
      · cases haddressed
      · cases haddressed
        split
        · next hfailed =>
            rw [hfailed] at hmade
            exact hmade
        · next hready =>
            rw [hready] at hmade
            exact deliverFiles_invariant hmade step []

end Invariant

/-- Every file that was created or changed is the file of one of the units: it holds
the source of the unit, and the path of the unit leads to it. It is a child of the
directory unless the name of the unit has a slash. -/
def Confined (fs : FileSystem) (directory : String) (units : List SourceUnit)
    (after : FileSystem) : Prop :=
  ∀ l content, after.entry? l = some (.file content) → fs.entry? l ≠ some (.file content) →
    ∃ u ∈ units, after.HoldsFile (joinPath directory u.fileName) l u.source.toUTF8 ∧
      ('/' ∈ u.name.toList ∨ ∃ around, after.LeadsTo directory around ∧ l = around ++ [u.fileName])

theorem confined_of_writeFile {fs before after : FileSystem} {directory : String}
    {units : List SourceUnit} {u : SourceUnit} (member : u ∈ units)
    (confined : Confined fs directory units before)
    (h : before.writeFile (joinPath directory u.fileName) u.source.toUTF8 = .ok after) :
    Confined fs directory units after := by
  obtain ⟨front, last, around, hwrite⟩ := Files.FileSystem.exists_writes h
  intro l content there changed
  by_cases here : l = around ++ [last]
  · refine ⟨u, member, here ▸ hwrite.holdsFile, ?_⟩
    by_cases hslash : '/' ∈ u.name.toList
    · exact Or.inl hslash
    · rw [← mem_fileName_iff] at hslash
      obtain ⟨rfl, hleads⟩ := hwrite.child hslash
      exact Or.inr ⟨around, hleads.of_keeps hwrite.keeps, here⟩
  · have hsame := hwrite.entry?_of_ne here
    rw [hsame] at there
    obtain ⟨v, hv, hholds, hplace⟩ := confined l content there changed
    refine ⟨v, hv, hholds.of_keeps hwrite.keeps hsame, ?_⟩
    rcases hplace with hslash | ⟨directoryAt, hleads, hl⟩
    · exact Or.inl hslash
    · exact Or.inr ⟨directoryAt, hleads.of_keeps hwrite.keeps, hl⟩

theorem confined_deliver (fs : FileSystem) (directory : String) (units : List SourceUnit) :
    Confined fs directory units (deliver fs directory units).files := by
  apply deliver_invariant
  · intro after made l content there changed
    exact absurd ((made.file_iff l content).mp there) changed
  · intro u member before after confined h
    exact confined_of_writeFile member confined h

section Content

variable {fs : FileSystem} {directory : String} {units : List SourceUnit}

/-- A file in the directory stays as it is while units with other names are written. -/
theorem holdsFile_of_others {around : Location} {name : String} {content : ByteArray}
    (leads : fs.LeadsTo directory around)
    (there : fs.HoldsFile (joinPath directory name) (around ++ [name]) content)
    (plain : ∀ u ∈ units, '/' ∉ u.name.toList) (others : ∀ u ∈ units, u.fileName ≠ name)
    (written : List String) :
    (deliverFiles fs written (addresses directory units)).files.HoldsFile
      (joinPath directory name) (around ++ [name]) content := by
  let P (g : FileSystem) : Prop :=
    g.LeadsTo directory around ∧ g.HoldsFile (joinPath directory name) (around ++ [name]) content
  suffices h : P (deliverFiles fs written (addresses directory units)).files from h.2
  apply deliverFiles_invariant ⟨leads, there⟩
  rintro u member before after ⟨hleads, hholds⟩ h
  obtain ⟨front, last, place, hwrite⟩ := Files.FileSystem.exists_writes h
  have hplain : '/' ∉ u.fileName.toList := by
    rw [mem_fileName_iff]
    exact plain u member
  obtain ⟨rfl, hplace⟩ := hwrite.child hplain
  obtain rfl := hplace.unique hleads
  have helsewhere : place ++ [name] ≠ place ++ [u.fileName] := by
    simpa using (others u member).symm
  exact ⟨hleads.of_keeps hwrite.keeps,
    hholds.of_keeps hwrite.keeps (hwrite.entry?_of_ne helsewhere)⟩

theorem exists_holdsFile_deliverFiles (plain : ∀ u ∈ units, '/' ∉ u.name.toList)
    (distinct : (units.map SourceUnit.fileName).Nodup) {written : List String}
    (done : (deliverFiles fs written (addresses directory units)).failure = none)
    {u : SourceUnit} (member : u ∈ units) :
    ∃ l, (deliverFiles fs written (addresses directory units)).files.HoldsFile
      (joinPath directory u.fileName) l u.source.toUTF8 := by
  induction units generalizing fs written with
  | nil => cases member
  | cons first units ih =>
      simp only [List.map_cons, List.nodup_cons] at distinct
      simp only [addresses, List.map_cons, deliverFiles] at done ⊢
      cases h : fs.writeFile (joinPath directory first.fileName) first.source.toUTF8 with
      | error fault =>
          rw [h] at done
          cases done
      | ok after =>
          rw [h] at done
          have hothers : ∀ v ∈ units, '/' ∉ v.name.toList :=
            fun v hv => plain v (List.mem_cons_of_mem first hv)
          rcases List.mem_cons.mp member with rfl | later
          · obtain ⟨front, last, around, hwrite⟩ := Files.FileSystem.exists_writes h
            have hplain : '/' ∉ u.fileName.toList := by
              rw [mem_fileName_iff]
              exact plain u member
            obtain ⟨rfl, hleads⟩ := hwrite.child hplain
            have hfresh : ∀ v ∈ units, v.fileName ≠ u.fileName := by
              intro v hv same
              exact distinct.1 (same ▸ List.mem_map_of_mem hv)
            exact ⟨_, holdsFile_of_others (hleads.of_keeps hwrite.keeps) hwrite.holdsFile hothers
              hfresh _⟩
          · exact ih hothers distinct.2 done later

/-- Two units of one file name stop delivery before it touches anything. -/
theorem deliver_of_clash {name : String} (clash : repeatedFileName? [] units = some name) :
    deliver fs directory units =
      ⟨fs, [], some (.failed ("duplicate unit file name: " ++ name))⟩ := by
  simp only [deliver, addressed, clash]

/-- A delivery that did not fail has made the directory and written all files. -/
theorem exists_of_delivered (done : (deliver fs directory units).failure = none) :
    (units.map SourceUnit.fileName).Nodup ∧
    ∃ made, deliver fs directory units = deliverFiles made [] (addresses directory units) := by
  cases hclash : repeatedFileName? [] units with
  | some name => simp [deliver_of_clash hclash] at done
  | none =>
      refine ⟨((repeatedFileName?_eq_none_iff [] units).mp hclash).2, ?_⟩
      simp only [deliver, addressed, hclash] at done ⊢
      generalize fs.makeDirectories directory = prepared at done ⊢
      obtain ⟨made, result⟩ := prepared
      cases result with
      | error fault => cases done
      | ok _ => exact ⟨made, rfl⟩

theorem exists_holdsFile_deliver (plain : ∀ u ∈ units, '/' ∉ u.name.toList)
    (done : (deliver fs directory units).failure = none) {u : SourceUnit} (member : u ∈ units) :
    ∃ l, (deliver fs directory units).files.HoldsFile (joinPath directory u.fileName) l
      u.source.toUTF8 := by
  obtain ⟨distinct, made, hfiles⟩ := exists_of_delivered done
  rw [hfiles] at done ⊢
  exact exists_holdsFile_deliverFiles plain distinct done member

/-- After a delivery that did not fail, the file of each unit holds its source. -/
theorem readFile_deliver (plain : ∀ u ∈ units, '/' ∉ u.name.toList)
    (done : (deliver fs directory units).failure = none) {u : SourceUnit} (member : u ∈ units) :
    (deliver fs directory units).files.readFile (joinPath directory u.fileName) =
      .ok u.source.toUTF8 := by
  obtain ⟨l, hholds⟩ := exists_holdsFile_deliver plain done member
  exact hholds.readFile_eq

end Content

end ConstructorSynthesis
