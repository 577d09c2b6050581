import ConstructorSynthesis.Proofs.Files.Delivery

/-!
Delivery loses nothing. If two units would get one file, nothing at all is touched.
Otherwise, with no slash in a name, each unit ends up alone in the file that its
path leads to. Every place that no such path leads to has the file that it had
before, or none: a file that changed is the file of a unit, and a file that was there
is never taken away.
-/

namespace ConstructorSynthesis.Files.FileSystem

variable {fs : FileSystem}

/-- The path leads to this location. -/
def Leads (fs : FileSystem) (path : String) (l : Location) : Prop :=
  fs.walk (fs.origin path) (components path) = .ok l

instance (fs : FileSystem) (path : String) (l : Location) : Decidable (fs.Leads path l) :=
  inferInstanceAs (Decidable (fs.walk (fs.origin path) (components path) = .ok l))

end ConstructorSynthesis.Files.FileSystem

namespace ConstructorSynthesis

open Files (FileSystem Location joinPath)
open Files.FileSystem (Keeps HoldsFile)

section Delivered

variable {fs : FileSystem} {directory : String} {units : List SourceUnit}

theorem keeps_deliver : Keeps fs (deliver fs directory units).files := by
  apply deliver_invariant
  · intro after made
    exact made.keeps
  · intro u member before after kept h
    obtain ⟨front, name, around, hwrite⟩ := Files.FileSystem.exists_writes h
    exact kept.trans hwrite.keeps

theorem written_deliverFiles {written : List String}
    (done : (deliverFiles fs written (addresses directory units)).failure = none) :
    (deliverFiles fs written (addresses directory units)).written =
      written ++ units.map fun u => joinPath directory u.fileName := by
  induction units generalizing fs written with
  | nil => simp [addresses, deliverFiles]
  | cons u units ih =>
      simp only [addresses, List.map_cons, deliverFiles] at done ⊢
      cases hwrite : fs.writeFile (joinPath directory u.fileName) u.source.toUTF8 with
      | error fault =>
          rw [hwrite] at done
          cases done
      | ok after =>
          rw [hwrite] at done
          have hrest := ih done
          rw [List.append_assoc] at hrest
          exact hrest

theorem written_deliver (done : (deliver fs directory units).failure = none) :
    (deliver fs directory units).written =
      units.map fun u => joinPath directory u.fileName := by
  obtain ⟨-, made, hfiles⟩ := exists_of_delivered done
  rw [hfiles] at done ⊢
  exact written_deliverFiles done

/-- A place that the path of no unit leads to keeps its file, and gets none. -/
theorem file_iff_of_delivered {l : Location}
    (other : ∀ u ∈ units,
      ¬ (deliver fs directory units).files.Leads (joinPath directory u.fileName) l)
    (content : ByteArray) :
    (deliver fs directory units).files.entry? l = some (.file content) ↔
      fs.entry? l = some (.file content) := by
  have hold {content : ByteArray}
      (there : (deliver fs directory units).files.entry? l = some (.file content)) :
      fs.entry? l = some (.file content) := by
    by_contra changed
    obtain ⟨u, member, hholds, -⟩ := confined_deliver fs directory units l content there changed
    exact other u member hholds.leads
  refine ⟨hold, ?_⟩
  intro before
  obtain ⟨new, hnew⟩ := keeps_deliver.file before
  rw [hnew, ← before, hold hnew]

end Delivered

/-- Units of one file name are turned down with the first name that comes again,
and nothing is touched. If delivery does not fail, and no name of a unit has a slash,
then the paths of the units were written in order, each of them leads to a file with
the source of its unit, and the files in all other places are the same as before. -/
theorem deliver_clash_safe (fs : FileSystem) (directory : String) (units : List SourceUnit) :
    let delivery := deliver fs directory units
    (¬ (units.map SourceUnit.fileName).Nodup →
      ∃ before u after, units = before ++ u :: after ∧
        (before.map SourceUnit.fileName).Nodup ∧ u.fileName ∈ before.map SourceUnit.fileName ∧
        delivery = ⟨fs, [], some (.failed ("duplicate unit file name: " ++ u.fileName))⟩) ∧
    (delivery.failure = none → (∀ u ∈ units, '/' ∉ u.name.toList) →
      delivery.written = units.map (fun u => joinPath directory u.fileName) ∧
      (∀ u ∈ units, delivery.files.readFile (joinPath directory u.fileName) =
        .ok u.source.toUTF8) ∧
      ∀ l, (∀ u ∈ units, ¬ delivery.files.Leads (joinPath directory u.fileName) l) →
        ∀ content, delivery.files.entry? l = some (.file content) ↔
          fs.entry? l = some (.file content)) := by
  intro delivery
  constructor
  · intro clash
    have hname : repeatedFileName? [] units ≠ none := by
      rw [Ne, repeatedFileName?_eq_none_iff]
      exact fun h => clash h.2
    obtain ⟨name, hrepeated⟩ := Option.ne_none_iff_exists'.mp hname
    have hfirst := hrepeated
    rw [repeatedFileName?_eq_firstRepeat?, firstRepeat?_eq_some_iff] at hfirst
    obtain ⟨before, u, ⟨⟨after, hsplit⟩, -, hdistinct, hagain⟩, rfl⟩ := hfirst
    exact ⟨before, u, after, hsplit, hdistinct, by simpa using hagain, deliver_of_clash hrepeated⟩
  · intro done plain
    refine ⟨?_, ?_, ?_⟩
    · exact written_deliver done
    · intro u member
      exact readFile_deliver plain done member
    · intro l other content
      exact file_iff_of_delivered other content

/-- Two units written beside a file that stays, one of them over an old file; and
four units of which the third is the first that would get a file twice. -/
theorem deliver_clash_safe_overwrites :
    let fs : FileSystem := ⟨[(["out"], .directory), (["out", "A.g.cs"], .file "old".toUTF8),
      (["out", "notes"], .file "mine".toUTF8)], []⟩
    let units : List SourceUnit := [⟨"A", "new"⟩, ⟨"Demo.B", ""⟩]
    let clashing : List SourceUnit := [⟨"B", "1"⟩, ⟨"A", "2"⟩, ⟨"A", "3"⟩, ⟨"B", "4"⟩]
    (¬ (clashing.map SourceUnit.fileName).Nodup ∧ (deliver fs "out/" clashing).files = fs ∧
      (deliver fs "out/" clashing).failure = some (.failed "duplicate unit file name: A.g.cs")) ∧
    (deliver fs "out/" units).failure = none ∧ (∀ u ∈ units, '/' ∉ u.name.toList) ∧
    (deliver fs "out/" units).written = ["out/A.g.cs", "out/Demo.B.g.cs"] ∧
    (deliver fs "out/" units).files.readFile "out/A.g.cs" = .ok "new".toUTF8 ∧
    (deliver fs "out/" units).files.readFile "out/Demo.B.g.cs" = .ok "".toUTF8 ∧
    (deliver fs "out/" units).files.entry? ["out", "notes"] = some (.file "mine".toUTF8) := by
  intro fs units clashing
  obtain ⟨hclash, -⟩ := deliver_clash_safe fs "out/" clashing
  obtain ⟨-, hdelivered⟩ := deliver_clash_safe fs "out/" units
  have clash : ¬ (clashing.map SourceUnit.fileName).Nodup := by decide
  have done : (deliver fs "out/" units).failure = none := by decide +kernel
  have plain : ∀ u ∈ units, '/' ∉ u.name.toList := by decide +kernel
  have elsewhere : ∀ u ∈ units, ¬ (deliver fs "out/" units).files.Leads
      (joinPath "out/" u.fileName) ["out", "notes"] := by decide +kernel
  obtain ⟨before, u, after, -, -, -, hstopped⟩ := hclash clash
  obtain ⟨hwritten, hread, hothers⟩ := hdelivered done plain
  refine ⟨⟨clash, by rw [hstopped], by decide +kernel⟩, done, plain, ?_, ?_, ?_, ?_⟩
  · rw [hwritten]
    decide +kernel
  · exact hread ⟨"A", "new"⟩ (by simp [units])
  · exact hread ⟨"Demo.B", ""⟩ (by simp [units])
  · exact (hothers ["out", "notes"] elsewhere _).mpr rfl

end ConstructorSynthesis
