import ConstructorSynthesis.CommandLine.Run
import ConstructorSynthesis.Proofs.Files.Delivery
import ConstructorSynthesis.Proofs.Generation.Outcome

/-!
The two modes of the command. Both make units of the input in the same way; one
prints them and leaves the files alone, the other writes them into a directory. A
run that stops before it writes leaves the files alone in both modes. If the second
run succeeds and no name leads out of the directory, then what the first one prints
is what the second one wrote, file after file, with an empty line between two files.
-/

namespace ConstructorSynthesis

theorem fromUTF8?_eq_some_iff (bytes : ByteArray) (text : String) :
    String.fromUTF8? bytes = some text ↔ bytes = text.toUTF8 := by
  unfold String.fromUTF8?
  split
  · next valid =>
      rw [Option.some_inj, ← String.toByteArray_inj, String.toUTF8_eq_toByteArray]
      rfl
  · next invalid =>
      refine iff_of_false nofun ?_
      rintro rfl
      exact invalid text.isValidUTF8

namespace Page

/-- The page ends with a whole line. -/
def EndsLine (p : Page) : Prop := ∃ body, p.text = body ++ "\n"

theorem endsLine_line (p : Page) (content : String) : (p.line content).EndsLine := by
  unfold line
  split
  · exact ⟨p.text, rfl⟩
  · exact ⟨p.text ++ (p.margin ++ content), by simp [String.append_assoc]⟩

theorem EndsLine.leave {p : Page} (h : p.EndsLine) : p.leave.EndsLine := by
  unfold Page.leave
  split
  · exact h
  · exact endsLine_line _ _

theorem EndsLine.leaveTimes {p : Page} (h : p.EndsLine) (n : Nat) : (p.leaveTimes n).EndsLine := by
  induction n generalizing p with
  | zero => exact h
  | succ n ih => exact ih h.leave

end Page

theorem Blueprint.render_endsLine (settings : Settings) (t : Target) (b : Blueprint) :
    ∃ body, b.render settings t = body ++ "\n" :=
  (Page.endsLine_line _ _).leaveTimes _

namespace CommandLine

open Files (FileSystem joinPath)

/-- The input is a text that declares a catalog, and the units are generated from
it. -/
inductive Makes (a : Arguments) (fs : FileSystem) : List SourceUnit → Prop where
  | mk {text : String} {c : Catalog} {units : List SourceUnit}
      (read : fs.readFile a.input = .ok text.toUTF8) (parsed : Document.parse text = .ok c)
      (generated : generate a.settings false c = .ok units) : Makes a fs units

/-- What stops a run before it writes anything. -/
inductive Stops (a : Arguments) (fs : FileSystem) : Prop where
  | unread {fault : Files.Fault} (failed : fs.readFile a.input = .error fault)
  | notText {bytes : ByteArray} (read : fs.readFile a.input = .ok bytes)
      (failed : ∀ text : String, bytes ≠ text.toUTF8)
  | refused {text : String} {error : Document.Error}
      (read : fs.readFile a.input = .ok text.toUTF8) (failed : Document.parse text = .error error)
  | inconsistent {text : String} {c : Catalog} {error : Inconsistency}
      (read : fs.readFile a.input = .ok text.toUTF8) (parsed : Document.parse text = .ok c)
      (checks : a.skipValidation = false) (failed : c.check = .error error)
  | clash {units : List SourceUnit} (made : Makes a fs units)
      (failed : ¬ (units.map SourceUnit.fileName).Nodup)

section Prepare

variable {a : Arguments} {fs : FileSystem} {units : List SourceUnit}

theorem result_prepare_eq_ok_iff :
    (prepare a (fs.readFile a.input)).result = .ok units ↔ Makes a fs units := by
  constructor
  · intro h
    unfold prepare Document.parseFile at h
    cases hread : fs.readFile a.input with
    | error fault => simp [hread] at h
    | ok bytes =>
        simp only [hread] at h
        cases htext : String.fromUTF8? bytes with
        | none => simp [htext] at h
        | some text =>
            obtain rfl := (fromUTF8?_eq_some_iff bytes text).mp htext
            simp only [htext] at h
            cases hparse : Document.parse text with
            | error error => simp [hparse] at h
            | ok c =>
                simp only [hparse] at h
                cases hgenerate : generate a.settings false c with
                | error error => simp [hgenerate] at h
                | ok made =>
                    simp only [hgenerate, Except.ok.injEq] at h
                    exact ⟨hread, hparse, h ▸ hgenerate⟩
  · rintro @⟨text, c, _, hread, hparse, hgenerate⟩
    have htext := (fromUTF8?_eq_some_iff text.toUTF8 text).mpr rfl
    simp only [prepare, Document.parseFile, hread, htext, hparse, hgenerate]

theorem exists_failure_of_not_makes (unmade : ¬ ∃ units, Makes a fs units) :
    ∃ failure, (prepare a (fs.readFile a.input)).result = .error failure := by
  cases h : (prepare a (fs.readFile a.input)).result with
  | error failure => exact ⟨failure, rfl⟩
  | ok units => exact absurd ⟨units, result_prepare_eq_ok_iff.mp h⟩ unmade

/-- The input is one text. -/
theorem eq_of_readFile {path s t : String} (hs : fs.readFile path = .ok s.toUTF8)
    (ht : fs.readFile path = .ok t.toUTF8) : s = t := by
  have hbytes := Except.ok.inj (hs.symm.trans ht)
  exact String.toByteArray_inj.mp hbytes

/-- Of all that stops a run early, only a clash comes behind generation. -/
theorem Stops.not_makes_or_clash (h : Stops a fs) :
    (¬ ∃ units, Makes a fs units) ∨
    ∃ units, Makes a fs units ∧ ¬ (units.map SourceUnit.fileName).Nodup := by
  cases h with
  | unread failed =>
      left
      rintro ⟨units, read, -, -⟩
      cases failed.symm.trans read
  | notText read failed =>
      left
      rintro ⟨units, @⟨text, c, _, isText, -, -⟩⟩
      exact failed text (Except.ok.inj (read.symm.trans isText))
  | refused read failed =>
      left
      rintro ⟨units, again, parsed, -⟩
      obtain rfl := eq_of_readFile read again
      cases failed.symm.trans parsed
  | inconsistent read parsed checks failed =>
      left
      rintro ⟨units, again, parsedAgain, generated⟩
      obtain rfl := eq_of_readFile read again
      obtain rfl := Except.ok.inj (parsed.symm.trans parsedAgain)
      have hchecks : a.settings.checks = true := by simp [Arguments.settings, checks]
      cases (generate_of_fails hchecks failed).symm.trans generated
  | clash made failed => exact .inr ⟨_, made, failed⟩

theorem Makes.endsLine (h : Makes a fs units) {u : SourceUnit} (member : u ∈ units) :
    ∃ body, u.source = body ++ "\n" := by
  obtain ⟨-, -, generated⟩ := h
  rw [eq_units_of_generate generated] at member
  obtain ⟨d, -, rfl⟩ := List.mem_map.mp member
  exact d.blueprint.render_endsLine a.settings d.target

end Prepare

section Run

variable {a : Arguments} {fs : FileSystem} {units : List SourceUnit}

/-- Without units there is nothing to print or to write. -/
theorem run_of_not_makes (unmade : ¬ ∃ units, Makes a fs units) (out : Option String) :
    (run { a with out := out } fs).code = 1 ∧ (run { a with out := out } fs).files = fs := by
  obtain ⟨failure, h⟩ := exists_failure_of_not_makes unmade
  have hsame : (prepare { a with out := out } (fs.readFile a.input)).result = .error failure := h
  simp [run, hsame]

theorem run_printing (made : Makes a fs units) :
    (run { a with out := none } fs).code = 0 ∧
    (run { a with out := none } fs).printed = printedUnits units := by
  have hsame : (prepare { a with out := none } (fs.readFile a.input)).result = .ok units :=
    (result_prepare_eq_ok_iff (a := a)).mpr made
  simp [run, hsame]

theorem run_writing (made : Makes a fs units) (directory : String) :
    (run { a with out := some directory } fs).files = (deliver fs directory units).files ∧
    ((run { a with out := some directory } fs).code = 0 ↔
      (deliver fs directory units).failure = none) := by
  have hsame : (prepare { a with out := some directory } (fs.readFile a.input)).result =
      .ok units :=
    (result_prepare_eq_ok_iff (a := a)).mpr made
  simp only [run, hsame, writeProgress]
  cases (deliver fs directory units).failure <;> simp

/-- A run that stops early leaves the files as they were. -/
theorem Stops.files_eq (h : Stops a fs) (directory : String) :
    (run { a with out := some directory } fs).code ≠ 0 ∧
    (run { a with out := some directory } fs).files = fs := by
  rcases h.not_makes_or_clash with unmade | ⟨units, made, clash⟩
  · obtain ⟨hcode, hfiles⟩ := run_of_not_makes unmade (some directory)
    exact ⟨by simp [hcode], hfiles⟩
  · obtain ⟨hfiles, hcode⟩ := run_writing made directory
    have hname : repeatedFileName? [] units ≠ none := by
      rw [Ne, repeatedFileName?_eq_none_iff]
      exact fun h => clash h.2
    obtain ⟨name, hrepeated⟩ := Option.ne_none_iff_exists'.mp hname
    rw [hfiles, Ne, hcode, deliver_of_clash hrepeated]
    exact ⟨nofun, rfl⟩

end Run

/-- For the same input and the same settings, printing and writing agree. A run
that stops before it writes changes no file. Printing succeeds exactly if units are
made of the input. And if writing succeeds, with no slash in the name of a unit,
then each unit has its file in the directory, and what is printed is these files
in order, each behind its name. Every file ends with a whole line, so the line end
between two of them is an empty line. -/
theorem run_modes_agree (a : Arguments) (fs : FileSystem) (directory : String) :
    let printing := run { a with out := none } fs
    let writing := run { a with out := some directory } fs
    (Stops a fs → writing.code ≠ 0 ∧ writing.files = fs) ∧
    (printing.code = 0 ↔ ∃ units, Makes a fs units) ∧
    ∀ units, Makes a fs units → writing.code = 0 → (∀ u ∈ units, '/' ∉ u.name.toList) →
      ∃ contents : List String,
        List.Forall₂ (fun u content => writing.files.readFile (joinPath directory u.fileName) =
          .ok content.toUTF8) units contents ∧
        printing.printed = "\n".intercalate
          (List.zipWith (fun u content => "// " ++ u.fileName ++ "\n" ++ content) units contents) ∧
        ∀ content ∈ contents, ∃ body, content = body ++ "\n" := by
  intro printing writing
  refine ⟨fun h => h.files_eq directory, ?_, ?_⟩
  · constructor
    · intro success
      by_contra unmade
      have hcode : printing.code = 1 := (run_of_not_makes unmade none).1
      omega
    · rintro ⟨units, made⟩
      exact (run_printing made).1
  · intro units made success plain
    obtain ⟨hfiles, hcode⟩ := run_writing made directory
    have done := hcode.mp success
    refine ⟨units.map SourceUnit.source, ?_, ?_, ?_⟩
    · rw [List.forall₂_map_right_iff, List.forall₂_same]
      intro u member
      rw [hfiles]
      exact readFile_deliver plain done member
    · rw [(run_printing made).2, printedUnits, List.zipWith_map_right, List.zipWith_self]
    · intro content member
      obtain ⟨u, hu, rfl⟩ := List.mem_map.mp member
      exact made.endsLine hu

/-- Two types that are printed and written in order, and two types whose units
would get the same file. -/
theorem run_modes_agree_two :
    let mark := "<attribute name='AutoConstruct'/></type>"
    let plain := "<declarations><type name='B'>" ++ mark ++ "<type name='A'>" ++ mark
    let clashing := "<declarations><type name='A[T]'>" ++ mark ++
      "<type name='A' typeParams='T'>" ++ mark
    let a : Arguments := ⟨"plain.xml", none, 2, true, false, 0⟩
    let fs : FileSystem :=
      ⟨[(["plain.xml"], .file plain.toUTF8), (["clashing.xml"], .file clashing.toUTF8)], []⟩
    let b : Arguments := { a with input := "clashing.xml" }
    (Stops b fs ∧ (run { b with out := some "gen" } fs).code ≠ 0 ∧
      (run { b with out := some "gen" } fs).files = fs) ∧
    (run { a with out := none } fs).code = 0 ∧ (run { a with out := some "gen" } fs).code = 0 ∧
    ∃ first second : String,
      (run { a with out := some "gen" } fs).files.readFile "gen/B.g.cs" = .ok first.toUTF8 ∧
      (run { a with out := some "gen" } fs).files.readFile "gen/A.g.cs" = .ok second.toUTF8 ∧
      (run { a with out := none } fs).printed =
        "// B.g.cs\n" ++ first ++ "\n" ++ ("// A.g.cs\n" ++ second) ∧
      (∃ body, first = body ++ "\n") ∧ ∃ body, second = body ++ "\n" := by
  intro mark plain clashing a fs b
  -- Both inputs are read, declare two types each, and pass the check.
  have hmade (name text : String) (ds : List Declaration)
      (read : fs.HoldsFile name [name] text.toUTF8)
      (declared : Document.declarationsOf text = .ok ds)
      (passes : (Catalog.ofList ds).check = .ok ()) :
      Makes { a with input := name } fs
        ((draftAll (Catalog.ofList ds).targets).map (Drafted.unit a.settings)) := by
    refine ⟨read.readFile_eq, by rw [Document.parse, declared]; rfl, ?_⟩
    exact (generate_of_passes fun _ => passes).trans (generateTargets_of_free nofun)
  have hclashing := hmade "clashing.xml" clashing
    [Declaration.bare none [] "A[T]" [], Declaration.bare none [] "A" ["T"]]
    ⟨by decide +kernel, by decide +kernel, rfl⟩ (by decide +kernel) (by decide +kernel)
  obtain ⟨units, hplain, hnames, noSlash, done⟩ : ∃ units, Makes a fs units ∧
      units.map SourceUnit.fileName = ["B.g.cs", "A.g.cs"] ∧
      (∀ u ∈ units, '/' ∉ u.name.toList) ∧ (deliver fs "gen" units).failure = none :=
    ⟨_, hmade "plain.xml" plain [Declaration.bare none [] "B" [], Declaration.bare none [] "A" []]
        ⟨by decide +kernel, by decide +kernel, rfl⟩ (by decide +kernel) (by decide +kernel),
      by decide +kernel, by decide +kernel, by decide +kernel⟩
  have stops : Stops b fs := .clash hclashing (by decide +kernel)
  have success := (run_writing hplain "gen").2.mpr done
  obtain ⟨hstopped, -, -⟩ := run_modes_agree b fs "gen"
  obtain ⟨-, hprinting, hagree⟩ := run_modes_agree a fs "gen"
  refine ⟨⟨stops, hstopped stops⟩, hprinting.mpr ⟨_, hplain⟩, success, ?_⟩
  obtain ⟨contents, hfiles, hprinted, hends⟩ := hagree units hplain success noSlash
  obtain ⟨u, others, rfl, hu, hothers⟩ := List.map_eq_cons_iff.mp hnames
  obtain ⟨v, rest, rfl, hv, hrest⟩ := List.map_eq_cons_iff.mp hothers
  obtain rfl := List.map_eq_nil_iff.mp hrest
  cases hfiles with
  | cons hfirst htail =>
      cases htail with
      | cons hsecond hnil =>
          cases hnil
          rw [hu] at hfirst
          rw [hv] at hsecond
          refine ⟨_, _, hfirst, hsecond, ?_, hends _ (by simp), hends _ (by simp)⟩
          simpa [hu, hv, String.intercalate_cons_cons] using hprinted

end CommandLine

end ConstructorSynthesis
