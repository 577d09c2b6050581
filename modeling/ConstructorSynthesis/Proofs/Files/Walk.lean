import Mathlib.Data.List.Basic
import ConstructorSynthesis.Files.FileSystem
import ConstructorSynthesis.Proofs.Result

/-!
What operations on files leave in place. Making directories and writing files put
an entry where there was none, or a file where there was a file. So a directory
stays a directory, a file stays a file, and a walk that leads somewhere still leads
there afterwards. Each operation is described once by the entry that it puts;
what follows about walks and contents follows from that.
-/

namespace ConstructorSynthesis.Files.FileSystem

section Entries

variable (fs : FileSystem)

theorem lookup_filter_of_ne {l k : Location} (other : k ≠ l) (entries : List (Location × Entry)) :
    (entries.filter fun x => x.1 != l).lookup k = entries.lookup k := by
  induction entries with
  | nil => rfl
  | cons entry entries ih =>
      obtain ⟨place, e⟩ := entry
      by_cases here : place = l
      · have hkept : (k == place) = false := beq_eq_false_iff_ne.mpr (here ▸ other)
        rw [List.filter_cons_of_neg (by simp [here]), ih, List.lookup_cons, hkept]
      · rw [List.filter_cons_of_pos (by simp [here]), List.lookup_cons, List.lookup_cons, ih]

theorem entry?_put_self {l : Location} (below : l ≠ []) (e : Entry) :
    entry? (fs.put l e) l = some e := by
  unfold entry? put
  simp [below]

theorem entry?_put_of_ne {l k : Location} (other : k ≠ l) (e : Entry) :
    entry? (fs.put l e) k = fs.entry? k := by
  have hkey : (k == l) = false := beq_eq_false_iff_ne.mpr other
  unfold entry? put
  simp only [List.lookup_cons, hkey, lookup_filter_of_ne other]

theorem isDirectoryAt_iff (l : Location) :
    fs.isDirectoryAt l = true ↔ fs.entry? l = some .directory := by
  unfold isDirectoryAt
  split
  · next found => simp [found]
  · next other =>
      simp only [Bool.false_eq_true, false_iff]
      exact other

def isFileAt (l : Location) : Bool :=
  match fs.entry? l with
  | some (.file _) => true
  | _ => false

theorem isFileAt_iff (l : Location) :
    fs.isFileAt l = true ↔ ∃ content, fs.entry? l = some (.file content) := by
  unfold isFileAt
  split
  · next found => simp [found]
  · next other =>
      simp only [Bool.false_eq_true, false_iff]
      rintro ⟨content, found⟩
      exact other content found

end Entries

/-- Directories are still directories, and files are still files, though maybe of
another content. -/
structure Keeps (fs after : FileSystem) : Prop where
  workingDirectory : after.workingDirectory = fs.workingDirectory
  directory : ∀ {l}, fs.entry? l = some .directory → after.entry? l = some .directory
  file : ∀ {l content}, fs.entry? l = some (.file content) →
    ∃ new, after.entry? l = some (.file new)

/-- Only directories were made, in places where nothing was. -/
structure AddsDirectories (fs after : FileSystem) : Prop where
  workingDirectory : after.workingDirectory = fs.workingDirectory
  entries : ∀ l, after.entry? l = fs.entry? l ∨
    fs.entry? l = none ∧ after.entry? l = some .directory

section Keeps

variable {fs after later : FileSystem}

namespace Keeps

theorem put_file {l : Location} (free : fs.entry? l ≠ some .directory) (content : ByteArray) :
    Keeps fs (fs.put l (.file content)) where
  workingDirectory := rfl
  directory {k} found := by
    have other : k ≠ l := by
      rintro rfl
      exact free found
    rw [fs.entry?_put_of_ne other, found]
  file {k old} found := by
    by_cases same : k = l
    · subst same
      have below : k ≠ [] := by
        rintro rfl
        exact free rfl
      exact ⟨content, fs.entry?_put_self below _⟩
    · exact ⟨old, by rw [fs.entry?_put_of_ne same, found]⟩

theorem trans (h : Keeps fs after) (g : Keeps after later) : Keeps fs later where
  workingDirectory := g.workingDirectory.trans h.workingDirectory
  directory found := g.directory (h.directory found)
  file found := by
    obtain ⟨new, hnew⟩ := h.file found
    exact g.file hnew

theorem origin (h : Keeps fs after) (path : String) : after.origin path = fs.origin path := by
  simp only [FileSystem.origin, h.workingDirectory]

theorem descend (h : Keeps fs after) {l place : Location} {component : String}
    (found : fs.descend l component = .ok place) : after.descend l component = .ok place := by
  unfold FileSystem.descend at found ⊢
  split at found
  · cases found
  · cases found
  · next hdirectory =>
      simp only [h.directory hdirectory]
      split at found
      · next here => rw [if_pos here, found]
      · next here =>
          rw [if_neg here]
          split at found
          · next up => rw [if_pos up, found]
          · next up =>
              rw [if_neg up]
              split at found
              · cases found
              · next short =>
                  rw [if_neg short]
                  split at found
                  · cases found
                  · next e hentry =>
                      cases e with
                      | directory => simp only [h.directory hentry, found]
                      | file content =>
                          obtain ⟨new, hnew⟩ := h.file hentry
                          simp only [hnew, found]

/-- A walk that leads somewhere still leads there. -/
theorem walk (h : Keeps fs after) {l place : Location} {parts : List String}
    (found : fs.walk l parts = .ok place) : after.walk l parts = .ok place := by
  induction parts generalizing l with
  | nil => exact found
  | cons part parts ih =>
      simp only [FileSystem.walk, List.foldlM_cons] at found ⊢
      cases hstep : fs.descend l part with
      | error fault =>
          rw [hstep] at found
          cases found
      | ok next =>
          rw [hstep] at found
          rw [h.descend hstep]
          exact ih found

end Keeps

namespace AddsDirectories

theorem refl (fs : FileSystem) : AddsDirectories fs fs := ⟨rfl, fun _ => Or.inl rfl⟩

theorem trans (h : AddsDirectories fs after) (g : AddsDirectories after later) :
    AddsDirectories fs later where
  workingDirectory := g.workingDirectory.trans h.workingDirectory
  entries l := by
    rcases g.entries l with same | ⟨absent, made⟩
    · rw [same]
      exact h.entries l
    · rcases h.entries l with same | ⟨_, already⟩
      · exact Or.inr ⟨same ▸ absent, made⟩
      · rw [already] at absent
        cases absent

theorem put {l : Location} (absent : fs.entry? l = none) :
    AddsDirectories fs (fs.put l .directory) where
  workingDirectory := rfl
  entries k := by
    by_cases same : k = l
    · subst same
      have below : k ≠ [] := by
        rintro rfl
        cases absent
      exact Or.inr ⟨absent, fs.entry?_put_self below _⟩
    · exact Or.inl (fs.entry?_put_of_ne same _)

theorem keeps (h : AddsDirectories fs after) : Keeps fs after where
  workingDirectory := h.workingDirectory
  directory {l} found := by
    rcases h.entries l with same | ⟨absent, -⟩
    · rw [same, found]
    · cases found.symm.trans absent
  file {l content} found := by
    rcases h.entries l with same | ⟨absent, -⟩
    · exact ⟨content, by rw [same, found]⟩
    · cases found.symm.trans absent

/-- The files are the same as before. -/
theorem file_iff (h : AddsDirectories fs after) (l : Location) (content : ByteArray) :
    after.entry? l = some (.file content) ↔ fs.entry? l = some (.file content) := by
  rcases h.entries l with same | ⟨absent, made⟩
  · rw [same]
  · simp [absent, made]

end AddsDirectories

end Keeps

/-- A component that can be the name of an entry. -/
structure IsEntryName (name : String) : Prop where
  moves : isHere name = false
  down : name ≠ ".."
  short : isTooLong name = false

section Operations

variable {fs after : FileSystem}

theorem entry?_of_descend {l place : Location} {component : String}
    (h : fs.descend l component = .ok place) : fs.entry? l = some .directory := by
  unfold descend at h
  split at h
  · cases h
  · cases h
  · assumption

theorem descend_here {l : Location} {component : String} (here : isHere component = true)
    (found : fs.entry? l = some .directory) : fs.descend l component = .ok l := by
  simp only [descend, found, if_pos here]

theorem descend_name {l : Location} {name : String} (hname : IsEntryName name)
    (found : fs.entry? l = some .directory) {e : Entry} (there : fs.entry? (l ++ [name]) = some e) :
    fs.descend l name = .ok (l ++ [name]) := by
  simp [descend, found, hname.moves, hname.down, hname.short, there]

theorem walk_append (fs : FileSystem) (l : Location) (front parts : List String) :
    fs.walk l (front ++ parts) = fs.walk l front >>= fun place => fs.walk place parts :=
  List.foldlM_append ..

theorem walk_concat {l around place : Location} {front : List String} {part : String}
    (leads : fs.walk l front = .ok around) (step : fs.descend around part = .ok place) :
    fs.walk l (front ++ [part]) = .ok place := by
  rw [walk_append, leads]
  change fs.descend around part >>= pure = .ok place
  rw [step]
  rfl

/-- A place for a new entry is a name in a directory that a walk leads to. -/
theorem of_place_eq_some {l found : Location} {parts : List String}
    (h : fs.place l parts = .ok (some found)) :
    ∃ front name around, parts = front ++ [name] ∧ IsEntryName name ∧
      fs.walk l front = .ok around ∧ fs.entry? around = some .directory ∧
      found = around ++ [name] := by
  unfold place at h
  split at h
  · cases h
  · next name hlast =>
      split at h
      · obtain ⟨_, -, hnone⟩ := exists_of_bind_eq_ok h
        cases hnone
      · next moves =>
          obtain ⟨around, hwalk, hrest⟩ := exists_of_bind_eq_ok h
          obtain ⟨_, hstep, hname⟩ := exists_of_bind_eq_ok hrest
          split at hname
          · cases hname
          · next short =>
              cases hname
              obtain ⟨front, rfl⟩ := List.getLast?_eq_some_iff.mp hlast
              rw [List.dropLast_concat] at hwalk
              simp only [Bool.or_eq_true, decide_eq_true_eq, not_or, Bool.not_eq_true] at moves short
              exact ⟨front, name, around, rfl, ⟨moves.1, moves.2, short⟩, hwalk,
                entry?_of_descend hstep, rfl⟩

/-- What writing a file does: it puts the file under a name in the directory that
the rest of the path leads to. -/
structure Writes (fs : FileSystem) (path : String) (content : ByteArray) (after : FileSystem)
    (front : List String) (name : String) (around : Location) : Prop where
  valid : checkPath path = .ok ()
  parts : components path = front ++ [name]
  isName : IsEntryName name
  leads : fs.walk (fs.origin path) front = .ok around
  inside : fs.entry? around = some .directory
  free : fs.entry? (around ++ [name]) ≠ some .directory
  result : after = fs.put (around ++ [name]) (.file content)

theorem exists_writes {path : String} {content : ByteArray}
    (h : fs.writeFile path content = .ok after) :
    ∃ front name around, fs.Writes path content after front name around := by
  unfold writeFile at h
  obtain ⟨_, hvalid, hplaced⟩ := exists_of_bind_eq_ok h
  obtain ⟨place?, hplace, hput⟩ := exists_of_bind_eq_ok hplaced
  cases place? with
  | none => cases hput
  | some found =>
      obtain ⟨front, name, around, hparts, hname, hwalk, hinside, rfl⟩ := of_place_eq_some hplace
      simp only at hput
      split at hput
      · cases hput
      · next free =>
          cases hput
          rw [isDirectoryAt_iff] at free
          exact ⟨front, name, around, hvalid, hparts, hname, hwalk, hinside, free, rfl⟩

section Writes

variable {path : String} {content : ByteArray} {front : List String} {name : String}
  {around : Location}

theorem Writes.keeps (h : fs.Writes path content after front name around) : Keeps fs after := by
  rw [h.result]
  exact .put_file h.free content

theorem Writes.entry?_self (h : fs.Writes path content after front name around) :
    after.entry? (around ++ [name]) = some (.file content) := by
  rw [h.result]
  exact fs.entry?_put_self (by simp) _

theorem Writes.entry?_of_ne (h : fs.Writes path content after front name around) {l : Location}
    (other : l ≠ around ++ [name]) : after.entry? l = fs.entry? l := by
  rw [h.result]
  exact fs.entry?_put_of_ne other _

end Writes

/-- The path leads to a file of this content at this location. -/
structure HoldsFile (fs : FileSystem) (path : String) (l : Location) (content : ByteArray) :
    Prop where
  valid : checkPath path = .ok ()
  leads : fs.walk (fs.origin path) (components path) = .ok l
  entry : fs.entry? l = some (.file content)

theorem HoldsFile.readFile_eq {path : String} {l : Location} {content : ByteArray}
    (h : fs.HoldsFile path l content) : fs.readFile path = .ok content := by
  simp only [readFile, h.valid, h.leads, bind, Except.bind, h.entry]
  rfl

/-- A file is still where it was if nothing was put in its place. -/
theorem HoldsFile.of_keeps {path : String} {l : Location} {content : ByteArray}
    (h : fs.HoldsFile path l content) (kept : Keeps fs after)
    (same : after.entry? l = fs.entry? l) : after.HoldsFile path l content where
  valid := h.valid
  leads := by
    rw [kept.origin]
    exact kept.walk h.leads
  entry := same.trans h.entry

/-- What was written is found under the path that it was written to. -/
theorem Writes.holdsFile {path : String} {content : ByteArray} {front : List String} {name : String}
    {around : Location} (h : fs.Writes path content after front name around) :
    after.HoldsFile path (around ++ [name]) content where
  valid := h.valid
  leads := by
    rw [h.parts, h.keeps.origin]
    apply walk_concat (h.keeps.walk h.leads)
    exact descend_name h.isName (h.keeps.directory h.inside) h.entry?_self
  entry := h.entry?_self

theorem addsDirectories_of_makeDirectory {l : Location} {parts : List String}
    (h : fs.makeDirectory l parts = .ok after) : AddsDirectories fs after := by
  unfold makeDirectory at h
  obtain ⟨place?, -, hput⟩ := exists_of_bind_eq_ok h
  cases place? with
  | none => cases hput
  | some found =>
      simp only at hput
      split at hput
      · cases hput
      · next absent =>
          cases hput
          exact .put absent

theorem addsDirectories_makeAncestors (fs : FileSystem) (l : Location) (paths : List (List String)) :
    AddsDirectories fs (fs.makeAncestors l paths).1 := by
  induction paths generalizing fs with
  | nil => exact .refl fs
  | cons path ancestors ih =>
      rw [makeAncestors]
      split
      · exact .refl fs
      · split
        · next made hmade => exact addsDirectories_of_makeDirectory hmade
        · split
          · next hfailed =>
              have hmade := ih fs
              rw [hfailed] at hmade
              exact hmade
          · next hready =>
              have hmade := ih fs
              rw [hready] at hmade
              split
              · next whole hwhole => exact hmade.trans (addsDirectories_of_makeDirectory hwhole)
              · split
                · exact hmade
                · exact hmade
        · exact .refl fs

/-- Making a directory with those above it touches no file. -/
theorem addsDirectories_makeDirectories (fs : FileSystem) (path : String) :
    AddsDirectories fs (fs.makeDirectories path).1 := by
  unfold makeDirectories
  split
  · exact .refl fs
  · split
    · exact .refl fs
    · exact addsDirectories_makeAncestors fs _ _

end Operations

end ConstructorSynthesis.Files.FileSystem
