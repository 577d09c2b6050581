import ConstructorSynthesis.Files.FileSystem
import ConstructorSynthesis.Generation.Error
import ConstructorSynthesis.Log
import ConstructorSynthesis.Source.SourceUnit

/-!
Writing units into a directory. That two units would get the same file is found
out before anything is touched; after that, files are written in the order of
the units up to the first one that cannot be written.
-/

namespace ConstructorSynthesis

open Files (FileSystem)

/-- The file that each unit goes to, with its content. -/
def addressed (directory : String) (units : List SourceUnit) :
    Except GenerationError (List (String × String)) :=
  match repeatedFileName? [] units with
  | some name => .error (.failed ("duplicate unit file name: " ++ name))
  | none => .ok (units.map fun u => (Files.joinPath directory u.fileName, u.source))

/-- What writing did: the file system afterwards, the paths that were written,
and what stopped it. -/
structure Delivery where
  files : FileSystem
  written : List String
  failure : Option GenerationError

/-- Writes files one after the other, behind those already `written`. -/
def deliverFiles (fs : FileSystem) (written : List String) : List (String × String) → Delivery
  | [] => ⟨fs, written, none⟩
  | (path, source) :: rest =>
      match fs.writeFile path source.toUTF8 with
      | .error fault => ⟨fs, written, some (.file fault)⟩
      | .ok fs => deliverFiles fs (written ++ [path]) rest

def deliver (fs : FileSystem) (directory : String) (units : List SourceUnit) : Delivery :=
  match addressed directory units with
  | .error error => ⟨fs, [], some error⟩
  | .ok files =>
      match fs.makeDirectories directory with
      | (fs, .error fault) => ⟨fs, [], some (.file fault)⟩
      | (fs, .ok _) => deliverFiles fs [] files

/-- Delivery tells of every file that was written. -/
def Trace.delivery (written : List String) : List LogEntry :=
  written.map fun path => ⟨.debug, "autoctor_codegen::output", "wrote " ++ path⟩

end ConstructorSynthesis
