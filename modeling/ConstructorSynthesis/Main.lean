import ConstructorSynthesis.CommandLine.Run

/-!
The command itself: runs on the files of the machine. Everything it prints and
every file it writes is decided by the run; what is here only carries it out.
-/

namespace ConstructorSynthesis.CommandLine

def usageText : String :=
  "Usage: [OPTIONS] <INPUT>\n\n"
    ++ "Options:\n"
    ++ "  -o, --out <DIR>        Write the units into this directory\n"
    ++ "      --no-header        Omit the header line\n"
    ++ "      --indent <N>       Spaces per indentation level [default: 4]\n"
    ++ "      --skip-validation  Skip declaration validation\n"
    ++ "  -v, --verbose...       Increase log verbosity\n"
    ++ "  -h, --help             Print help\n"

/-- The fault behind an error of the operating system. -/
def faultOf (error : IO.Error) : Files.Fault :=
  match error with
  | .noFileOrDirectory .. => .notFound
  | .alreadyExists .. => .alreadyExists
  | .inappropriateType _ code _ => if code = 21 then .isDirectory else .notDirectory
  | other => .other (toString other)

def attempt {α : Type} (action : IO α) : IO (Except Files.Fault α) := do
  try
    return .ok (← action)
  catch error =>
    return .error (faultOf error)

/-- Writes files up to the first that cannot be written, behind those already
`written`. -/
def writeOnMachine (written : List String) :
    List (String × String) → IO (List String × Option GenerationError)
  | [] => return (written, none)
  | (path, source) :: rest => do
      match ← attempt (IO.FS.writeFile path source) with
      | .error fault => return (written, some (.file fault))
      | .ok _ => writeOnMachine (written ++ [path]) rest

def writeUnitsOnMachine (directory : String) (units : List SourceUnit) :
    IO (List String × Option GenerationError) := do
  match addressed directory units with
  | .error error => return ([], some error)
  | .ok files =>
      match ← attempt (IO.FS.createDirAll directory) with
      | .error fault => return ([], some (.file fault))
      | .ok _ => writeOnMachine [] files

def complain (a : Arguments) (log : List LogEntry) (failure : Option Failure) : IO Unit := do
  (← IO.getStderr).putStr (complaintText a log failure)

def runOnMachine (a : Arguments) : IO UInt32 := do
  let prepared := prepare a (← attempt (IO.FS.readBinFile a.input))
  match prepared.result with
  | .error failure =>
      complain a prepared.log (some failure)
      return 1
  | .ok units =>
      match a.out with
      | none =>
          complain a prepared.log none
          (← IO.getStdout).putStr (printedUnits units)
          return 0
      | some directory =>
          let (written, failure) ← writeUnitsOnMachine directory units
          let progress := writeProgress directory written failure
          let log := prepared.log ++ progress.log
          match progress.result with
          | .error failure =>
              complain a log (some failure)
              return 1
          | .ok _ =>
              complain a log none
              return 0

end ConstructorSynthesis.CommandLine

def main (words : List String) : IO UInt32 := do
  match ConstructorSynthesis.CommandLine.Arguments.read words with
  | .ok a => ConstructorSynthesis.CommandLine.runOnMachine a
  | .error .help =>
      (← IO.getStdout).putStr ConstructorSynthesis.CommandLine.usageText
      return 0
  | .error .usage =>
      (← IO.getStderr).putStr ConstructorSynthesis.CommandLine.usageText
      return 2
