import ConstructorSynthesis.CommandLine.Arguments
import ConstructorSynthesis.Files.Delivery
import ConstructorSynthesis.Generation.Trace

/-!
A run of the command: the input is read, units are generated from it, and they
are printed or written into a directory. A run has three stages that can fail,
and a failure says in which of them it happened and why, from the outside in.
-/

namespace ConstructorSynthesis.CommandLine

open Files (FileSystem)

structure Failure where
  context : String
  causes : List String
deriving DecidableEq, Repr

/-- A text with every line but the first moved to the right. -/
def hang (margin : String) (text : String) : String :=
  ("\n" ++ margin).intercalate ((Text.split '\n' text.toList).map String.ofList)

/-- Causes are numbered when there are several of them. -/
def causeLines : List String → List String
  | [cause] => ["    " ++ hang "    " cause]
  | causes => causes.mapIdx fun i cause => "    " ++ Nat.repr i ++ ": " ++ hang "       " cause

def Failure.report (f : Failure) : String :=
  "Error: " ++ f.context ++ "\n\nCaused by:\n"
    ++ String.join ((causeLines f.causes).map (· ++ "\n"))

namespace Arguments

def settings (a : Arguments) : Settings where
  indent := Settings.blanks a.indent
  header := if a.noHeader then none else Settings.default.header
  checks := !a.skipValidation

def logLevel (a : Arguments) : LogLevel :=
  match a.verbosity with
  | 0 => .warn
  | 1 => .info
  | 2 => .debug
  | _ => .trace

end Arguments

def runChannel : String := "autoctor"

/-- What a run has come to: entries for the log, and what follows from them. -/
structure Progress (α : Type) where
  log : List LogEntry
  result : Except Failure α

/-- Reads the input, given what is found at its place, and generates units. -/
def prepare (a : Arguments) (content : Except Files.Fault ByteArray) :
    Progress (List SourceUnit) :=
  let read := Document.parseFile content
  match read with
  | .error error => ⟨Trace.read read, .error ⟨"failed to read " ++ a.input, error.causes⟩⟩
  | .ok c =>
      let loaded : LogEntry :=
        ⟨.info, runChannel, "loaded " ++ Nat.repr c.size ++ " declarations from " ++ a.input⟩
      { log := Trace.read read ++ loaded :: Trace.generation a.settings false c
        result :=
          match generate a.settings false c with
          | .error error => .error ⟨"generation failed", error.causes⟩
          | .ok units => .ok units }

/-- The units as they are printed, with an empty line between them. -/
def printedUnits (units : List SourceUnit) : String :=
  "\n".intercalate (units.map fun u => "// " ++ u.fileName ++ "\n" ++ u.source)

/-- How writing into a directory ended, given the paths that were written. -/
def writeProgress (directory : String) (written : List String) (failure : Option GenerationError) :
    Progress Unit :=
  match failure with
  | some error =>
      ⟨Trace.delivery written, .error ⟨"failed to write units to " ++ directory, error.causes⟩⟩
  | none =>
      ⟨Trace.delivery written ++
        [⟨.info, runChannel,
          "wrote " ++ Nat.repr written.length ++ " files to " ++ directory⟩], .ok ()⟩

/-- A finished run: its exit code, what it printed on both channels and the file
system that it leaves. -/
structure Outcome where
  code : Nat
  printed : String
  complaints : String
  files : FileSystem

/-- A character as it is logged. Control characters that a terminal would obey
are spelled out; line ends and tabs are not among them. -/
def spelled (c : Char) : String :=
  let digits := String.ofList (Nat.toDigits 16 c.toNat)
  if c = '\x07' || c = '\x08' || c = '\x0c' then "\\x0" ++ digits
  else if c = '\x1b' || c = '\x7f' then "\\x" ++ digits
  else if 0x80 ≤ c.toNat && c.toNat ≤ 0x9f then "\\u\x7b" ++ digits ++ "\x7d"
  else String.singleton c

def loggedText (text : String) : String := String.join (text.toList.map spelled)

/-- What the log and the failure of a run put on the error channel. -/
def complaintText (a : Arguments) (log : List LogEntry) (failure : Option Failure) : String :=
  String.join ((shownLines a.logLevel log).map (loggedText · ++ "\n"))
    ++ match failure with
      | none => ""
      | some f => f.report

def run (a : Arguments) (fs : FileSystem) : Outcome :=
  let prepared := prepare a (fs.readFile a.input)
  match prepared.result with
  | .error failure => ⟨1, "", complaintText a prepared.log (some failure), fs⟩
  | .ok units =>
      match a.out with
      | none => ⟨0, printedUnits units, complaintText a prepared.log none, fs⟩
      | some directory =>
          let write := deliver fs directory units
          let progress := writeProgress directory write.written write.failure
          let log := prepared.log ++ progress.log
          match progress.result with
          | .error failure => ⟨1, "", complaintText a log (some failure), write.files⟩
          | .ok _ => ⟨0, "", complaintText a log none, write.files⟩

end ConstructorSynthesis.CommandLine
