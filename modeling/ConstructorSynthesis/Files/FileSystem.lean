import ConstructorSynthesis.Files.Fault
import ConstructorSynthesis.Text.Space

/-!
A file system without links as a value: the files and directories below the
root, and the directory from which relative paths start. A path is walked from
left to right, so that `a/../b` needs the directory `a`; every step is taken
from a directory and leads to something that exists.
-/

namespace ConstructorSynthesis.Files

/-- The names on the way from the root to a file or directory. -/
abbrev Location := List String

inductive Entry where
  | file (content : ByteArray)
  | directory

structure FileSystem where
  entries : List (Location × Entry)
  workingDirectory : Location

/-- The parts of a path between its slashes. -/
def components (path : String) : List String :=
  (Text.split '/' path.toList).map String.ofList

def isAbsolute (path : String) : Bool := path.toList.head? = some '/'

/-- Appends a relative path to a directory; an absolute one replaces it. -/
def joinPath (directory path : String) : String :=
  if isAbsolute path then path
  else if directory.isEmpty then path
  else if directory.toList.getLast? = some '/' then directory ++ path
  else directory ++ "/" ++ path

/-- Paths that name nothing, whatever the file system holds. -/
def checkPath (path : String) : Except Fault Unit :=
  if path.toList.contains '\x00' then .error .nullInName
  else if 4096 ≤ path.utf8ByteSize then .error .nameTooLong
  else if path.isEmpty then .error .notFound
  else .ok ()

/-- A component that stays where it is. -/
def isHere (component : String) : Bool := component.isEmpty || component = "."

def isTooLong (component : String) : Bool := 255 < component.utf8ByteSize

namespace FileSystem

/-- What is at a location. The root is always a directory. -/
def entry? (fs : FileSystem) (l : Location) : Option Entry :=
  if l.isEmpty then some .directory else fs.entries.lookup l

/-- Puts an entry at a location, in place of what was there. -/
def put (fs : FileSystem) (l : Location) (e : Entry) : FileSystem :=
  { fs with entries := (l, e) :: fs.entries.filter fun x => x.1 != l }

def isDirectoryAt (fs : FileSystem) (l : Location) : Bool :=
  match fs.entry? l with
  | some .directory => true
  | _ => false

/-- One step of a walk. -/
def descend (fs : FileSystem) (l : Location) (component : String) : Except Fault Location :=
  match fs.entry? l with
  | none => .error .notFound
  | some (.file _) => .error .notDirectory
  | some .directory =>
      if isHere component then .ok l
      else if component = ".." then .ok l.dropLast
      else if isTooLong component then .error .nameTooLong
      else
        match fs.entry? (l ++ [component]) with
        | none => .error .notFound
        | some _ => .ok (l ++ [component])

def origin (fs : FileSystem) (path : String) : Location :=
  if isAbsolute path then [] else fs.workingDirectory

def walk (fs : FileSystem) (l : Location) (parts : List String) : Except Fault Location :=
  parts.foldlM fs.descend l

/-- Where a new entry belongs: its directory has to exist, and its name has to
be one. A name that stays or goes up gives no place. -/
def place (fs : FileSystem) (l : Location) (parts : List String) :
    Except Fault (Option Location) := do
  match parts.getLast? with
  | none => return none
  | some name =>
      if isHere name || name = ".." then
        let _ ← fs.walk l parts
        return none
      else
        let around ← fs.walk l parts.dropLast
        let _ ← fs.descend around "."
        if isTooLong name then throw .nameTooLong
        else return some (around ++ [name])

def readFile (fs : FileSystem) (path : String) : Except Fault ByteArray := do
  checkPath path
  let l ← fs.walk (fs.origin path) (components path)
  match fs.entry? l with
  | some (.file content) => return content
  | some .directory => throw .isDirectory
  | none => throw .notFound

/-- Writes a whole file, which is made if there is none. -/
def writeFile (fs : FileSystem) (path : String) (content : ByteArray) :
    Except Fault FileSystem := do
  checkPath path
  match ← fs.place (fs.origin path) (components path) with
  | none => throw .isDirectory
  | some l => if fs.isDirectoryAt l then throw .isDirectory else return fs.put l (.file content)

/-- Makes one directory in a directory that exists. -/
def makeDirectory (fs : FileSystem) (l : Location) (parts : List String) :
    Except Fault FileSystem := do
  match ← fs.place l parts with
  | none => throw .alreadyExists
  | some place =>
      match fs.entry? place with
      | some _ => throw .alreadyExists
      | none => return fs.put place .directory

def leadsToDirectory (fs : FileSystem) (l : Location) (parts : List String) : Bool :=
  match fs.walk l parts with
  | .ok place => fs.isDirectoryAt place
  | .error _ => false

/-- Makes the first of the given paths, with the ones behind it as its
ancestors, from the inside out. What was made before a failure stays. -/
def makeAncestors (fs : FileSystem) (l : Location) :
    List (List String) → FileSystem × Except Fault Unit
  | [] => (fs, .ok ())
  | path :: ancestors =>
      if fs.leadsToDirectory l path then (fs, .ok ())
      else
        match fs.makeDirectory l path with
        | .ok made => (made, .ok ())
        | .error .notFound =>
            match fs.makeAncestors l ancestors with
            | (made, .error fault) => (made, .error fault)
            | (made, .ok _) =>
                match made.makeDirectory l path with
                | .ok whole => (whole, .ok ())
                | .error fault =>
                    if made.leadsToDirectory l path then (made, .ok ()) else (made, .error fault)
        | .error fault => (fs, .error fault)

/-- Proper beginnings of a list, the longest first, without the empty one. -/
def beginnings (parts : List String) : List (List String) :=
  ((List.range parts.length).filter (0 < ·)).reverse.map parts.take

/-- Makes a directory with all the directories above it that are missing.
Nothing is made for a path that stays where it is, so `a/.` needs `a`. -/
def makeDirectories (fs : FileSystem) (path : String) : FileSystem × Except Fault Unit :=
  if path.isEmpty then (fs, .ok ())
  else
    match checkPath path with
    | .error fault => (fs, .error fault)
    | .ok _ =>
        let parts := (components path).reverse.dropWhile String.isEmpty |>.reverse
        let steps := parts.filter fun part => !isHere part
        fs.makeAncestors (fs.origin path) (parts :: beginnings steps)

/-- The files and directories below the working directory, by the path from there. -/
def contents (fs : FileSystem) : List (Location × Entry) :=
  fs.entries.filterMap fun (l, e) =>
    if fs.workingDirectory.isPrefixOf l ∧ l ≠ fs.workingDirectory then
      some (l.drop fs.workingDirectory.length, e)
    else none

end FileSystem

end ConstructorSynthesis.Files
