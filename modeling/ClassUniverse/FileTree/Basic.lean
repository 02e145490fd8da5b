import ClassUniverse.Error
import ClassUniverse.Path
import ClassUniverse.Text.Utf8

/-!
# File trees

The files that an analysis can see, as data: the tree of the working directory.  A place is the list
of names that leads to a file from there, or from the root of the system when the first name is a
slash; that name stands for the root in the tree.  Programs are kept as what they print.  The system
takes paths and names up to a greatest length; a longer path leads nowhere, even if a shorter way to
write it leads to a file.
-/

namespace ClassUniverse

open Text

/-- A file, a program with what it prints, or a directory with what is in it by name. -/
inductive FileTree
  | file (bytes : List UInt8)
  | program (stderr stdout : String)
  | directory (entries : List (String × FileTree))

namespace FileTree

def empty : FileTree := directory []

instance : Inhabited FileTree := ⟨empty⟩

def isBranch : FileTree → Bool
  | directory _ => true
  | _ => false

def entries : FileTree → List (String × FileTree)
  | directory entries => entries
  | _ => []

def script (stderr stdout : String) : String :=
  "#!/bin/sh\nprintf '%s' '" ++ stderr ++ "' >&2\nprintf '%s' '" ++ stdout ++ "'\n"

def bytes : FileTree → Except FileProblem (List UInt8)
  | directory _ => .error .isDirectory
  | file bytes => .ok bytes
  | program stderr stdout => .ok (encode (script stderr stdout))

def at? : (t : FileTree) → (place : List String) → Option FileTree
  | t, [] => some t
  | t, name :: rest =>
      match t.entries.lookup name with
      | some item => item.at? rest
      | none => none

def hasDirectory (t : FileTree) (place : List String) : Bool :=
  ((t.at? place).map isBranch).getD false

/-- The name that stands for the root of the system. -/
def rootName : String := "/"

/-- The place above another one.  What lies above the working directory is not known. -/
def above? (place : List String) : Option (List String) :=
  if place = [rootName] then some place
  else if place.isEmpty then none
  else some place.dropLast

/-- The place to which a step of a path leads from a directory. -/
def step? (t : FileTree) (place : List String) (text : String) : Option (List String) :=
  if !t.hasDirectory place then none
  else if text = "" ∨ text = "." then some place
  else if text = ".." then above? place
  else some (place ++ [text])

def takes (path : String) : Bool :=
  !path.isEmpty && !Path.isTooLong path && !Path.holdsEnd path

/-- The place from which the steps of a path lead on. -/
def startOf (path : String) : List String := if path.startsWith "/" then [rootName] else []

/-- The place to which a path leads; every step but the last has to be a directory. -/
def place? (t : FileTree) (path : String) : Option (List String) :=
  if !takes path then none else (pieces '/' path).foldlM t.step? (startOf path)

def item? (t : FileTree) (path : String) : Option FileTree := (t.place? path).bind t.at?

def holds (t : FileTree) (path : String) : Bool := (t.item? path).isSome

def isDirectory (t : FileTree) (path : String) : Bool :=
  ((t.item? path).map isBranch).getD false

/-- Whether a path leads to something other than a directory. -/
def isFile (t : FileTree) (path : String) : Bool :=
  ((t.item? path).map fun item => !item.isBranch).getD false

/-- Why some steps from a place lead to nothing: a name is not there, a step leads through something
other than a directory, or a name is too long to be looked up. -/
def absenceFrom (t : FileTree) : (place steps : List String) → FileProblem
  | _, [] => .missing
  | place, text :: rest =>
      match t.at? place with
      | none => .missing
      | some item =>
          if !item.isBranch then .notDirectory
          else if Path.longestName < text.utf8ByteSize then .nameTooLong
          else
            match t.step? place text with
            | none => .missing
            | some next => absenceFrom t next rest

def absence (t : FileTree) (path : String) : FileProblem :=
  if Path.holdsEnd path then .endInName
  else if Path.isTooLong path then .nameTooLong
  else t.absenceFrom (startOf path) (pieces '/' path)

/-- What a path leads to, or why it leads to nothing. -/
def find (t : FileTree) (path : String) : Except FileProblem FileTree :=
  match t.item? path with
  | some item => .ok item
  | none => .error (t.absence path)

def read (t : FileTree) (path : String) : Except FileProblem (List UInt8) := do
  (← t.find path).bytes

/-- The text of the file at a path, which has to be well formed. -/
def readText (t : FileTree) (path : String) : Except FileProblem (List Char) := do
  match decode? (← t.read path) with
  | some text => return text
  | none => throw .notText

/-- What is in the directory at a place by name. -/
def children (t : FileTree) (place : List String) : List (String × FileTree) :=
  ((t.at? place).map entries).getD [] |>.filter fun entry => entry.1 != rootName

/-- Puts an item under a name, in the place of what was there. -/
def put (entries : List (String × FileTree)) (name : String) (item : FileTree) :
    List (String × FileTree) :=
  if (entries.lookup name).isSome then
    entries.map fun entry => if entry.1 = name then (name, item) else entry
  else entries ++ [(name, item)]

/-- Puts an item at a place, making the directories that lead there. -/
def set : (t : FileTree) → (place : List String) → (item : FileTree) → FileTree
  | _, [], item => item
  | t, name :: rest, item =>
      let old := (t.entries.lookup name).getD empty
      directory (put t.entries name (old.set rest item))

def remove : (t : FileTree) → (place : List String) → FileTree
  | directory entries, [name] => directory (entries.filter fun entry => entry.1 != name)
  | directory entries, name :: rest =>
      match entries.lookup name with
      | some item => directory (put entries name (item.remove rest))
      | none => directory entries
  | t, _ => t

/-- Makes the directory at a place unless something is there. -/
def ensure (t : FileTree) (place : List String) : FileTree :=
  if (t.at? place).isSome then t else t.set place empty

/-- Follows a step from a place, making the directory to which it leads. -/
def makeStep (s : FileTree × List String) (step : Path.Component) : FileTree × List String :=
  let (t, place) := s
  let next :=
    match step with
    | .root => [rootName]
    | .current => place
    | .parent => (above? place).getD place
    | .name text => place ++ [text]
  (t.ensure next, next)

/-- Follows steps, making every directory on the way, also those from which a later step leads back
up. -/
def makeSteps (t : FileTree) (steps : List Path.Component) : FileTree × List String :=
  steps.foldl makeStep (t, [])

/-- Puts an item at a path, making the directories that lead there. -/
def insert (t : FileTree) (path : String) (item : FileTree) : FileTree :=
  let steps := Path.components path
  match steps.getLast? with
  | some (.name text) =>
      let (t, place) := t.makeSteps steps.dropLast
      t.set (place ++ [text]) item
  | _ => (t.makeSteps steps).1

/-- Makes the directory at a path and those that lead there unless something is there. -/
def makeDirectory (t : FileTree) (path : String) : FileTree :=
  (t.makeSteps (Path.components path)).1

/-- Removes what a path leads to and all below it. -/
def erase (t : FileTree) (path : String) : FileTree :=
  match t.place? path with
  | some place => t.remove place
  | none => t

end FileTree

/-- What surrounds an analysis: the files and the variables that it can look up. -/
structure Surroundings where
  files : FileTree
  settings : List (String × String)

namespace Surroundings

def value? (s : Surroundings) (name : String) : Option String := s.settings.lookup name

/-- The value of a variable that is set to something. -/
def filledValue? (s : Surroundings) (name : String) : Option String :=
  (s.value? name).filter fun value => !value.isEmpty

/-- Runs a program and gives its two outputs.  A program is found by a path; by a mere name none
is. -/
def run (s : Surroundings) (program : String) : Except FileProblem (String × String) :=
  if !program.toList.contains '/' then .error .missing
  else
    match s.files.find program with
    | .ok (.program stderr stdout) => .ok (stderr, stdout)
    | .ok _ => .error .notExecutable
    | .error problem => .error problem

end Surroundings

end ClassUniverse
