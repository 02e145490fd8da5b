import ClassUniverse.Text.Split

/-!
# File paths

A path is kept as it was written.  Two paths are the same when they have the same components, which
leave out repeated slashes and inner dots.
-/

namespace ClassUniverse.Path

open Text

/-- A step of a path. -/
inductive Component
  | root
  | current
  | parent
  | name (text : String)
  deriving DecidableEq, Repr

/-- The component that a stretch of text inside a path stands for. -/
def Component.ofText? (text : String) : Option Component :=
  if text = "" ∨ text = "." then none
  else if text = ".." then some .parent
  else some (.name text)

/-- The components of a path.  A dot counts only at the very start. -/
def components (path : String) : List Component :=
  let texts := pieces '/' path
  let start :=
    if path.startsWith "/" then [Component.root]
    else if texts.head? = some "." then [Component.current]
    else []
  start ++ texts.filterMap Component.ofText?

def same (a b : String) : Bool := components a == components b

/-- The greatest number of bytes in a path that the system takes. -/
def longest : Nat := 4095

def longestName : Nat := 255

/-- Whether a path has more bytes than the system takes. -/
def isTooLong (path : String) : Bool := longest < path.utf8ByteSize

/-- Whether a path holds the character that ends paths for the system. -/
def holdsEnd (path : String) : Bool := path.toList.contains (Char.ofNat 0)

/-- A path below another one; an absolute path stands for itself. -/
def join (base path : String) : String :=
  if path.startsWith "/" then path
  else if base.isEmpty || base.endsWith "/" then base ++ path
  else base ++ "/" ++ path

/-- The name of the file that a path leads to. -/
def fileName? (path : String) : Option String :=
  match (components path).getLast? with
  | some (.name text) => some text
  | _ => none

/-- The text behind the last dot of the file name, unless the dot begins the name. -/
def extension? (path : String) : Option String :=
  match fileName? path with
  | none => none
  | some name =>
      match splitLast '.' name.toList with
      | some (_ :: _, after) => some (String.ofList after)
      | _ => none

/-- A character in lower case, as far as it can be an ASCII letter then. -/
def lowered (c : Char) : Char := if c = Char.ofNat 0x212A then 'k' else c.toLower

/-- Whether a path ends in a text of lower-case letters, case being ignored. -/
def endsLike (ending path : String) : Bool :=
  ending.toList.isSuffixOf (path.toList.map lowered)

/-- The entries of a list of paths with colons between them; empty entries are left out. -/
def splitList (raw : String) : List String := (pieces ':' raw).filter fun entry => !entry.isEmpty

def joinList (paths : List String) : String := String.intercalate ":" paths

end ClassUniverse.Path
