import ClassUniverse.Archive.Zip
import ClassUniverse.FileTree.Basic
import ClassUniverse.OrderedMap

/-!
# Archives

The archives in a file tree.  A runtime module is an archive behind a header of four bytes.
-/

namespace ClassUniverse.Archive

/-- The bytes of the file at a path, which is mapped into memory. -/
def image (t : FileTree) (path : String) : Except Error (List UInt8) :=
  match t.find path with
  | .error problem => .error (.file problem)
  | .ok (.directory _) => .error (.file .notMapped)
  | .ok item => item.bytes.mapError .file

def open? (t : FileTree) (path : String) : Except Error Zip := do
  (Zip.ofBytes (← image t path)).mapError (.archive path)

/-- How many bytes the header of a runtime module takes. -/
def moduleHeaderLength : Nat := 4

/-- Whether bytes begin with the header of a runtime module. -/
def hasModuleHeader (bytes : List UInt8) : Bool :=
  moduleHeaderLength ≤ bytes.length && [0x4A, 0x4D].isPrefixOf bytes

def openModule? (t : FileTree) (path : String) : Except Error Zip := do
  let bytes ← image t path
  if !hasModuleHeader bytes then throw (.archive path .noModuleHeader)
  (Zip.ofBytes (bytes.drop moduleHeaderLength)).mapError (.archive path)

/-- The bytes of an entry of the archive at a path. -/
def read (z : Zip) (path name : String) : Except Error (List UInt8) :=
  match z.entry name with
  | .error problem => .error (.archive path problem)
  | .ok (.error problem) => .error (.file problem)
  | .ok (.ok bytes) => .ok bytes

/-- The names of the entries in ascending order, each once. -/
def names (z : Zip) : List String :=
  (firstOccurrences z.names).mergeSort fun a b => decide (a ≤ b)

end ClassUniverse.Archive
