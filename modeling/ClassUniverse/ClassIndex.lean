import ClassUniverse.Archive
import ClassUniverse.ClassFile.Parse
import ClassUniverse.ClassPath
import ClassUniverse.CoreClasses
import ClassUniverse.FileTree.Ignore
import ClassUniverse.Supply

/-!
# The index of a class path

Which classes the entries of a class path list, and where.  The first entry that lists a class gives
its location.  An entry that cannot be read lists nothing there.

A directory is walked by several workers at once, so the order in which the walk hands over what it
meets is not settled.  It decides which of two files of one class comes first.
-/

namespace ClassUniverse

open Text

/-- Where a class is. -/
inductive ClassLocation
  | archive (path entry : String)
  | module (path entry : String)
  | file (path : String)
  | coreTable
  deriving DecidableEq, Repr

/-- An order in which a walk hands over the paths that it meets. -/
structure Arrival where
  order : List (List String) → List (List String)
  perm : ∀ met, (order met).Perm met

/-- Whether a path comes no later than another: names are compared one by one. -/
def Arrival.comesNoLater (a b : List String) : Bool := !b.lex a fun x y => decide (x < y)

/-- The paths arrive in ascending order. -/
def Arrival.ascending : Arrival where
  order met := met.mergeSort comesNoLater
  perm met := List.mergeSort_perm met comesNoLater

abbrev Listing := List (String × ClassLocation)

namespace Listing

/-- The class name of a path to a class file; descriptions of modules and packages have none. -/
def className? (path : String) : Option String :=
  let ending := ".class".toList
  let s := path.toList
  if !ending.isSuffixOf s then none
  else
    let stem := s.take (s.length - ending.length)
    if "module-info".toList.isSuffixOf stem || "package-info".toList.isSuffixOf stem then none
    else some (String.ofList (stem.map fun c => if c = '/' ∨ c = '\\' then '.' else c))

/-- The classes of an archive in ascending order of the entries. -/
def ofArchive (t : FileTree) (path : String) : Except Error Listing := do
  let archive ← Archive.open? t path
  return (Archive.names archive).filterMap fun entry =>
    (className? entry).map fun name => (name, .archive path entry)

def moduleDirectory : String := "classes/"

/-- The class name of an entry of a runtime module. -/
def moduleClassName? (entry : String) : Option String :=
  let mark := moduleDirectory.toList
  if mark.isPrefixOf entry.toList then className? (String.ofList (entry.toList.drop mark.length))
  else none

/-- The classes of a runtime module in ascending order of the entries. -/
def ofModule (t : FileTree) (path : String) : Except Error Listing := do
  let archive ← Archive.openModule? t path
  return (Archive.names archive).filterMap fun entry =>
    (moduleClassName? entry).map fun name => (name, .module path entry)

def orEmpty : Except Error Listing → Listing
  | .ok listing => listing
  | .error _ => []

/-- The runtime modules of a Java home in ascending order. -/
def modulesOf (t : FileTree) (home : String) : List String :=
  let directory := Path.join home "jmods"
  match t.place? directory with
  | none => []
  | some place =>
      let names := (t.children place).map Prod.fst
      let modules := names.filter fun name => Path.extension? name == some "jmod"
      (modules.mergeSort fun a b => decide (a ≤ b)).map (Path.join directory)

/-- The classes of the runtime of a Java home: those of its modules, or the core classes when it has
none. -/
def ofRuntime (t : FileTree) (home : Option String) : Listing :=
  match (home.map (modulesOf t)).getD [] with
  | [] => CoreClass.names.map fun name => (name, .coreTable)
  | modules => modules.flatMap fun path => orEmpty (ofModule t path)

/-- The class file that the names below a directory lead to. -/
def classFile? (root : String) (names : List String) : Option (String × ClassLocation) :=
  let path := String.intercalate "/" names
  if Path.extension? path = some "class" then
    (className? path).map fun name => (name, .file (Path.join root path))
  else none

/-- The path that stands for the standard input, where there are no class files, also when a
directory has that name. -/
def standardInput : String := "-"

/-- The class files below a directory, apart from ignored ones, as they arrive.  A directory whose
name looks like that of a class file counts as one. -/
def arriving (t : FileTree) (path : String) (arrival : Arrival) : Listing :=
  match t.place? path with
  | none => []
  | some place =>
      if Path.same path standardInput then []
      else (arrival.order ((t.walk place path).map Prod.fst)).filterMap (classFile? path)

/-- The class files below a directory in ascending order of the classes, those of one class as they
arrive. -/
def ofDirectory (t : FileTree) (path : String) (arrival : Arrival) : Listing :=
  (arriving t path arrival).mergeSort fun a b => decide (a.1 ≤ b.1)

/-- Whether a path has the name of an archive of classes. -/
def isArchiveName (path : String) : Bool :=
  match Path.extension? path with
  | some extension =>
      let lower := extension.toList.map Char.toLower
      lower == "jar".toList || lower == "zip".toList
  | none => false

/-- The classes of an entry of a class path.  The mark of runtime modules lists nothing here. -/
def ofEntry (t : FileTree) (path : String) (arrival : Arrival := .ascending) :
    Except Error Listing :=
  if Path.same path moduleMark then .ok []
  else if t.isDirectory path then .ok (ofDirectory t path arrival)
  else if !t.holds path then .ok []
  else if isArchiveName path then ofArchive t path
  else .ok []

/-- The classes of an entry of a class path, those of the runtime for the mark of its modules. -/
def ofEntryOrRuntime (t : FileTree) (home : Option String) (path : String) (arrival : Arrival) :
    Listing :=
  if Path.same path moduleMark then ofRuntime t home else orEmpty (ofEntry t path arrival)

/-- The listings of the entries of a class path one after the other, each from a walk of its own. -/
def ofEntries (t : FileTree) (home : Option String) (arrivals : Nat → Arrival)
    (entries : List String) : List Listing :=
  entries.zipIdx.map fun (path, i) => ofEntryOrRuntime t home path (arrivals i)

end Listing

/-- The location of each class of a class path, in order of first listing. -/
abbrev ClassIndex := OrderedMap ClassLocation

def ClassIndex.build (t : FileTree) (home : Option String) (p : ClassPath)
    (arrivals : Nat → Arrival := fun _ => .ascending) : ClassIndex :=
  (Listing.ofEntries t home arrivals p.entries).flatten.foldl
    (fun index listed => index.insertNew listed.1 listed.2) .empty

/-- The classes of a package in the order of the index. -/
def ClassIndex.classesIn (index : ClassIndex) (package : String) : List String :=
  index.keys.filter fun name => beforeLastDot? name == some package

/-- The bytes of the class file at a location; the table of core classes has none. -/
def ClassLocation.read (t : FileTree) : ClassLocation → Except Error (Option (List UInt8))
  | archive path entry => do return some (← Archive.read (← Archive.open? t path) path entry)
  | module path entry => do return some (← Archive.read (← Archive.openModule? t path) path entry)
  | file path =>
      match t.read path with
      | .ok bytes => .ok (some bytes)
      | .error problem => .error (.file problem)
  | coreTable => .ok none

def CoreClass.definition (name : String) : Except Error ClassDefinition :=
  match CoreClass.definition? name with
  | some d => .ok d
  | none => .error (.classNotFound name)

def ClassLocation.definition (t : FileTree) (name : String) (l : ClassLocation) :
    Except Error ClassDefinition := do
  match ← l.read t with
  | some bytes => ClassFile.parse name bytes
  | none => CoreClass.definition name

/-- A class path as a source of classes: it is indexed once, when it is first asked.  The walks for
its entries come first, and what they meet arrives in some orders. -/
structure PathSource where
  path : ClassPath
  javaHome : Option String
  arrivals : Nat → Arrival := fun _ => .ascending
  index : Option ClassIndex := none

namespace PathSource

/-- The index, as it was made or as it would be made now. -/
def indexNow (s : PathSource) (t : FileTree) : ClassIndex :=
  s.index.getD (ClassIndex.build t s.javaHome s.path s.arrivals)

def indexed (s : PathSource) (t : FileTree) : PathSource := { s with index := some (s.indexNow t) }

def lookup (index : ClassIndex) (t : FileTree) (name : String) :
    Except Error (Option ClassDefinition) :=
  match index.get? name with
  | none => .ok none
  | some location => (location.definition t name).map some

def supply (s : PathSource) (t : FileTree) : Supply :=
  let index := s.indexNow t
  { lookup := lookup index t
    classesUnder := fun path =>
      (Listing.ofEntry t path (s.arrivals s.path.entries.length)).map fun listing =>
        listing.map Prod.fst
    classesIn := index.classesIn
    size := index.size }

end PathSource

end ClassUniverse
