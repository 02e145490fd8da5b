import ClassUniverse.FileTree.Basic
import ClassUniverse.FileTree.Glob
import ClassUniverse.Text.Blank

/-!
# Ignore files

A directory may hold a file of patterns for what below it is to be left out.  Within one file the
last pattern that matches decides, and the file of a nearer directory decides before that of a
farther one.  Patterns see the path as the walk wrote it, from the directory of the file on.
-/

namespace ClassUniverse

open Text

/-- A line of an ignore file. -/
structure IgnoreRule where
  keeps : Bool
  onlyDirectories : Bool
  glob : Glob

namespace IgnoreRule

def fileName : String := ".ignore"

/-- A line without the blanks at its end, unless the last one follows a backslash. -/
def trimLine (line : List Char) : List Char :=
  if ['\\', ' '].isSuffixOf line then line else trimEnd line

/-- Whether a line keeps what it matches, whether a slash ties it to its directory, and the line
without these marks and without the backslash in front of a mark that is meant as it is. -/
def marks (line : List Char) : Bool × Bool × List Char :=
  match line with
  | '\\' :: '!' :: rest => (false, false, '!' :: rest)
  | '\\' :: '#' :: rest => (false, false, '#' :: rest)
  | '!' :: '/' :: rest => (true, true, rest)
  | '!' :: rest => (true, false, rest)
  | '/' :: rest => (false, true, rest)
  | rest => (false, false, rest)

/-- A pattern without the slash at its end, and whether it had one. -/
def directoryMark (pattern : List Char) : Bool × List Char :=
  if pattern.getLast? = some '/' then
    let rest := pattern.dropLast
    (true, if rest.getLast? = some '\\' then rest.dropLast else rest)
  else (false, pattern)

/-- The pattern that is matched against paths from the directory of the file: one without a slash
matches at any depth, and one that ends in two stars matches only what is below. -/
def place (anchored : Bool) (pattern : List Char) : List Char :=
  let deep := pattern = ['*', '*'] ∨ ['*', '*', '/'].isPrefixOf pattern
  let pattern :=
    if anchored ∨ pattern.contains '/' ∨ deep then pattern else '*' :: '*' :: '/' :: pattern
  if ['/', '*', '*'].isSuffixOf pattern then pattern ++ ['/', '*'] else pattern

/-- The rule of a line; blank lines and remarks have none. -/
def ofLine? (line : List Char) : Option IgnoreRule :=
  if line.head? = some '#' then none
  else
    let line := trimLine line
    if line.isEmpty then none
    else
      let (keeps, anchored, pattern) := marks line
      let (onlyDirectories, pattern) := directoryMark pattern
      (Glob.parse? (place anchored pattern)).map fun glob => ⟨keeps, onlyDirectories, glob⟩

/-- The lines of a file as bytes, without the ends of line. -/
def lines (bytes : List UInt8) : List (List UInt8) :=
  let pieces := splitOn 0x0A bytes
  let ended := pieces.dropLast.map fun line =>
    if line.getLast? = some 0x0D then line.dropLast else line
  ended ++ pieces.getLast?.toList

/-- The text without the marks of byte order in front of it. -/
def withoutOrderMarks (text : List Char) : List Char :=
  text.dropWhile fun c => c == Char.ofNat 0xFEFF

/-- The lines of a file as text, up to the first one that is not well formed. -/
def textLines (bytes : List UInt8) : List (List Char) :=
  match ((lines bytes).map decode?).takeWhile Option.isSome |>.filterMap id with
  | [] => []
  | first :: rest => withoutOrderMarks first :: rest

/-- The rules of an ignore file.  One pattern that is too deep spoils the whole file. -/
def ofBytes (bytes : List UInt8) : List IgnoreRule :=
  let rules := (textLines bytes).filterMap ofLine?
  if rules.any fun rule => rule.glob.isTooDeep then [] else rules

/-- Whether some rules leave out a path from their directory; nothing when none matches. -/
def verdict? (rules : List IgnoreRule) (path : String) (isDirectory : Bool) : Option Bool :=
  (rules.reverse.find? fun rule =>
    (!rule.onlyDirectories || isDirectory) && rule.glob.accepts (encode path)).map
      fun rule => !rule.keeps

/-- A path without the dot and slash in front of it. -/
def withoutDot (path : List Char) : List Char :=
  match path with
  | '.' :: '/' :: rest => rest
  | path => path

/-- A path from a directory on, both being written as a walk meets them.  A dot in front is left
away once from the directory and twice from the path, so that further dots keep the directory from
being found again in the path. -/
def relative (directory path : String) : String :=
  let base := withoutDot directory.toList
  let path := withoutDot (withoutDot path.toList)
  let inner :=
    if Path.same (String.ofList base) "." || !path.contains '/' || !base.isPrefixOf path then path
    else
      match path.drop base.length with
      | '/' :: rest => rest
      | rest => rest
  String.ofList inner

end IgnoreRule

/-- The rules of an ignore file, how many names lead to its directory, and the path of the directory
for a walk that has met it. -/
structure IgnoreFile where
  rules : List IgnoreRule
  depth : Nat
  met : Option String

namespace IgnoreFile

/-- The path to an item from the directory of the file: as the walk wrote it, or by the place of the
item when the directory lies above the walk. -/
def pathTo (f : IgnoreFile) (place : List String) (path : String) : String :=
  match f.met with
  | some directory => IgnoreRule.relative directory path
  | none => String.intercalate "/" (place.drop f.depth)

/-- Whether some ignore files, the nearest first, leave out an item.  The nearest file that has a
matching rule decides. -/
def leaveOut (files : List IgnoreFile) (place : List String) (path : String) (isDirectory : Bool) :
    Bool :=
  let verdict := files.findSome? fun f =>
    IgnoreRule.verdict? f.rules (f.pathTo place path) isDirectory
  verdict.getD false

end IgnoreFile

namespace FileTree

/-- The ignore file in a directory to which so many names lead, if there is one. -/
def ignoreFile? (t : FileTree) (depth : Nat) (met : Option String) : Option IgnoreFile :=
  match t.entries.lookup IgnoreRule.fileName with
  | some (file bytes) => some ⟨IgnoreRule.ofBytes bytes, depth, met⟩
  | _ => none

/-- The ignore file of a directory that a walk has met, whose own path must not be too long. -/
def ignoreFileMet? (t : FileTree) (depth : Nat) (path : String) : Option IgnoreFile :=
  if Path.isTooLong (Path.join path IgnoreRule.fileName) then none
  else t.ignoreFile? depth (some path)

/-- The places above a place, the nearest first.  The working directory is not above one that is
told from the root. -/
def placesAbove (place : List String) : List (List String) :=
  let isWithin (p : List String) := !p.isEmpty || place.head? != some rootName
  ((List.range place.length).reverse.map fun n => place.take n).filter isWithin

mutual

/-- What a walk meets below a directory at a place, by the names that lead there from it.  What is
left out is not entered, and neither is a directory whose path is too long. -/
def walkFrom (files : List IgnoreFile) (place : List String) (path : String) :
    (t : FileTree) → List (List String × FileTree)
  | directory entries =>
      if Path.isTooLong path then []
      else
        let own := (directory entries).ignoreFileMet? place.length path
        walkEntries (own.toList ++ files) place path entries
  | _ => []

/-- What a walk meets at and below some entries of a directory at a place. -/
def walkEntries (files : List IgnoreFile) (place : List String) (path : String) :
    (entries : List (String × FileTree)) → List (List String × FileTree)
  | [] => []
  | (name, item) :: rest =>
      let others := walkEntries files place path rest
      let inner := place ++ [name]
      let innerPath := Path.join path name
      if name = rootName || IgnoreFile.leaveOut files inner innerPath item.isBranch then others
      else
        let below := walkFrom files inner innerPath item
        ([name], item) :: (below.map fun (names, item) => (name :: names, item)) ++ others

end

/-- What a walk from a directory meets: the items below it that are not left out and have nothing
left out above them.  The directory itself is always walked. -/
def walk (t : FileTree) (place : List String) (root : String) : List (List String × FileTree) :=
  let above := (placesAbove place).filterMap fun place =>
    ((t.at? place).bind fun item => item.ignoreFile? place.length none)
  ((t.at? place).map (walkFrom above place root)).getD []

end FileTree

end ClassUniverse
