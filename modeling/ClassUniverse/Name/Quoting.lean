import ClassUniverse.Name.Reserved
import ClassUniverse.Text.Split

/-!
# Quoting of class names

A class name is a sequence of segments with dots between them.  A segment that would be mistaken
for something else in the textual form of a class stands between single quotes there: a reserved
word, a segment that begins with a hyphen, and one that already looks quoted.
-/

namespace ClassUniverse.Name

open Text

/-- Whether a segment has a single quote at each end. -/
def looksQuoted (segment : List Char) : Bool :=
  2 ≤ segment.length && segment.head? == some '\'' && segment.getLast? == some '\''

def needsQuoting (segment : List Char) : Bool :=
  segment.head? == some '-' || isReserved (String.ofList segment) || looksQuoted segment

/-- A segment as it is written: between quotes if it needs them. -/
def quoteSegment (segment : List Char) : List Char :=
  if needsQuoting segment then '\'' :: segment ++ ['\''] else segment

def unquoteSegment (segment : List Char) : List Char :=
  if looksQuoted segment then segment.tail.dropLast else segment

def quoteSegments (name : List Char) : List Char :=
  joinWith '.' ((splitOn '.' name).map quoteSegment)

/-- A name with the quotes of its segments taken away one by one. -/
def unquoteSegments (name : List Char) : List Char :=
  joinWith '.' ((splitOn '.' name).map unquoteSegment)

/-- Whether a name may have a segment that needs quoting: it holds a hyphen, a single quote or the
letters of a reserved word. -/
def mayNeedQuoting (name : List Char) : Bool :=
  name.contains '-' || name.contains '\'' || reservedWords.any fun word => occursIn word.toList name

/-- The written form of a name.  A name in which nothing can need quotes is returned as it is. -/
def quote (name : String) : String :=
  if mayNeedQuoting name.toList then String.ofList (quoteSegments name.toList) else name

/-- The name of a written form.  A text without a single quote is returned as it is. -/
def unquote (name : String) : String :=
  if name.toList.contains '\'' then String.ofList (unquoteSegments name.toList) else name

end ClassUniverse.Name
