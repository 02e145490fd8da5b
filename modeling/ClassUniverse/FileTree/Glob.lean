import ClassUniverse.FileTree.BytePattern
import ClassUniverse.Text.Utf8

/-!
# Path patterns

A pattern is matched against the bytes of a path.  A star stands for any bytes but slashes and a
question mark for one; two stars that stand alone between slashes stand for any directories.
Brackets hold a choice of bytes, braces a choice of patterns, and a backslash takes the next
character as it is.  A bracket that is never closed stands for itself.
-/

namespace ClassUniverse

open Text

/-- A part of a pattern as it is written: any directories in front, between or below, or bytes that
some patterns describe one after the other. -/
inductive GlobToken
  | above
  | between
  | below
  | parts (patterns : List BytePattern)
  deriving DecidableEq, Repr

namespace GlobToken

def slash : UInt8 := 0x2F

def slashPattern : BytePattern := .byte slash

def anyOne : GlobToken := parts [.one (.allBut slash)]

def anyMany : GlobToken := parts [.many (.allBut slash)]

def bytesOf (c : Char) : List UInt8 := encode (String.singleton c)

def literal (c : Char) : GlobToken := parts ((bytesOf c).map .byte)

/-- The patterns that a part stands for, one after the other. -/
def patterns : GlobToken → List BytePattern
  | above => [.enclosed (.choice .nothing [slashPattern, .both (.many .all) slashPattern])]
  | between =>
      [.enclosed (.either slashPattern (.sequence [slashPattern, .many .all, slashPattern]))]
  | below => [slashPattern, .many .all]
  | parts patterns => patterns

/-- The patterns that a list of parts stands for, one after the other. -/
def allPatterns (tokens : List GlobToken) : List BytePattern := tokens.flatMap patterns

/-- A choice between lists of parts.  An empty list is no choice, and without any the whole stands
for no bytes. -/
def braces (choices : List (List GlobToken)) : GlobToken :=
  match ((choices.map allPatterns).filter fun patterns => !patterns.isEmpty).map .sequence with
  | [] => parts []
  | first :: others => parts [.enclosed (.choice first others)]

/-- The byte ranges of a range of characters.  A character of several bytes counts as its bytes, so
that the range lies between the last byte of the first character and the first of the last one. -/
def rangesOf (range : Char × Char) : List (UInt8 × UInt8) :=
  let single (b : UInt8) := (b, b)
  if range.1 = range.2 then (bytesOf range.1).map single
  else
    match (bytesOf range.1).reverse, bytesOf range.2 with
    | low :: before, high :: after =>
        before.reverse.map single ++ (low, high) :: after.map single
    | _, _ => []

/-- The part of a bracket with some ranges of characters. -/
def brackets (negated : Bool) (ranges : List (Char × Char)) : GlobToken :=
  parts [.one ⟨negated, ranges.flatMap rangesOf⟩]

end GlobToken

/-- What was found behind an opening bracket. -/
inductive BracketReading
  | neverClosed
  | backward
  | closed (ranges : List (Char × Char)) (rest : List Char)
  deriving DecidableEq, Repr

namespace BracketReading

/-- Ranges of which the last one is made to end at a character; nothing when it would run
backward. -/
def extendLast (ranges : List (Char × Char)) (last : Char) : Option (List (Char × Char)) :=
  match ranges.getLast? with
  | some (first, _) =>
      if last.toNat < first.toNat then none else some (ranges.dropLast ++ [(first, last)])
  | none => some ranges

/-- Reads the ranges up to a closing bracket, given whether nothing has been read, whether a hyphen
waits for the end of its range, and the ranges so far.  A closing bracket that comes first stands
for itself, and so does a hyphen at either end. -/
def read : (isFirst isOpen : Bool) → (ranges : List (Char × Char)) → List Char → BracketReading
  | _, _, _, [] => neverClosed
  | isFirst, isOpen, ranges, c :: rest =>
      if c = ']' ∧ !isFirst then closed (if isOpen then ranges ++ [('-', '-')] else ranges) rest
      else if c = '-' ∧ !isFirst ∧ !isOpen then read false true ranges rest
      else if isOpen then
        match extendLast ranges c with
        | some ranges => read false false ranges rest
        | none => backward
      else read false false (ranges ++ [(c, c)]) rest

end BracketReading

/-- What has been read of a pattern: the parts of the innermost open brace, for each open brace the
parts in front of it and its finished choices, the character read last, and whether brackets have
lost their meaning. -/
structure GlobReading where
  tokens : List GlobToken := []
  around : List (List GlobToken × List (List GlobToken)) := []
  last : Option Char := none
  plainBrackets : Bool := false

namespace GlobReading

def push (s : GlobReading) (last : Char) (t : GlobToken) : GlobReading :=
  { s with tokens := s.tokens ++ [t], last := some last }

/-- The state after two stars that join the part in front of them.  Directories in front or below
take them in, and any other part gives way. -/
def join (s : GlobReading) (last : Char) (t : GlobToken) : GlobReading :=
  match s.tokens.getLast? with
  | some .above => { s with last := some last }
  | some .below => { s with last := some last }
  | _ => { s with tokens := s.tokens.dropLast ++ [t], last := some last }

def pushStars (s : GlobReading) : GlobReading := (s.push '*' .anyMany).push '*' .anyMany

/-- Whether two stars may follow the last character and stand alone: behind a slash, or at the
start of a choice. -/
def mayStandAlone (s : GlobReading) : Bool :=
  s.last == some '/' || (!s.around.isEmpty && (s.last == some ',' || s.last == some '\x7b'))

/-- The state behind two stars, and what is left of the pattern. -/
def readStars (s : GlobReading) (rest : List Char) : GlobReading × List Char :=
  let endsChoice (c : Char) := !s.around.isEmpty && (c == ',' || c == '\x7d')
  if s.tokens.isEmpty then
    match rest with
    | [] => (s.push '*' .above, [])
    | '/' :: rest => (s.push '/' .above, rest)
    | rest => (s.pushStars, rest)
  else if !s.mayStandAlone then (s.pushStars, rest)
  else
    match rest with
    | [] => (s.join '*' .below, [])
    | '/' :: rest => (s.join '/' .between, rest)
    | c :: rest => if endsChoice c then (s.join '*' .below, c :: rest) else (s.pushStars, c :: rest)

/-- The state behind an opening bracket, and what is left of the pattern. -/
def readBracket (s : GlobReading) (rest : List Char) : Option (GlobReading × List Char) :=
  let (negated, inner) :=
    match rest with
    | '!' :: inner => (true, inner)
    | '^' :: inner => (true, inner)
    | inner => (false, inner)
  match BracketReading.read true false [] inner with
  | .closed ranges rest => some (s.push ']' (.brackets negated ranges), rest)
  | .backward => none
  | .neverClosed => some ({ s.push '[' (.literal '[') with plainBrackets := true }, rest)

def openBrace (s : GlobReading) : GlobReading :=
  { s with tokens := [], around := (s.tokens, []) :: s.around, last := some '\x7b' }

def readComma (s : GlobReading) : GlobReading :=
  match s.around with
  | [] => s.push ',' (.literal ',')
  | (before, choices) :: around =>
      { s with tokens := [], around := (before, choices ++ [s.tokens]) :: around, last := some ',' }

/-- The state behind a closing brace; nothing when none is open. -/
def closeBrace (s : GlobReading) : Option GlobReading :=
  match s.around with
  | [] => none
  | (before, choices) :: around =>
      let tokens := before ++ [.braces (choices ++ [s.tokens])]
      some { s with tokens := tokens, around := around, last := some '\x7d' }

/-- Reads a pattern to its end.  Each step takes a character, so the length bounds their number. -/
def read : (steps : Nat) → GlobReading → List Char → Option GlobReading
  | _, s, [] => some s
  | 0, _, _ :: _ => none
  | n + 1, s, '*' :: '*' :: rest =>
      let (s, rest) := s.readStars rest
      read n s rest
  | n + 1, s, '\\' :: c :: rest => read n (s.push c (.literal c)) rest
  | n + 1, s, c :: rest =>
      if c = '*' then read n (s.push '*' .anyMany) rest
      else if c = '?' then read n (s.push '?' .anyOne) rest
      else if c = '[' ∧ !s.plainBrackets then do
        let (s, rest) ← s.readBracket rest
        read n s rest
      else if c = '\x7b' then read n s.openBrace rest
      else if c = '\x7d' then do read n (← s.closeBrace) rest
      else if c = ',' then read n s.readComma rest
      else if c = '\\' then none
      else read n (s.push c (.literal c)) rest

end GlobReading

/-- A pattern of paths. -/
structure Glob where
  pattern : BytePattern
  deriving DecidableEq, Repr

namespace Glob

/-- The pattern of some parts; directories alone match all paths. -/
def ofTokens (tokens : List GlobToken) : Glob :=
  if tokens = [.above] then ⟨.many .all⟩ else ⟨.sequence (GlobToken.allPatterns tokens)⟩

/-- Reads a pattern; nothing for one whose braces do not fit, whose ranges run backward, or that
ends in a backslash. -/
def parse? (pattern : List Char) : Option Glob := do
  let s ← GlobReading.read pattern.length {} pattern
  if s.around.isEmpty then some (ofTokens s.tokens) else none

/-- The greatest depth of a pattern that can be used. -/
def greatestDepth : Nat := 250

/-- How deep a pattern nests.  All of it is one row of parts. -/
def depth (g : Glob) : Nat := 1 + g.pattern.depth true false

def isTooDeep (g : Glob) : Bool := greatestDepth < g.depth

def accepts (g : Glob) (path : List UInt8) : Bool := g.pattern.accepts path

end Glob

end ClassUniverse
