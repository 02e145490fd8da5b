import ClassUniverse.Manifest.Levels
import ClassUniverse.Text.Blank
import ClassUniverse.Text.Decimal

/-!
# Manifests as plain text

A level is the number that follows a key word, whatever quotes, signs and blanks stand between.
-/

namespace ClassUniverse.Manifest

open Text

/-- Whether a character may stand between a key word and its number. -/
def isGap (c : Char) : Bool := c == '"' || c == '\'' || c == '=' || c == ':' || isBlank c

/-- The number at the front of a text after gap characters. -/
def numberAhead? (s : List Char) : Option UInt32 :=
  ofDigits? ((s.dropWhile isGap).takeWhile isDigit)

/-- The number behind the first occurrence of a key word that a number follows. -/
def numberAfter? (key : List Char) : List Char → Option UInt32
  | [] => none
  | c :: rest =>
      if key.isPrefixOf (c :: rest) then
        match numberAhead? ((c :: rest).drop key.length) with
        | some n => some n
        | none => numberAfter? key rest
      else numberAfter? key rest

/-- The number behind the first of several key words that has one. -/
def numberAfterAny? (keys : List String) (s : List Char) : Option UInt32 :=
  keys.findSome? fun key => numberAfter? key.toList s

def plainLevels (s : List Char) : ManifestLevels where
  target := numberAfterAny? ["targetSdkVersion", "target-version"] s
  minimum := numberAfterAny? ["minSdkVersion", "min-version"] s
  build := numberAfterAny? ["platformBuildVersionCode"] s

end ClassUniverse.Manifest
