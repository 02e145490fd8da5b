import ClassUniverse.Error
import ClassUniverse.Text.Blank
import ClassUniverse.Text.Decimal
import ClassUniverse.Text.Split

/-!
# Versions of the Java runtime

A version is written `17`, `11.0.2`, `14-ea` or, in the older scheme, `1.8.0_292`.  From version 9
on the classes of the runtime come in modules.
-/

namespace ClassUniverse.JavaVersion

open Text

/-- The part of a version before its first hyphen, unless the version begins with it. -/
def base (version : List Char) : List Char :=
  match splitFirst '-' version with
  | some (c :: before, _) => c :: before
  | _ => version

/-- Whether a version without blanks around it is at least 9; nothing when it fits no scheme. -/
def isModular? (version : List Char) : Option Bool :=
  match splitOn '.' (base version) with
  | [] => none
  | first :: rest =>
      match parseNumber? first with
      | none => none
      | some major =>
          if 9 ≤ major then some true
          else if major = 1 then
            match rest with
            | [] => none
            | second :: _ => (parseNumber? second).map fun minor => decide (9 ≤ minor)
          else none

/-- Whether a version is at least 9, blanks around it being ignored. -/
def isModular (version : String) : Except Error Bool :=
  match isModular? (trim version.toList) with
  | some answer => .ok answer
  | none => .error (.unknownVersionScheme version)

/-- The text between the first occurrence of a marker and the next double quote. -/
def quotedAfter? (marker : List Char) : List Char → Option (List Char)
  | [] => none
  | c :: rest =>
      if marker.isPrefixOf (c :: rest) then
        (splitFirst '"' ((c :: rest).drop marker.length)).map Prod.fst
      else quotedAfter? marker rest

end ClassUniverse.JavaVersion
