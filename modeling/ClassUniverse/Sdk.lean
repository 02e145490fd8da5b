import ClassUniverse.Archive
import ClassUniverse.Manifest.Parse
import ClassUniverse.Options

/-!
# Platforms of the Android SDK

The platform of level `N` is the jar `android-N/android.jar` in a directory of platforms.  The level
comes from the user, from the manifest of the application, or is the default, and is then adjusted
to what is installed.  What has been found out is remembered.
-/

namespace ClassUniverse

/-- A platform jar and its level. -/
structure Platform where
  jar : String
  level : UInt32
  deriving DecidableEq, Repr

/-- What has been found out: the highest level in each directory of platforms, the chosen level, and
the levels of the last manifest. -/
structure Sdk where
  highest : List (String × Option UInt32) := []
  chosen : Option UInt32 := none
  manifest : Option ManifestLevels := none
  deriving Repr, Inhabited

/-- An operation that remembers what it finds out about platforms. -/
abbrev SdkAction := EStateM Error Sdk

namespace Sdk

open Text

def defaultLevel : UInt32 := 15

def leastManifestLevel : UInt32 := 3

def levelOfName? (name : String) : Option UInt32 :=
  let mark := "android-".toList
  if mark.isPrefixOf name.toList then parseNumber? (name.toList.drop mark.length) else none

def jarPath (platforms : String) (level : UInt32) : String :=
  Path.join (Path.join platforms ("android-" ++ decimal level)) "android.jar"

/-- The level in a directory of a forced jar, the nearest first; the file name does not count. -/
def levelOfJar? (jar : String) : Option UInt32 :=
  (Path.components jar).dropLast.reverse.findSome? fun
    | .name text => levelOfName? text
    | _ => none

/-- The higher of two levels, where nothing is below every level. -/
def higher (a : Option UInt32) (b : UInt32) : Option UInt32 :=
  match a with
  | none => some b
  | some a => some (if a < b then b else a)

/-- The highest level of the directories `android-N` at a place. -/
def highestAt (t : FileTree) (place : List String) : Option UInt32 :=
  let directories := (t.children place).filter fun entry => entry.2.isBranch
  (directories.filterMap fun entry => levelOfName? entry.1).foldl higher none

def highestLevel (t : FileTree) (platforms : String) : SdkAction (Option UInt32) := do
  match (← get).highest.find? fun known => Path.same known.1 platforms with
  | some (_, level) => return level
  | none =>
      match t.place? platforms with
      | some place =>
          if !t.hasDirectory place then
            throw (.platformNotFound (.noPlatformDirectory platforms))
          let level := highestAt t place
          modify fun s => { s with highest := (platforms, level) :: s.highest }
          return level
      | none => throw (.platformNotFound (.noPlatformDirectory platforms))

/-- The chosen level, else the one of the user, else the default. -/
def level (s : Sdk) (explicit : Option UInt32) : UInt32 :=
  (s.chosen.orElse fun _ => explicit).getD defaultLevel

/-- Whether a path leads to an application: an archive with an entry of code. -/
def isApplication (t : FileTree) (path : String) : Bool :=
  match t.read path with
  | .error _ => false
  | .ok bytes =>
      [0x50, 0x4B, 0x03, 0x04].isPrefixOf bytes &&
        match Archive.open? t path with
        | .ok archive => (archive.entry "classes.dex").isOk
        | .error _ => false

/-- The level that the manifest of an application asks for. -/
def manifestLevel (t : FileTree) (application : String) (highest : Option UInt32) :
    SdkAction UInt32 := do
  let archive ←
    match Archive.open? t application with
    | .ok archive => pure archive
    | .error e => throw e
  match archive.entry "AndroidManifest.xml" with
  | .error _ => return defaultLevel
  | .ok (.error problem) => throw (.file problem)
  | .ok (.ok bytes) =>
      let levels := ManifestLevels.parse bytes
      modify fun s => { s with manifest := some levels }
      let wanted := (levels.preferred highest).getD defaultLevel
      return if wanted < leastManifestLevel then leastManifestLevel else wanted

/-- The first level from a given one on whose jar exists, or the last of a number of steps. -/
def climb (t : FileTree) (platforms : String) : (steps : Nat) → UInt32 → UInt32
  | 0, level => level
  | steps + 1, level =>
      if t.holds (jarPath platforms level) then level else climb t platforms steps (level + 1)

/-- A wanted level adjusted to the highest one: not above it, and at a jar if one lies between. -/
def adjust (t : FileTree) (platforms : String) (highest : Option UInt32) (wanted : UInt32) :
    UInt32 :=
  match highest with
  | none => wanted
  | some top =>
      let start := if top < wanted then top else wanted
      climb t platforms (top.toNat - start.toNat) start

def resolveLevel (t : FileTree) (platforms : String) (application : Option String)
    (explicit : Option UInt32) : SdkAction UInt32 := do
  match (← get).chosen with
  | some level => return level
  | none =>
      let highest ← highestLevel t platforms
      match application with
      | some path => if !t.holds path then throw (.configuration (.noFile path))
      | none => pure ()
      let wanted ←
        match explicit, application with
        | some level, _ => pure level
        | none, some path =>
            if Path.endsLike ".apk" path then manifestLevel t path highest else pure defaultLevel
        | none, none => pure defaultLevel
      let level := adjust t platforms highest wanted
      modify fun s => { s with chosen := some level }
      return level

def platform (t : FileTree) (platforms : String) (application : Option String)
    (explicit : Option UInt32) : SdkAction Platform := do
  let level ← resolveLevel t platforms application explicit
  let jar := jarPath platforms level
  if !t.isFile jar then throw (.platformNotFound (.noTargetJar jar))
  return ⟨jar, level⟩

def forcedPlatform (t : FileTree) (jar : String) (explicit : Option UInt32) :
    SdkAction Platform := do
  let level := (explicit.orElse fun _ => levelOfJar? jar).getD defaultLevel
  modify fun s => { s with chosen := some level }
  if !t.holds jar then throw (.platformNotFound (.noForcedJar jar))
  return ⟨jar, level⟩

/-- The one application among some paths, if there is one; more than one is refused. -/
def application? (t : FileTree) (paths : List String) : Except Error (Option String) :=
  match paths.filter (isApplication t) with
  | [] => .ok none
  | [path] => .ok (some path)
  | _ => .error (.configuration .severalApplications)

/-- The platform for some options and a class path: the forced jar, or the one for the only
application, or for files of code, among the class path and the process directories. -/
def defaultPlatform (t : FileTree) (o : Options) (classPath : List String) :
    SdkAction Platform := do
  match o.forcedAndroidJar, o.androidJars with
  | some jar, _ => forcedPlatform t jar o.androidLevel
  | none, none => throw (.platformNotFound .noAndroidPlatform)
  | none, some platforms =>
      let paths := classPath ++ o.processDirs
      match application? t paths with
      | .error e => throw e
      | .ok application =>
          if application.isNone && !paths.any (Path.endsLike ".dex") then
            throw (.configuration .noApplication)
          platform t platforms application o.androidLevel

end Sdk

end ClassUniverse
