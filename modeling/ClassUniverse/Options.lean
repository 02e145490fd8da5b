/-!
# Options

What a user can choose about an analysis.
-/

namespace ClassUniverse

/-- Whether an analysis is about a Java program or an Android application. -/
inductive SourcePrecedence
  | java
  | apk
  deriving DecidableEq, Repr, Inhabited

/-- The choices of a user. -/
structure Options where
  classPath : List String := []
  prependClassPath : Bool := false
  processDirs : List String := []
  allowPhantoms : Bool := false
  wholeProgram : Bool := false
  precedence : SourcePrecedence := .java
  javaHome : Option String := none
  javaVersion : Option String := none
  androidJars : Option String := none
  forcedAndroidJar : Option String := none
  androidLevel : Option UInt32 := none
  included : List String := []
  excluded : List String := []
  includeAll : Bool := false
  app : Bool := false
  classes : List String := []
  dynamicClasses : List String := []
  dynamicDirs : List String := []
  dynamicPackages : List String := []
  mainClass : Option String := none
  reflectionLog : Option String := none
  recycleNumbers : Bool := false
  verbose : Bool := false
  deriving DecidableEq, Repr, Inhabited

end ClassUniverse
