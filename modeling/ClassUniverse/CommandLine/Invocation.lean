import ClassUniverse.CommandLine.Scan
import ClassUniverse.FileTree.Basic
import ClassUniverse.Options
import ClassUniverse.Text.Decimal

/-!
# Invocations

An invocation is a command with its options.  What the command line leaves open about the Java home
and the platforms of the Android SDK is looked up in the surroundings.
-/

namespace ClassUniverse

open Text

/-- What can be asked for. -/
inductive Command
  | classPath
  | apiLevel
  | index (limit : Option Nat)
  | load
  | quote (name : String)
  | unquote (name : String)
  deriving DecidableEq, Repr

/-- A command with its options. -/
structure Invocation where
  command : Command
  options : Options
  deriving DecidableEq, Repr

namespace CommandLine

/-- The value of an option that takes a path, which is not empty. -/
def path (take : String → Options → Options) (text : String) (o : Options) :
    Except UsageProblem Options :=
  if text.isEmpty then .error .invalidValue else .ok (take text o)

def anyText (take : String → Options → Options) (text : String) (o : Options) :
    Except UsageProblem Options := .ok (take text o)

/-- The value of the option for the kind of program. -/
def precedence (text : String) (o : Options) : Except UsageProblem Options :=
  if text = "java" then .ok { o with precedence := .java }
  else if text = "apk" then .ok { o with precedence := .apk }
  else .error .invalidValue

/-- Reads a level of the Android SDK.  A minus sign is allowed in front of zero. -/
def readLevel? (text : List Char) : Option UInt32 :=
  match text with
  | '-' :: digits => (naturalBelow? 1 digits).map UInt32.ofNat
  | text => parseNumber? text

/-- The value of the option for the level of the Android SDK. -/
def level (text : String) (o : Options) : Except UsageProblem Options :=
  match readLevel? text.toList with
  | some n => .ok { o with androidLevel := some n }
  | none => .error .malformedNumber

/-- The value of the option for the number of classes to list, a number of 64 bits. -/
def limit (text : String) : Except UsageProblem Command :=
  match naturalBelow? UInt64.size (withoutPlus text.toList) with
  | some n => .ok (.index (some n))
  | none => .error .malformedNumber

def switch (name : String) (turn : Options → Options) : Setting Options :=
  { name := name, effect := .switch turn }

def onePath (name : String) (take : String → Options → Options) : Setting Options :=
  { name := name, effect := .once (path take) }

def eachPath (name : String) (take : String → Options → Options) : Setting Options :=
  { name := name, effect := .each (path take) }

def oneText (name : String) (take : String → Options → Options) : Setting Options :=
  { name := name, effect := .once (anyText take) }

def eachText (name : String) (take : String → Options → Options) : Setting Options :=
  { name := name, effect := .each (anyText take) }

def settings : List (Setting Options) :=
  [.help,
    oneText "cp" fun s o => { o with classPath := Path.splitList s },
    switch "prepend-classpath" fun o => { o with prependClassPath := true },
    eachPath "process-dir" fun s o => { o with processDirs := o.processDirs ++ [s] },
    { name := "src-prec", effect := .once precedence },
    onePath "java-home" fun s o => { o with javaHome := some s },
    oneText "java-version" fun s o => { o with javaVersion := some s },
    onePath "android-jars" fun s o => { o with androidJars := some s },
    onePath "force-android-jar" fun s o => { o with forcedAndroidJar := some s },
    { name := "android-api-version", effect := .once level },
    { switch "whole-program" fun o => { o with wholeProgram := true } with letter := some 'w' },
    switch "allow-phantom-refs" fun o => { o with allowPhantoms := true },
    eachText "class" fun s o => { o with classes := o.classes ++ [s] },
    oneText "main-class" fun s o => { o with mainClass := some s },
    switch "app" fun o => { o with app := true },
    { eachText "include" fun s o => { o with included := o.included ++ [s] } with
      letter := some 'i' },
    { eachText "exclude" fun s o => { o with excluded := o.excluded ++ [s] } with
      letter := some 'x' },
    switch "include-all" fun o => { o with includeAll := true },
    eachText "dynamic-class" fun s o => { o with dynamicClasses := o.dynamicClasses ++ [s] },
    eachPath "dynamic-dir" fun s o => { o with dynamicDirs := o.dynamicDirs ++ [s] },
    eachText "dynamic-package" fun s o => { o with dynamicPackages := o.dynamicPackages ++ [s] },
    onePath "reflection-log" fun s o => { o with reflectionLog := some s },
    switch "weak-map-structures" fun o => { o with recycleNumbers := true },
    { switch "verbose" fun o => { o with verbose := true } with letter := some 'v' }]

/-- The grammar of each command behind its name, with the command before its arguments are read. -/
def commands : List (String × Grammar Command × Command) :=
  [("classpath", { settings := [.help] }, .classPath),
    ("api-level", { settings := [.help] }, .apiLevel),
    ("index",
      { settings := [.help, { name := "limit", effect := .once fun text _ => limit text }] },
      .index none),
    ("load", { settings := [.help] }, .load),
    ("quote", { settings := [.help], operands := [fun name _ => .quote name] }, .quote ""),
    ("unquote", { settings := [.help], operands := [fun name _ => .unquote name] }, .unquote "")]

/-- The name of the command that shows help for another one. -/
def helpCommand : String := "help"

def commandNames : List String := commands.map Prod.fst ++ [helpCommand]

/-- The whole grammar up to the name of a command. -/
def grammar : Grammar Options := { settings := settings, commands := commandNames }

def describeSetting (s : Setting Options) : String :=
  let letter :=
    match s.letter with
    | some c => ", -" ++ c.toString
    | none => ""
  let value := if s.effect.takesValue then " VALUE" else ""
  "  --" ++ s.name ++ letter ++ value ++ "\n"

def summary : String :=
  "Usage: [OPTIONS] COMMAND\n\nCommands:\n" ++
    String.join (commandNames.map fun name => "  " ++ name ++ "\n") ++
    "\nOptions:\n" ++ String.join (settings.map describeSetting)

/-- The answer to the command that shows help: nothing or one command can be named. -/
def helpAnswer : List String → UsageProblem
  | [] => .helpAsked
  | [name] => if commandNames.contains name then .helpAsked else .unknownCommand
  | _ => .unknownCommand

/-- Reads a command line: options, the name of a command and its arguments. -/
def parse (args : List String) : Except UsageProblem Invocation := do
  let (p, found) ← grammar.scan { choices := {} } args
  match found with
  | none =>
      let p ← p.settle
      throw (if p.met.isEmpty then .nothingGiven else .missingCommand)
  | some (name, rest) =>
      match commands.lookup name with
      | none => throw (helpAnswer rest)
      | some (g, start) =>
          let command ← g.read start rest
          let p ← p.settle
          return ⟨command, p.choices⟩

end CommandLine

namespace Options

/-- The directories in which the Android SDK can be expected to keep its platforms. -/
def platformDirectories (env : Surroundings) : List String :=
  let sdk := (env.filledValue? "ANDROID_HOME").map fun home => Path.join home "platforms"
  let user := (env.filledValue? "HOME").map fun home =>
    Path.join (Path.join (Path.join home "Android") "Sdk") "platforms"
  sdk.toList ++ user.toList

/-- The directory of platforms: the one of the options, else, for an Android application without a
forced jar, the first expected one that is there. -/
def findPlatforms (env : Surroundings) (o : Options) : Option String :=
  match o.androidJars with
  | some platforms => some platforms
  | none =>
      if o.precedence = .apk ∧ o.forcedAndroidJar = none then
        (platformDirectories env).find? env.files.isDirectory
      else none

/-- The files and directories that an analysis with some options can look at. -/
def places (o : Options) : List String :=
  let ofRuntime := (o.javaHome.toList).flatMap fun home =>
    [["release"], ["bin", "java"], ["jmods"], ["lib", "rt.jar"], ["lib", "jce.jar"],
      ["jre", "lib", "rt.jar"]].map fun steps => steps.foldl Path.join home
  let single := [o.androidJars, o.forcedAndroidJar, o.reflectionLog].filterMap id
  o.classPath ++ o.processDirs ++ o.dynamicDirs ++ ofRuntime ++ single

/-- The options with what the surroundings say about what they leave open. -/
def complete (env : Surroundings) (o : Options) : Options :=
  { o with
    javaHome := o.javaHome.orElse fun _ => env.filledValue? "JAVA_HOME"
    androidJars := findPlatforms env o }

end Options

def Invocation.ofArguments (env : Surroundings) (args : List String) :
    Except CommandLine.UsageProblem Invocation :=
  (CommandLine.parse args).map fun i => { i with options := i.options.complete env }

end ClassUniverse
