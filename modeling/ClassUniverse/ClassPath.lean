import ClassUniverse.JavaVersion
import ClassUniverse.Sdk

/-!
# The effective class path

The effective class path has the explicit entries, then the process directories that are not among
them, then the classes of the platform when nothing was given explicitly or when they are asked for.
The class path of a Java runtime is its `rt.jar`, or, from version 9 on, a mark that stands for its
modules.
-/

namespace ClassUniverse

open Text

/-- The mark that stands for the modules of a runtime. -/
def moduleMark : String := "VIRTUAL_FS_FOR_JDK"

/-- The entries of a class path in the order in which they are searched. -/
structure ClassPath where
  entries : List String
  deriving DecidableEq, Repr, Inhabited

namespace ClassPath

def contains (p : ClassPath) (path : String) : Bool := p.entries.any (Path.same · path)

/-- Whether the modules of a runtime are on the class path. -/
def hasModules (p : ClassPath) : Bool := p.contains moduleMark

def render (p : ClassPath) : String := Path.joinList p.entries

end ClassPath

/-- The class path of an analysis: its options, the explicit entries, what has been computed so far,
and the classes that the chosen runtime needs beyond the usual ones. -/
structure ClassPathState where
  options : Options
  explicit : List String
  effective : Option ClassPath
  sdk : Sdk
  javaVersion : Option String
  runtimeClasses : List String
  deriving Inhabited

/-- An operation that remembers what it computes about the class path. -/
abbrev ClassPathAction := EStateM Error ClassPathState

namespace ClassPathState

/-- The class path of some options, nothing being computed yet. -/
def ofOptions (o : Options) : ClassPathState := ⟨o, o.classPath, none, {}, none, []⟩

def onSdk {α : Type} (action : SdkAction α) : ClassPathAction α := fun s =>
  match action s.sdk with
  | .ok a sdk => .ok a { s with sdk := sdk }
  | .error e sdk => .error e { s with sdk := sdk }

def javaProgram (env : Surroundings) (home : Option String) : String :=
  match env.value? "CLASS_SCENE_JAVA", home with
  | some program, _ => program
  | none, some home =>
      let program := Path.join (Path.join home "bin") "java"
      if env.files.isFile program then program else "java"
  | none, none => "java"

def releaseVersion? (env : Surroundings) (home : String) : Option String :=
  match env.files.readText (Path.join home "release") with
  | .ok text => (JavaVersion.quotedAfter? "JAVA_VERSION=\"".toList text).map String.ofList
  | .error _ => none

def toldVersion (env : Surroundings) (home : Option String) : Except Error String :=
  let program := javaProgram env home
  match env.run program with
  | .error problem => .error (.platformNotFound (.notStarted program problem))
  | .ok (stderr, stdout) =>
      let text := stderr.toList ++ stdout.toList
      match JavaVersion.quotedAfter? "version \"".toList text with
      | some version => .ok (String.ofList version)
      | none => .error (.unknownVersionScheme (String.ofList (trim text)))

/-- The version of the runtime: as the user says, else as its release file says, else as it tells.
-/
def findVersion (env : Surroundings) (o : Options) : Except Error String :=
  match o.javaVersion, o.javaHome.bind (releaseVersion? env) with
  | some version, _ => .ok version
  | none, some version => .ok version
  | none, none => toldVersion env o.javaHome

def runtimeVersion (env : Surroundings) : ClassPathAction String := do
  match (← get).javaVersion with
  | some version => return version
  | none =>
      match findVersion env (← get).options with
      | .error e => throw e
      | .ok version =>
          modify fun s => { s with javaVersion := some version }
          return version

/-- The places of the classes of a runtime before version 9. -/
def runtimeArchives (home : String) : List String :=
  [Path.join (Path.join home "lib") "rt.jar",
    Path.join (Path.join (Path.join home "jre") "lib") "rt.jar"]

def archiveEntries (t : FileTree) (o : Options) : Except Error (List String) :=
  match o.javaHome with
  | none => .error (.platformNotFound .javaHomeUnset)
  | some home =>
      match (runtimeArchives home).find? t.isFile with
      | none => .error (.platformNotFound (.noRuntimeArchive home))
      | some jar =>
          .ok (jar :: if o.wholeProgram then [Path.join (Path.join home "lib") "jce.jar"] else [])

/-- The class that the code of newer compilers needs of a runtime with modules. -/
def concatFactory : String := "java.lang.invoke.StringConcatFactory"

def javaEntries (env : Surroundings) : ClassPathAction (List String) := do
  let version ← runtimeVersion env
  match JavaVersion.isModular version with
  | .error e => throw e
  | .ok true =>
      modify fun s => { s with runtimeClasses := appendNew s.runtimeClasses concatFactory }
      return [moduleMark]
  | .ok false =>
      match archiveEntries env.files (← get).options with
      | .error e => throw e
      | .ok entries => return entries

def platformEntries (env : Surroundings) : ClassPathAction (List String) := do
  let s ← get
  match s.options.precedence with
  | .apk => return [(← onSdk (Sdk.defaultPlatform env.files s.options s.explicit)).jar]
  | .java => javaEntries env

/-- The paths of a list that are not among others, each once. -/
def addMissing (entries paths : List String) : List String :=
  paths.foldl (fun entries path =>
    if entries.any (Path.same · path) then entries else entries ++ [path]) entries

/-- The effective class path, computed once for each list of explicit entries. -/
def effectivePath (env : Surroundings) : ClassPathAction ClassPath := do
  let s ← get
  match s.effective with
  | some path => return path
  | none =>
      let given := addMissing s.explicit s.options.processDirs
      let platform ←
        if s.explicit.isEmpty || s.options.prependClassPath then platformEntries env else pure []
      let path : ClassPath := ⟨given ++ platform⟩
      modify fun s => { s with effective := some path }
      return path

/-- Puts other explicit entries in the place of the old ones. -/
def setExplicit (s : ClassPathState) (entries : List String) : ClassPathState :=
  { s with explicit := entries, effective := none }

def extend (s : ClassPathState) (entry : String) : ClassPathState :=
  s.setExplicit (s.explicit ++ [entry])

def androidPlatform (env : Surroundings) : ClassPathAction Platform := do
  let s ← get
  onSdk (Sdk.defaultPlatform env.files s.options s.explicit)

def androidLevel (s : ClassPathState) : UInt32 := s.sdk.level s.options.androidLevel

end ClassPathState

end ClassUniverse
