import ClassUniverse.CommandLine.Invocation
import ClassUniverse.Failure
import ClassUniverse.Name.Quoting
import ClassUniverse.Report
import ClassUniverse.Scene.Loading

/-!
# Running a command

A command answers with a report, or with a line of text, or fails.
-/

namespace ClassUniverse

/-- What a command answers. -/
inductive Answer
  | report (r : Report)
  | line (s : String)
  deriving DecidableEq, Repr

/-- An answer as text, for an elapsed time in milliseconds. -/
def Answer.render (elapsed : Nat) : Answer → String
  | report r => r.render elapsed ++ "\n"
  | line s => s ++ "\n"

namespace Command

def outcome {ε σ α : Type} : EStateM.Result ε σ α → Except ε α
  | .ok a _ => .ok a
  | .error e _ => .error e

def effectivePath (env : Surroundings) (o : Options) : Except Failure ClassPath :=
  (outcome ((ClassPathState.effectivePath env).run (.ofOptions o))).mapError
    (Failure.mk "failed to compute the class path")

def describePath (p : ClassPath) : Report :=
  ⟨[("classpath", .text p.render), ("entries", .texts p.entries),
    ("runtime_image", .truth p.hasModules)]⟩

def describePlatform (p : Platform) : Report :=
  ⟨[("jar", .text p.jar), ("api_level", .count p.level.toNat)]⟩

/-- The report on the classes of a class path, of which at most a given number is listed. -/
def describeClasses (p : ClassPath) (names : List String) (limit : Option Nat) : Report :=
  ⟨[("classpath", .text p.render), ("total", .count names.length), ("duration_ms", .elapsed),
    ("classes", .texts (match limit with
      | some n => names.take n
      | none => names))]⟩

def describeScene (s : Scene) : Report :=
  let r := s.core.registry
  ⟨[("classes", .count r.size), ("application", .count (r.idsIn .application).length),
    ("library", .count (r.idsIn .library).length), ("phantom", .count (r.idsIn .phantom).length),
    ("main_class", match s.main with
      | some id => .text (s.record id).name
      | none => .absent),
    ("duration_ms", .elapsed)]⟩

def listClasses (env : Surroundings) (o : Options) (limit : Option Nat) :
    Except Failure Report := do
  let p ← effectivePath env o
  return describeClasses p (ClassIndex.build env.files o.javaHome p).keys limit

def loadScene (env : Surroundings) (o : Options) : Except Failure Scene := do
  let s ← (Scene.ofClassPath env o).mapError (Failure.mk "failed to set up the scene")
  match (Scene.load env).run s with
  | .ok _ s => return s
  | .error e _ => throw ⟨"failed to load the necessary classes", e⟩

def selectPlatform (env : Surroundings) (o : Options) : Except Failure Platform :=
  (outcome ((ClassPathState.androidPlatform env).run (.ofOptions o))).mapError
    (Failure.mk "failed to select the Android platform jar")

def run (env : Surroundings) (o : Options) : Command → Except Failure Answer
  | classPath => (effectivePath env o).map fun p => .report (describePath p)
  | apiLevel => (selectPlatform env o).map fun p => .report (describePlatform p)
  | index limit => (listClasses env o limit).map .report
  | load => (loadScene env o).map fun s => .report (describeScene s)
  | quote name => .ok (.line (Name.quote name))
  | unquote name => .ok (.line (Name.unquote name))

end Command

def Invocation.run (env : Surroundings) (i : Invocation) : Except Failure Answer :=
  i.command.run env i.options

end ClassUniverse
