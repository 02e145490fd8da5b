import ClassUniverse.CommandLine.Run

/-!
# The program

The outer layer: the arguments, variables and files of this process are read, a command is run, and
its answer is printed.  Other programs are not started, so a runtime has to tell its version in its
release file unless the options give it.
-/

namespace ClassUniverse.Program

def settingNames : List String := ["CLASS_SCENE_JAVA", "JAVA_HOME", "ANDROID_HOME", "HOME"]

/-- Adds what a path leads to, and all below it.  Links to directories are not followed below the
path. -/
partial def gather (tree : FileTree) (path : String) : IO FileTree := do
  match ← (IO.FS.realPath path).toBaseIO with
  | .error _ => return tree
  | .ok place =>
      if ← place.isDir then
        let entries ← place.readDir
        entries.foldlM (fun tree entry => do
          let below := Path.join path entry.fileName
          let isLink :=
            match ← (IO.FS.realPath below).toBaseIO with
            | .ok found => found.toString != Path.join place.toString entry.fileName
            | .error _ => true
          if isLink && (← entry.path.isDir) then return tree
          gather tree below) (tree.makeDirectory path)
      else
        let bytes ← IO.FS.readBinFile place
        return tree.insert path (.file bytes.toList)

/-- The ignore files of the directories that lead to a path. -/
def ignoreFilesAbove (path : String) : List String :=
  let steps := Text.pieces '/' path
  (List.range steps.length).map fun n =>
    String.intercalate "/" (steps.take n ++ [IgnoreRule.fileName])

/-- The surroundings of this process, with the files at some paths. -/
def surroundings (paths : List String) : IO Surroundings := do
  let set ← settingNames.filterMapM fun name => do
    return (← IO.getEnv name).map fun value => (name, value)
  let rules := paths.flatMap ignoreFilesAbove
  return ⟨← (rules ++ paths).foldlM gather .empty, set⟩

/-- Runs an invocation, prints its answer and gives the exit code. -/
def answer (i : Invocation) : IO UInt32 := do
  let start ← IO.monoMsNow
  let directories := Options.platformDirectories (← surroundings [])
  let wanted := if i.options.precedence = .apk then directories else []
  let bare := i.options.complete (← surroundings wanted)
  let env ← surroundings (wanted ++ bare.places)
  match Invocation.run env { i with options := bare } with
  | .ok a =>
      IO.print (a.render ((← IO.monoMsNow) - start))
      return 0
  | .error failure =>
      IO.eprintln failure.render
      return 1

end ClassUniverse.Program

open ClassUniverse in
def main (args : List String) : IO UInt32 := do
  match CommandLine.parse args with
  | .ok i => Program.answer i
  | .error .helpAsked =>
      IO.print CommandLine.summary
      return 0
  | .error problem =>
      IO.eprintln ("error: " ++ problem.message ++ "\n\n" ++ CommandLine.summary)
      return 2
