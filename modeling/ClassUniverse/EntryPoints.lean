import ClassUniverse.Universe

/-!
# Entry points

The methods from which control starts: the main method and the class initializers above it, and
methods that the machine calls by itself.
-/

namespace ClassUniverse

namespace EntryPoints

def mainMember : String := "void main(java.lang.String[])"

def initializerMember : String := "void <clinit>()"

def implicitSignatures : List String :=
  ["<java.lang.System: void initializeSystemClass()>",
    "<java.lang.ThreadGroup: void <init>()>",
    "<java.lang.Thread: void exit()>",
    "<java.lang.ThreadGroup: void uncaughtException(java.lang.Thread,java.lang.Throwable)>",
    "<java.lang.ClassLoader: void <init>()>",
    "<java.lang.ClassLoader: java.lang.Class loadClassInternal(java.lang.String)>",
    "<java.lang.ClassLoader: " ++
      "void checkPackageAccess(java.lang.Class,java.security.ProtectionDomain)>",
    "<java.lang.ClassLoader: void addClass(java.lang.Class)>",
    "<java.lang.ClassLoader: long findNative(java.lang.ClassLoader,java.lang.String)>",
    "<java.security.PrivilegedActionException: void <init>(java.lang.Exception)>",
    "<java.lang.ref.Finalizer: void runFinalizer()>",
    "<java.lang.Thread: void <init>(java.lang.ThreadGroup,java.lang.Runnable)>",
    "<java.lang.Thread: void <init>(java.lang.ThreadGroup,java.lang.String)>"]

/-- The main method of a class and the initializers of the class and its superclasses. -/
def ofMain (u : Universe) (main : ClassId) : List Method :=
  ((u.record main).method? mainMember).toList ++
    (u.catalog.ancestry main).filterMap fun id => (u.record id).method? initializerMember

def implicit (u : Universe) : List Method := implicitSignatures.filterMap u.knownMethod?

end EntryPoints

/-- How entry points are found: from the main class and the machine, or by a list of signatures. -/
inductive EntryPointRule
  | standard
  | listed (signatures : List String)
  deriving DecidableEq, Repr, Inhabited

def EntryPointRule.methods (u : Universe) (main : Option ClassId) : EntryPointRule → List Method
  | standard =>
      (match main with
        | some id => EntryPoints.ofMain u id
        | none => []) ++ EntryPoints.implicit u
  | listed signatures => signatures.filterMap u.knownMethod?

end ClassUniverse
