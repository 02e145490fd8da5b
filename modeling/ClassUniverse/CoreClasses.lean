import ClassUniverse.Definition

/-!
# Core classes

The classes at the core of a Java runtime, known by kind and supertypes alone.  They stand in for a
runtime that has no modules to read.  Every supertype named here is in the table itself, so a class
of the table always resolves.
-/

namespace ClassUniverse

/-- The kind of a core class. -/
inductive CoreKind
  | plain
  | abstract
  | final
  | interface
  deriving DecidableEq, Repr

/-- A core class. -/
structure CoreClass where
  name : String
  kind : CoreKind
  superclass : Option String
  interfaces : List String
  deriving DecidableEq, Repr

namespace CoreClass

def modifiers : CoreKind → Modifiers
  | .plain => Modifiers.publicFlag
  | .abstract => Modifiers.publicFlag ||| Modifiers.abstractFlag
  | .final => Modifiers.publicFlag ||| Modifiers.finalFlag
  | .interface => Modifiers.publicFlag ||| Modifiers.interfaceFlag ||| Modifiers.abstractFlag

def table : List CoreClass :=
  [⟨"java.lang.Object", .plain, none, []⟩,
    ⟨"java.io.Serializable", .interface, some "java.lang.Object", []⟩,
    ⟨"java.lang.Cloneable", .interface, some "java.lang.Object", []⟩,
    ⟨"java.lang.Comparable", .interface, some "java.lang.Object", []⟩,
    ⟨"java.lang.CharSequence", .interface, some "java.lang.Object", []⟩,
    ⟨"java.lang.Appendable", .interface, some "java.lang.Object", []⟩,
    ⟨"java.lang.Runnable", .interface, some "java.lang.Object", []⟩,
    ⟨"java.lang.AutoCloseable", .interface, some "java.lang.Object", []⟩,
    ⟨"java.lang.Iterable", .interface, some "java.lang.Object", []⟩,
    ⟨"java.lang.Thread$UncaughtExceptionHandler", .interface, some "java.lang.Object", []⟩,
    ⟨"java.lang.reflect.Type", .interface, some "java.lang.Object", []⟩,
    ⟨"java.lang.reflect.AnnotatedElement", .interface, some "java.lang.Object", []⟩,
    ⟨"java.lang.reflect.GenericDeclaration", .interface, some "java.lang.Object",
      ["java.lang.reflect.AnnotatedElement"]⟩,
    ⟨"java.lang.String", .final, some "java.lang.Object",
      ["java.io.Serializable", "java.lang.Comparable", "java.lang.CharSequence"]⟩,
    ⟨"java.lang.Class", .final, some "java.lang.Object",
      ["java.io.Serializable", "java.lang.reflect.GenericDeclaration", "java.lang.reflect.Type",
        "java.lang.reflect.AnnotatedElement"]⟩,
    ⟨"java.lang.ClassLoader", .abstract, some "java.lang.Object", []⟩,
    ⟨"java.lang.System", .final, some "java.lang.Object", []⟩,
    ⟨"java.lang.Runtime", .plain, some "java.lang.Object", []⟩,
    ⟨"java.lang.Math", .final, some "java.lang.Object", []⟩,
    ⟨"java.lang.Thread", .plain, some "java.lang.Object", ["java.lang.Runnable"]⟩,
    ⟨"java.lang.ThreadGroup", .plain, some "java.lang.Object",
      ["java.lang.Thread$UncaughtExceptionHandler"]⟩,
    ⟨"java.lang.Void", .final, some "java.lang.Object", []⟩,
    ⟨"java.lang.Number", .abstract, some "java.lang.Object", ["java.io.Serializable"]⟩,
    ⟨"java.lang.Boolean", .final, some "java.lang.Object",
      ["java.io.Serializable", "java.lang.Comparable"]⟩,
    ⟨"java.lang.Character", .final, some "java.lang.Object",
      ["java.io.Serializable", "java.lang.Comparable"]⟩,
    ⟨"java.lang.Byte", .final, some "java.lang.Number", ["java.lang.Comparable"]⟩,
    ⟨"java.lang.Short", .final, some "java.lang.Number", ["java.lang.Comparable"]⟩,
    ⟨"java.lang.Integer", .final, some "java.lang.Number", ["java.lang.Comparable"]⟩,
    ⟨"java.lang.Long", .final, some "java.lang.Number", ["java.lang.Comparable"]⟩,
    ⟨"java.lang.Float", .final, some "java.lang.Number", ["java.lang.Comparable"]⟩,
    ⟨"java.lang.Double", .final, some "java.lang.Number", ["java.lang.Comparable"]⟩,
    ⟨"java.lang.AbstractStringBuilder", .abstract, some "java.lang.Object",
      ["java.lang.Appendable", "java.lang.CharSequence"]⟩,
    ⟨"java.lang.StringBuffer", .final, some "java.lang.AbstractStringBuilder",
      ["java.io.Serializable", "java.lang.CharSequence"]⟩,
    ⟨"java.lang.StringBuilder", .final, some "java.lang.AbstractStringBuilder",
      ["java.io.Serializable", "java.lang.CharSequence"]⟩,
    ⟨"java.lang.Enum", .abstract, some "java.lang.Object",
      ["java.lang.Comparable", "java.io.Serializable"]⟩,
    ⟨"java.lang.Throwable", .plain, some "java.lang.Object", ["java.io.Serializable"]⟩,
    ⟨"java.lang.Exception", .plain, some "java.lang.Throwable", []⟩,
    ⟨"java.lang.Error", .plain, some "java.lang.Throwable", []⟩,
    ⟨"java.lang.RuntimeException", .plain, some "java.lang.Exception", []⟩,
    ⟨"java.lang.ReflectiveOperationException", .plain, some "java.lang.Exception", []⟩,
    ⟨"java.lang.ClassNotFoundException", .plain, some "java.lang.ReflectiveOperationException",
      []⟩,
    ⟨"java.lang.InterruptedException", .plain, some "java.lang.Exception", []⟩,
    ⟨"java.lang.CloneNotSupportedException", .plain, some "java.lang.Exception", []⟩,
    ⟨"java.security.PrivilegedActionException", .plain, some "java.lang.Exception", []⟩,
    ⟨"java.lang.ArithmeticException", .plain, some "java.lang.RuntimeException", []⟩,
    ⟨"java.lang.ArrayStoreException", .plain, some "java.lang.RuntimeException", []⟩,
    ⟨"java.lang.ClassCastException", .plain, some "java.lang.RuntimeException", []⟩,
    ⟨"java.lang.IllegalArgumentException", .plain, some "java.lang.RuntimeException", []⟩,
    ⟨"java.lang.IllegalMonitorStateException", .plain, some "java.lang.RuntimeException", []⟩,
    ⟨"java.lang.IllegalStateException", .plain, some "java.lang.RuntimeException", []⟩,
    ⟨"java.lang.IndexOutOfBoundsException", .plain, some "java.lang.RuntimeException", []⟩,
    ⟨"java.lang.NegativeArraySizeException", .plain, some "java.lang.RuntimeException", []⟩,
    ⟨"java.lang.NullPointerException", .plain, some "java.lang.RuntimeException", []⟩,
    ⟨"java.lang.UnsupportedOperationException", .plain, some "java.lang.RuntimeException", []⟩,
    ⟨"java.lang.ArrayIndexOutOfBoundsException", .plain,
      some "java.lang.IndexOutOfBoundsException", []⟩,
    ⟨"java.lang.StringIndexOutOfBoundsException", .plain,
      some "java.lang.IndexOutOfBoundsException", []⟩,
    ⟨"java.lang.LinkageError", .plain, some "java.lang.Error", []⟩,
    ⟨"java.lang.ClassCircularityError", .plain, some "java.lang.LinkageError", []⟩,
    ⟨"java.lang.ClassFormatError", .plain, some "java.lang.LinkageError", []⟩,
    ⟨"java.lang.ExceptionInInitializerError", .plain, some "java.lang.LinkageError", []⟩,
    ⟨"java.lang.IncompatibleClassChangeError", .plain, some "java.lang.LinkageError", []⟩,
    ⟨"java.lang.NoClassDefFoundError", .plain, some "java.lang.LinkageError", []⟩,
    ⟨"java.lang.UnsatisfiedLinkError", .plain, some "java.lang.LinkageError", []⟩,
    ⟨"java.lang.VerifyError", .plain, some "java.lang.LinkageError", []⟩,
    ⟨"java.lang.AbstractMethodError", .plain, some "java.lang.IncompatibleClassChangeError", []⟩,
    ⟨"java.lang.IllegalAccessError", .plain, some "java.lang.IncompatibleClassChangeError", []⟩,
    ⟨"java.lang.InstantiationError", .plain, some "java.lang.IncompatibleClassChangeError", []⟩,
    ⟨"java.lang.NoSuchFieldError", .plain, some "java.lang.IncompatibleClassChangeError", []⟩,
    ⟨"java.lang.NoSuchMethodError", .plain, some "java.lang.IncompatibleClassChangeError", []⟩,
    ⟨"java.lang.VirtualMachineError", .abstract, some "java.lang.Error", []⟩,
    ⟨"java.lang.InternalError", .plain, some "java.lang.VirtualMachineError", []⟩,
    ⟨"java.lang.OutOfMemoryError", .plain, some "java.lang.VirtualMachineError", []⟩,
    ⟨"java.lang.StackOverflowError", .plain, some "java.lang.VirtualMachineError", []⟩,
    ⟨"java.lang.UnknownError", .plain, some "java.lang.VirtualMachineError", []⟩,
    ⟨"java.lang.ThreadDeath", .plain, some "java.lang.Error", []⟩,
    ⟨"java.lang.AssertionError", .plain, some "java.lang.Error", []⟩,
    ⟨"java.lang.ref.Reference", .abstract, some "java.lang.Object", []⟩,
    ⟨"java.lang.ref.FinalReference", .plain, some "java.lang.ref.Reference", []⟩,
    ⟨"java.lang.ref.Finalizer", .final, some "java.lang.ref.FinalReference", []⟩,
    ⟨"java.lang.invoke.LambdaMetafactory", .final, some "java.lang.Object", []⟩,
    ⟨"java.lang.invoke.StringConcatFactory", .final, some "java.lang.Object", []⟩]

/-- The names of the core classes in the order of the table. -/
def names : List String := table.map name

def definition? (name : String) : Option ClassDefinition :=
  (table.find? fun c => c.name == name).map fun c => {
    name := c.name
    modifiers := modifiers c.kind
    superclass := c.superclass
    interfaces := c.interfaces }

end CoreClass

end ClassUniverse
