import ClassUniverse.Level
import ClassUniverse.OrderedMap

/-!
# Basic classes

The classes that every analysis of a Java program needs, each with the level that it needs.
-/

namespace ClassUniverse.BasicClasses

def supertypes : List String :=
  ["java.lang.Object", "java.lang.String", "java.lang.Error",
    "java.lang.ExceptionInInitializerError", "java.lang.RuntimeException",
    "java.lang.ClassNotFoundException", "java.lang.ArithmeticException",
    "java.lang.ArrayStoreException", "java.lang.ClassCastException",
    "java.lang.IllegalMonitorStateException", "java.lang.IndexOutOfBoundsException",
    "java.lang.ArrayIndexOutOfBoundsException", "java.lang.NegativeArraySizeException",
    "java.lang.InstantiationError", "java.lang.InternalError", "java.lang.OutOfMemoryError",
    "java.lang.StackOverflowError", "java.lang.UnknownError", "java.lang.ThreadDeath",
    "java.lang.ClassCircularityError", "java.lang.ClassFormatError",
    "java.lang.IllegalAccessError", "java.lang.IncompatibleClassChangeError",
    "java.lang.LinkageError", "java.lang.VerifyError", "java.lang.NoSuchFieldError",
    "java.lang.AbstractMethodError", "java.lang.NoSuchMethodError",
    "java.lang.UnsatisfiedLinkError", "java.lang.Thread", "java.lang.Runnable",
    "java.lang.Cloneable", "java.io.Serializable", "java.lang.ref.Finalizer",
    "java.lang.invoke.LambdaMetafactory"]

def members : List String :=
  ["java.lang.Class", "java.lang.Void", "java.lang.Boolean", "java.lang.Byte",
    "java.lang.Character", "java.lang.Short", "java.lang.Integer", "java.lang.Long",
    "java.lang.Float", "java.lang.Double", "java.lang.StringBuffer", "java.lang.Enum",
    "java.lang.AssertionError", "java.lang.Throwable", "java.lang.Exception",
    "java.lang.NoClassDefFoundError", "java.lang.ReflectiveOperationException",
    "java.lang.NullPointerException"]

def table : OrderedMap Level :=
  .ofList (supertypes.map (fun name => (name, Level.hierarchy)) ++
    members.map fun name => (name, Level.signatures))

/-- A table in which a class has at least a level. -/
def raise (basic : OrderedMap Level) (name : String) (level : Level) : OrderedMap Level :=
  basic.insert name (((basic.get? name).getD level).max level)

end ClassUniverse.BasicClasses
