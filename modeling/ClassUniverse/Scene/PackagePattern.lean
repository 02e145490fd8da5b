/-!
# Package patterns

A pattern is the name of a class, or the name of a package or an outer class with a star for all
that is inside.
-/

namespace ClassUniverse.PackagePattern

/-- Whether a pattern ends in a star that follows a dot or a dollar sign. -/
def isOpen (pattern : List Char) : Bool :=
  ['.', '*'].isSuffixOf pattern || ['$', '*'].isSuffixOf pattern

def covers (pattern name : String) : Bool :=
  pattern == name ||
    (isOpen pattern.toList && pattern.toList.dropLast.isPrefixOf name.toList)

def runtimePackages : List String :=
  ["java.*", "sun.*", "javax.*", "com.sun.*", "com.ibm.*", "org.xml.*", "org.w3c.*",
    "apple.awt.*", "com.apple.*"]

end ClassUniverse.PackagePattern
