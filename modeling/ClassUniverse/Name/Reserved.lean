/-!
# Reserved words

The words that have a meaning of their own in the textual form of a class, so that a name segment
spelled like one of them has to be quoted.
-/

namespace ClassUniverse.Name

def reservedWords : List String :=
  ["newarray", "newmultiarray", "nop", "ret", "specialinvoke", "staticinvoke", "tableswitch",
    "virtualinvoke", "null_type", "unknown", "cmp", "cmpg", "cmpl", "entermonitor", "exitmonitor",
    "interfaceinvoke", "lengthof", "lookupswitch", "neg", "if", "abstract", "annotation",
    "boolean", "break", "byte", "case", "catch", "char", "class", "enum", "final", "native",
    "public", "protected", "private", "static", "synchronized", "transient", "volatile",
    "interface", "void", "short", "int", "long", "float", "double", "extends", "implements",
    "breakpoint", "default", "goto", "instanceof", "new", "return", "throw", "throws", "null",
    "from", "to", "with", "cls", "dynamicinvoke", "strictfp"]

def isReserved (word : String) : Bool := reservedWords.contains word

end ClassUniverse.Name
