import Carve.Text.Blank
import Carve.Text.Letters
import Carve.Text.Split
/-!
Facts of the Java language that need no compiler: primitive types, the types and methods that
every file sees without an import, the raw name of a type expression, and the value with which a
stubbed body returns.
-/

namespace Carve.Java

def langTypes : List String :=
  ["AbstractMethodError", "Appendable", "ArithmeticException", "ArrayIndexOutOfBoundsException",
    "ArrayStoreException", "AssertionError", "AutoCloseable", "Boolean", "Byte", "CharSequence",
    "Character", "Class", "ClassCastException", "ClassLoader", "ClassNotFoundException",
    "CloneNotSupportedException", "Cloneable", "Comparable", "Deprecated", "Double", "Enum",
    "Error", "Exception", "ExceptionInInitializerError", "Float", "FunctionalInterface",
    "IllegalAccessException", "IllegalArgumentException", "IllegalMonitorStateException",
    "IllegalStateException", "IndexOutOfBoundsException", "InheritableThreadLocal",
    "InstantiationException", "Integer", "InternalError", "InterruptedException", "Iterable",
    "LinkageError", "Long", "Math", "NegativeArraySizeException", "NoSuchFieldException",
    "NoSuchMethodException", "NullPointerException", "Number", "NumberFormatException", "Object",
    "OutOfMemoryError", "Override", "Process", "ProcessBuilder", "Readable", "Record",
    "ReflectiveOperationException", "Runnable", "Runtime", "RuntimeException", "SafeVarargs",
    "SecurityException", "Short", "StackOverflowError", "StackTraceElement", "StrictMath",
    "String", "StringBuffer", "StringBuilder", "StringIndexOutOfBoundsException",
    "SuppressWarnings", "System", "Thread", "ThreadLocal", "Throwable", "TypeNotPresentException",
    "UnsupportedOperationException", "VirtualMachineError", "Void"]

def objectMethods : List String :=
  ["clone", "equals", "finalize", "getClass", "hashCode", "notify", "notifyAll", "toString",
    "wait"]

def isLangType (name : String) : Bool := langTypes.contains name

def isObjectMethod (name : String) : Bool := objectMethods.contains name

def primitiveNames : List String :=
  ["byte", "short", "int", "long", "float", "double", "boolean", "char", "void"]

def isPrimitive (type : String) : Bool := primitiveNames.contains type

/-- Text outside of angle brackets, without blanks and square brackets. A closing bracket that was
never opened is dropped. -/
def outsideBrackets (depth : Nat) : List Char → List Char
  | [] => []
  | c :: cs =>
    if c = '<' then outsideBrackets (depth + 1) cs
    else if c = '>' then outsideBrackets (depth - 1) cs
    else if 0 < depth || Text.isBlank c || c == '[' || c == ']' then outsideBrackets depth cs
    else c :: outsideBrackets depth cs

def dropEllipses (cs : List Char) : List Char :=
  let dots := (cs.reverse.takeWhile (· == '.')).length
  cs.take (cs.length - dots / 3 * 3)

def rawName (cs : List Char) : List Char :=
  Text.dropEndWhile (· == '.') ((dropEllipses (outsideBrackets 0 cs)).dropWhile (· == '.'))

/-- The name of a type without type arguments, dimensions and ellipsis. -/
def stripGenerics (type : String) : String := String.ofList (rawName type.toList)

def isArrayType (type : String) : Bool :=
  let text := Text.trimEnd type.toList
  text.getLast? == some ']' || (Text.stripEnd ['.', '.', '.'] text).isSome

def looksLikeType (name : String) : Bool := name.toList.head?.any Text.isCapital

/-- The package and the type of a qualified name. Packages are written small and types with a
capital letter; without that sign the name is all type. -/
def splitPackage (qualified : String) : Option String × String :=
  let (package, type) := (Text.parts '.' qualified).span (!looksLikeType ·)
  if package.isEmpty || type.isEmpty then (none, qualified)
  else (some (Text.joined "." package), Text.joined "." type)

def defaultValue (type : String) : Option String :=
  match Text.trimmed type with
  | "void" => none
  | "boolean" => some "false"
  | "char" => some "'\\0'"
  | "byte" | "short" | "int" | "long" | "float" | "double" => some "0"
  | _ => some "null"

end Carve.Java
