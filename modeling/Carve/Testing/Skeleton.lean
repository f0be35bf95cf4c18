import Carve.Testing.Prompt
import Carve.Text.Letters
/-!
A test without a service: a skeleton class with one test, whose blanks are filled in one after the
other from what the target is called.
-/

namespace Carve.Testing.Skeleton

def blank (name : String) : String := "$\x7b" ++ name ++ "\x7d"

def packageLine : String := "package " ++ blank "PACKAGE" ++ ";\n\n"

def imports : Junit → String
  | .four =>
    "import org.junit.Test;\n\nimport static org.junit.Assert.assertNotNull;\n\n"
  | .five =>
    "import org.junit.jupiter.api.Test;\n\n" ++
      "import static org.junit.jupiter.api.Assertions.assertNotNull;\n\n"

/-- The older flavour wants its classes and tests public. -/
def access : Junit → String
  | .four => "public "
  | .five => ""

def body (junit : Junit) : String :=
  imports junit ++ access junit ++ "class " ++ blank "TEST_CLASS" ++ " \x7b\n\n    @Test\n    " ++
    access junit ++ "void " ++ blank "METHOD" ++ "() \x7b\n" ++
    "        // Arrange, act and assert against " ++ blank "CLASS" ++ ".\n" ++
    "        assertNotNull(" ++ blank "CLASS" ++ ".class);\n    \x7d\n\x7d\n"

def testName (t : Target) : String :=
  match t.methodName with
  | some name => "test" ++ Text.capitalize name
  | none => "testCreation"

/-- A target without a package gets no package line. -/
def fill (t : Target) (junit : Junit) : String :=
  let text :=
    match t.package with
    | some package => Text.replaced (blank "PACKAGE") package (packageLine ++ body junit)
    | none => body junit
  Text.replaced (blank "METHOD") (testName t)
    (Text.replaced (blank "CLASS") t.className
      (Text.replaced (blank "TEST_CLASS") t.testClass text))

def answer (t : Target) (junit : Junit) : String :=
  Prompt.fence ++ "java\n" ++ fill t junit ++ Prompt.fence ++ "\n"

end Carve.Testing.Skeleton
