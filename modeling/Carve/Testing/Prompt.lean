import Carve.Settings
import Carve.Testing.Failure
/-!
The request for a test: what is to be tested, and the prompt that asks for it. A prompt holds the
instructions, the libraries and every file of the workspace, the file of the target first.
-/

namespace Carve.Testing

structure Target where
  id : QName
  kind : Declaration.Kind
  package : Option String
  className : String
  methodName : Option String
  file : Path
  deriving DecidableEq, Repr

namespace Target

def ofDeclaration (d : Declaration) (package : Option String) (file : Path) : Target :=
  if d.kind.isType then ⟨d.id, d.kind, package, d.name, none, file⟩
  else
    let owner := (d.parent.map QName.simple).getD ""
    ⟨d.id, d.kind, package, owner, if d.kind == .method then some d.name else none, file⟩

def testClass (t : Target) : String := t.className ++ "Test"

end Target

namespace Prompt

def tick (s : String) : String := "\x60" ++ s ++ "\x60"

def fence : String := "\x60\x60\x60"

def junitName : Junit → String
  | .four => "JUnit 4"
  | .five => "JUnit 5 (Jupiter)"

def instructions (t : Target) (junit : Junit) : String :=
  "Write a " ++ junitName junit ++ " unit test for the " ++ t.kind.text ++ " " ++ tick t.id.text ++
    ".\nName the test class " ++ tick t.testClass ++
    (match t.package with | some p => " in package " ++ tick p | none => "") ++
    ". Answer with the complete test class in one " ++ fence ++ "java block.\n" ++
    "Only the sources below and the listed libraries are on the classpath.\n\n"

def libraryList (libraries : List Coordinate) : String :=
  "Libraries:\n" ++
    if libraries.isEmpty then "- none\n"
    else String.join (libraries.map fun l => "- " ++ l.text ++ "\n")

def fileText (file : Path × String) : String :=
  "\n// File: " ++ file.1.text ++ "\n" ++ fence ++ "java\n" ++ file.2 ++
    (if file.2.toList.getLast? == some '\n' then "" else "\n") ++ fence ++ "\n"

/-- The files in their order, but for the target's own file, which leads. -/
def sources (t : Target) (w : Workspace) : List (Path × String) :=
  (w.get? t.file).toList ++ w.files.filter fun f => !decide (f.1.Same t.file)

def text (t : Target) (w : Workspace) (junit : Junit) : String :=
  instructions t junit ++ libraryList w.libraries ++ "\nSources:\n" ++
    String.join ((sources t w).map fileText)

/-- The prompt, unless it has more characters than the settings allow. -/
def format (t : Target) (w : Workspace) (s : ServiceSettings) : Except Failure String :=
  let prompt := text t w s.junit
  if s.maxPromptChars < prompt.length then
    .error (.promptTooLarge prompt.length s.maxPromptChars)
  else .ok prompt

end Prompt

end Carve.Testing
