import Carve.Declaration
import Carve.Path
/-!
What the place of a file in a project says about it: its scope and its module.
-/

namespace Carve

def hasTestTree : List Path.Component → Bool
  | a :: b :: rest => (a == .name "src" && b == .name "test") || hasTestTree (b :: rest)
  | _ => false

def Path.scope (p : Path) : Scope := if hasTestTree p.components then .test else .main

/-- Each of these marks the directory that holds it as a module. -/
def buildFiles : List String := ["build.gradle", "build.gradle.kts", "pom.xml"]

def directoryName (p : Path) : String := p.fileName?.getD "root"

def moduleFrom (isFile : Path → Bool) (root : Path) : Nat → Option Path → String
  | 0, _ | _, none => directoryName root
  | fuel + 1, some dir =>
    if !dir.startsWith root || dir.Same root then directoryName root
    else if buildFiles.any fun f => isFile (dir.join ⟨f⟩) then directoryName dir
    else moduleFrom isFile root fuel dir.parent?

/-- The name of the nearest directory above a file that holds a build file, or else of the root. -/
def moduleOf (isFile : Path → Bool) (root p : Path) : String :=
  moduleFrom isFile root (p.components.length + 1) p.parent?

end Carve
