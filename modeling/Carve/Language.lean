import Carve.Path
/-!
Names of programming languages and the file extensions that tell them.
-/

namespace Carve

structure Language where
  name : String
  deriving DecidableEq, Repr

namespace Language

def java : Language := ⟨"java"⟩

def unknown : Language := ⟨"unknown"⟩

instance : Inhabited Language := ⟨unknown⟩

def ofExtension? (extension : String) : Option Language :=
  if Path.sameIgnoringCase extension "java" then some java else none

/-- Whether files of this name are sources that can be read. -/
def supports (p : Path) : Bool := (p.extension?.bind ofExtension?).isSome

end Language

end Carve
