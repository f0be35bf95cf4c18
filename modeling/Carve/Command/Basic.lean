import Carve.Fault
import Carve.Path
import Carve.Site
import Carve.Testing.Failure
/-!
What can be asked for on a command line, and why it may fail.
-/

namespace Carve

/-- The declaration that a command is about, and how its closure is to be computed. -/
structure Command.Subject where
  project : Path
  target : Option String := none
  site : Option SourceSite := none
  maxDepth : Option Nat := none
  includeTests : Bool := false
  deriving DecidableEq, Repr

inductive Command.Format where
  | table
  | json
  | markdown
  deriving DecidableEq, Repr

inductive Command where
  | resolve (subject : Command.Subject) (format : Command.Format)
  | materialize (subject : Command.Subject) (out : Option Path) (throwing verify : Bool)
  | generate (subject : Command.Subject) (write overwrite : Bool) (service : Option String)
  deriving DecidableEq, Repr

namespace Command

def subject : Command → Subject
  | .resolve s _ | .materialize s _ _ _ | .generate s _ _ _ => s

def out? : Command → Option Path
  | .materialize _ out _ _ => out
  | _ => none

inductive Failure where
  | fault (f : Fault)
  | indexing (project : Path) (f : Fault)
  | testing (f : Testing.Failure)
  | nothingNamed
  deriving DecidableEq, Repr

namespace Failure

/-- What went wrong and its causes, the nearest last. -/
def account : Failure → String
  | fault f => f.account
  | indexing project f => "failed to index " ++ project.text ++ ": " ++ f.account
  | testing f => f.account
  | nothingNamed => "either --target or --at is required"

end Failure

end Command

end Carve
