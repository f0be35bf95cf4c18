import Carve.Command.Basic
import Carve.Settings.Load
import Carve.Workbench
/-!
From the subject of a command to the declaration that it is about.
-/

namespace Carve.Command.Subject

/-- The settings of the project, over which the command has the last word. -/
def settings (s : Subject) (d : Disk) (home : Path) (env : String → Option String) :
    Except Fault Settings := do
  let found ← Settings.loadFor d s.project home env
  return { found with
    maxDepth := if s.maxDepth.isSome then s.maxDepth else found.maxDepth
    includeTests := s.includeTests || found.includeTests }

def openBench (s : Subject) (d : Disk) (settings : Settings) : Except Failure Workbench :=
  (Workbench.openAt d s.project settings).mapError (.indexing s.project)

/-- A name goes before a place. Places are counted from one in a command and from zero in an
index. -/
def root (s : Subject) (x : Index) : Except Failure Declaration :=
  match s.target, s.site with
  | some name, _ => (x.resolve name).mapError .fault
  | none, some site =>
    (x.resolveSite (s.project.join site.file) (site.line - 1) (site.col - 1)).mapError .fault
  | none, none => .error .nothingNamed

end Carve.Command.Subject
