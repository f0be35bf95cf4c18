import Carve.Disk.Scan
import Carve.Java.Compile
import Carve.Java.Emit
import Carve.Settings
/-!
An indexed project together with the settings that its closures and workspaces follow. Reading the
project anew gives a new workbench and leaves the old one, and all that was made of it, as it was.
-/

namespace Carve

structure Workbench where
  project : Path
  settings : Settings
  catalog : Catalog
  index : Index

namespace Workbench

def indexOf (d : Disk) (project : Path) (catalog : Catalog) : Except Fault Index :=
  return .ofSources project (← d.scan project) catalog

/-- The libraries of the settings are looked at before the project is. -/
def openAt (d : Disk) (project : Path) (settings : Settings) : Except Fault Workbench := do
  let catalog ← Catalog.ofEntries settings.libraries
  return ⟨project, settings, catalog, ← indexOf d project catalog⟩

def reindex (b : Workbench) (d : Disk) : Except Fault Workbench :=
  return { b with index := ← indexOf d b.project b.catalog }

def closure (b : Workbench) (root : String) : Except Fault Closure :=
  Closure.resolve b.settings.policy b.index root

def workspace (b : Workbench) (c : Closure) : Except Fault Workspace :=
  c.workspace b.settings.extraction Java.writer b.index

def workspacePath? (b : Workbench) (d : Declaration) : Option Path :=
  b.settings.extraction.pathOf? Java.writer b.index d

end Workbench

/-- Compiles a workspace that has been written, if there is a compiler. -/
def Workspace.verify (w : Workspace) (tools : Java.Toolchain) :
    Except Fault (Option Java.CompileReport) :=
  match tools.compiler? with
  | none => .ok none
  | some c => (Java.Compile.compile c.run ⟨"."⟩ [] (w.files.map (·.1))).map some

end Carve
