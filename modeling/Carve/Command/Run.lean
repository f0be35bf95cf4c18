import Carve.Closure.Json
import Carve.Command.Arguments
import Carve.Command.Subject
import Carve.Command.Table
import Carve.Json.Printer
import Carve.Testing.Generation
import Carve.Testing.Write
import Carve.Workspace.Write
/-!
Carrying out a command on a file system. What a command has printed and written before it fails
stays printed and written.
-/

namespace Carve.Command

/-- What a command finds around it. -/
structure Surroundings where
  variableOf : String → Option String
  home : Path
  tools : Java.Toolchain
  network : Testing.Request → Except Testing.Failure Testing.Response

structure Session where
  disk : Disk
  printed : String := ""

abbrev Job (α : Type) := ExceptT Failure (StateM Session) α

namespace Job

def print (s : String) : Job Unit := modify fun t => { t with printed := t.printed ++ s }

def edit {ε α : Type} (wrap : ε → Failure) (e : Edit ε α) : Job α := do
  let (outcome, disk) := e.run.run (← get).disk
  modify fun t => { t with disk }
  match outcome with
  | .ok a => return a
  | .error e => throw (wrap e)

def orFault {α : Type} (r : Except Fault α) : Job α :=
  match r with
  | .ok a => return a
  | .error f => throw (.fault f)

end Job

def lineCount (text : String) : Nat := (Text.lines text.toList).length

def aligned (s : String) : String :=
  String.ofList (List.replicate (8 - s.length) ' ') ++ s

def summary (w : Workspace) : String :=
  String.join
    (w.files.map (fun f => aligned (toString (lineCount f.2)) ++ "  " ++ f.1.text ++ "\n") ++
      w.libraries.map fun l => aligned "lib" ++ "  " ++ l.text ++ "\n")

def verification (r : Java.CompileReport) : String :=
  if r.success then "javac: " ++ toString r.files ++ " files compiled\n"
  else
    "javac: " ++ toString r.errorCount ++ " errors\n" ++
      String.join (r.messages.map fun m => "  " ++ m.text ++ "\n")

def written (w : Workspace) (out : Path) : String :=
  "Wrote " ++ toString w.files.length ++ " files and " ++ toString w.libraries.length ++
    " libraries to " ++ out.text ++ "\n"

def shown (c : Closure) : Format → String
  | .table => table c
  | .json => c.toJson.pretty 0 ++ "\n"
  | .markdown => c.report

def climb : Nat → Path → List Path
  | 0, _ => []
  | fuel + 1, p =>
    match p.parent? with
    | some q => p :: climb fuel q
    | none => [p]

/-- The directory around the nearest `src` above a file, or else the project. -/
def moduleRoot (file project : Path) : Path :=
  match (climb (file.components.length + 1) file).find? (·.fileName? == some "src") with
  | some src => src.parent?.getD project
  | none => project

def study (s : Subject) (env : Surroundings) (change : Settings → Except Fault Settings) :
    Job (Workbench × Declaration × Closure) := do
  let disk := (← get).disk
  let settings ← Job.orFault (s.settings disk env.home env.variableOf)
  let settings ← Job.orFault (change settings)
  let bench ← liftExcept (s.openBench disk settings)
  let root ← liftExcept (s.root bench.index)
  return (bench, root, ← Job.orFault (bench.closure root.id.text))
where
  liftExcept {α : Type} (r : Except Failure α) : Job α :=
    match r with
    | .ok a => return a
    | .error f => throw f

/-- Lists a workspace, or writes it and has it compiled if wanted. -/
def deliver (w : Workspace) (tools : Java.Toolchain) (verify : Bool) : Option Path → Job Unit
  | none => Job.print (summary w)
  | some out => do
    Job.edit .fault (w.writeTo out)
    Job.print (written w out)
    if verify then
      match ← Job.orFault (w.verify tools) with
      | some report => Job.print (verification report)
      | none => pure ()

def draft (bench : Workbench) (root : Declaration) (w : Workspace) (env : Surroundings) :
    Job (Path × Testing.Draft) := do
  let llm := bench.settings.llm
  match root.path? with
  | none => throw (.fault (.inconsistent (root.id.text ++ " has no source file")))
  | some source =>
    match bench.workspacePath? root with
    | none => throw (.fault (.inconsistent (source.text ++ " is not in the index")))
    | some file =>
      let package := (bench.index.unit? source).bind (·.package)
      let target := Testing.Target.ofDeclaration root package file
      let drafted := do
        Testing.Exchange.check llm
        Testing.generate (Testing.ask llm env.network target) target w llm false
      match drafted with
      | .ok d => return (source, d)
      | .error f => throw (.testing f)

def perform (env : Surroundings) : Command → Job Unit
  | .resolve s format => do
    let (_, _, c) ← study s env .ok
    Job.print (shown c format)
  | .materialize s out throwing verify => do
    let (bench, _, c) ← study s env fun settings =>
      .ok (if throwing then { settings with placeholder := .throwing } else settings)
    deliver (← Job.orFault (bench.workspace c)) env.tools verify out
  | .generate s write overwrite service => do
    let (bench, root, c) ← study s env fun settings =>
      match service with
      | some name => do return { settings with llm.service := ← Service.parse name }
      | none => .ok settings
    let (source, d) ← draft bench root (← Job.orFault (bench.workspace c)) env
    if write then
      let path ← Job.edit .testing (d.writeTo (moduleRoot source bench.project) overwrite)
      Job.print ("Wrote " ++ path.text ++ "\n")
    else Job.print ("// " ++ d.relativePath.text ++ "\n" ++ d.source)

structure Outcome where
  exit : Nat
  printed : String
  failure : Option String := none
  disk : Disk

def helpText : String :=
  "Carve the minimal compilable workspace out of a Java project\n\n" ++
    "Usage: liteworkspace <COMMAND>\n\nCommands:\n" ++
    "  resolve      Compute the dependency closure of a class or method\n" ++
    "  materialize  Write the minimal workspace of a class or method\n" ++
    "  generate     Ask a language model for a unit test of a class or method\n"

def versionText : String := "liteworkspace 0.3.0\n"

def carryOut (env : Surroundings) (d : Disk) : Wish → Outcome
  | .help => ⟨0, helpText, none, d⟩
  | .version => ⟨0, versionText, none, d⟩
  | .misuse => ⟨2, "", none, d⟩
  | .run c =>
    let (outcome, session) := (perform env c).run.run { disk := d }
    match outcome with
    | .ok () => ⟨0, session.printed, none, session.disk⟩
    | .error f => ⟨1, session.printed, some f.account, session.disk⟩

end Carve.Command
