import Carve.Fault
import Carve.Path
import Carve.Site
import Carve.Text.Words
/-!
Compiling a workspace with a Java compiler: which sources it is given and how, and what its
messages say. A compilation that fails is a report; only a compiler that cannot be run is a fault.
-/

namespace Carve.Java

inductive Severity where
  | error
  | warning
  deriving DecidableEq, Repr

def Severity.text : Severity → String
  | error => "error"
  | warning => "warning"

structure Message where
  /-- Messages about the command line have no path. -/
  path : Option Path
  line : Option Nat
  severity : Severity
  detail : String
  deriving DecidableEq, Repr

namespace Message

/-- A path is shown together with a line or not at all. -/
def text (m : Message) : String :=
  (match m.path, m.line with
    | some p, some n => p.text ++ ":" ++ toString n ++ ": "
    | _, _ => "") ++ m.severity.text ++ ": " ++ m.detail

def severityAt? (cs : List Char) : Option (Severity × List Char) :=
  match Text.stripStart "error: ".toList cs with
  | some rest => some (.error, rest)
  | none => (Text.stripStart "warning: ".toList cs).map fun rest => (.warning, rest)

def lineAt? (cs : List Char) : Option (List Char × List Char) :=
  match cs with
  | ':' :: rest =>
    let (digits, rest) := rest.span Text.isDigit
    if digits.isEmpty then none
    else (Text.stripStart [':', ' '] rest).map fun rest => (digits, rest)
  | _ => none

def locatedAt? (front cs : List Char) : Option Message := do
  let stem ← Text.stripStart ".java".toList.reverse front
  if stem.isEmpty then none
  else
    let (digits, rest) ← lineAt? cs
    let (severity, detail) ← severityAt? rest
    return ⟨some ⟨String.ofList front.reverse⟩, SourceSite.digitsValue? digits, severity,
      String.ofList detail⟩

/-- The message with the longest path. -/
def located? : List Char → List Char → Option Message
  | front, [] => locatedAt? front []
  | front, c :: cs =>
    match located? (c :: front) cs with
    | some m => some m
    | none => locatedAt? front (c :: cs)

def ofLine? (line : List Char) : Option Message :=
  match located? [] line with
  | some m => some m
  | none => (severityAt? line).map fun (severity, detail) =>
      ⟨none, none, severity, String.ofList detail⟩

def ofOutput (output : String) : List Message := (Text.lines output.toList).filterMap ofLine?

end Message

structure CompileReport where
  success : Bool
  files : Nat
  messages : List Message
  deriving DecidableEq, Repr

def CompileReport.errorCount (r : CompileReport) : Nat :=
  r.messages.countP (·.severity == .error)

structure RunOutput where
  success : Bool
  stdout : String := ""
  stderr : String := ""
  deriving DecidableEq, Repr

structure Invocation where
  arguments : List String
  sourceList : String
  deriving DecidableEq, Repr

namespace Compile

/-- A path between quotes, in which backslashes and quotes are escaped. -/
def quoted (p : Path) : String :=
  let escape c := if c == '\\' || c == '\x22' then ['\\', c] else [c]
  String.ofList ('\x22' :: p.text.toList.flatMap escape ++ ['\x22'])

def sourcesOf (paths : List Path) : List Path := paths.filter (·.extension? == some "java")

/-- The class path as one argument; none of its paths may hold the colon that joins them. -/
def classpathArguments (classpath : List Path) : Except Fault (List String) :=
  if classpath.isEmpty then .ok []
  else if classpath.any (·.text.toList.contains ':') then
    .error (.compiler "path segment contains separator ':'")
  else .ok ["-cp", Text.joined ":" (classpath.map (·.text))]

def invocation (scratch : Path) (classpath sources : List Path) : Except Fault Invocation := do
  let cp ← classpathArguments classpath
  return ⟨["-encoding", "UTF-8", "-proc:none", "-Xmaxerrs", "1000", "-d",
      (scratch.join ⟨"classes"⟩).text] ++ cp ++ ["@" ++ (scratch.join ⟨"sources.txt"⟩).text],
    Text.joined "\n" (sources.map quoted)⟩

/-- A failure without any message is reported with all that was said. -/
def report (files : Nat) (run : RunOutput) : CompileReport :=
  match Message.ofOutput run.stderr with
  | [] =>
    let said : Message := ⟨none, none, .error, Text.trimmed run.stderr⟩
    ⟨run.success, files, if run.success then [] else [said]⟩
  | messages => ⟨run.success, files, messages⟩

def compile (run : Invocation → Option RunOutput) (scratch : Path) (classpath paths : List Path) :
    Except Fault CompileReport :=
  match sourcesOf paths with
  | [] => .ok ⟨true, 0, []⟩
  | sources => do
    let call ← invocation scratch classpath sources
    match run call with
    | some output => return report sources.length output
    | none => throw (.compiler "the compiler cannot be run")

/-- What a compiler answers when it is asked for its version; old ones answer beside the output. -/
def version? (output : RunOutput) : Option String :=
  if output.success then
    some (Text.trimmed (if output.stdout.isEmpty then output.stderr else output.stdout))
  else none

end Compile

structure Compiler where
  run : Invocation → Option RunOutput
  tellVersion : Option RunOutput := none

def Compiler.version? (c : Compiler) : Option String := c.tellVersion.bind Compile.version?

structure Toolchain where
  atHome : Option Compiler := none
  onPath : Option Compiler := none

/-- The compiler of the Java home is taken as it is, one on the search path only if it runs. -/
def Toolchain.compiler? (t : Toolchain) : Option Compiler :=
  match t.atHome with
  | some c => some c
  | none => t.onPath.filter (·.version?.isSome)

end Carve.Java
