import Carve.Command.Basic
/-!
Reading a command line. Arguments are read from left to right, and the first one that asks for help
or cannot be accepted ends the reading; what has to come together or must not is looked at last.
-/

namespace Carve.Command

inductive Wish where
  | run (c : Command)
  | help
  | version
  | misuse
  deriving DecidableEq, Repr

/-- An option by its name: whether it takes a value, and which values it accepts. -/
structure Choice where
  name : String
  accepts : Option (String → Bool)

/-- What has been read: options with their values and the free arguments. -/
structure Given where
  chosen : List (String × String) := []
  free : List String := []

namespace Given

def has (g : Given) (name : String) : Bool := g.chosen.any (·.1 == name)

def value? (g : Given) (name : String) : Option String :=
  (g.chosen.find? (·.1 == name)).map (·.2)

def choose? (g : Given) (c : Choice) (value : String) : Option Given :=
  if g.has c.name then none
  else if c.accepts.all (· value) then some { g with chosen := (c.name, value) :: g.chosen }
  else none

def addFree? (g : Given) (arg : String) : Option Given :=
  if g.free.isEmpty && !arg.isEmpty then some { g with free := [arg] } else none

end Given

/-- An argument that begins with a dash is none of the values of options. A dash alone is. -/
def isDashed (arg : String) : Bool := arg.startsWith "-" && arg != "-"

def longOption? (arg : String) : Option (String × Option String) :=
  if arg.startsWith "--" then
    match Text.splitFirst '=' arg with
    | some (name, value) => some (name, some value)
    | none => some (arg, none)
  else none

def readFree (g : Given) : List String → Except Wish Given
  | [] => .ok g
  | arg :: rest =>
    match g.addFree? arg with
    | some g => readFree g rest
    | none => .error .misuse

/-- Reads the arguments of one command. An option that takes a value may be waiting for it. -/
def read (choices : List Choice) (g : Given) (waiting : Option Choice) :
    List String → Except Wish Given
  | [] => if waiting.isSome then .error .misuse else .ok g
  | arg :: rest =>
    match waiting with
    | some c =>
      if isDashed arg then .error .misuse
      else
        match g.choose? c arg with
        | some g => read choices g none rest
        | none => .error .misuse
    | none =>
      if arg == "--" then readFree g rest
      else if arg == "--help" || arg.startsWith "-h" then .error .help
      else
        match longOption? arg with
        | some (name, joined) =>
          match choices.find? (·.name == name) with
          | none => .error .misuse
          | some c =>
            if c.accepts.isSome && joined.isNone then read choices g (some c) rest
            else if c.accepts.isNone && joined.isSome then .error .misuse
            else
              match g.choose? c (joined.getD "") with
              | some g => read choices g none rest
              | none => .error .misuse
        | none =>
          if isDashed arg then .error .misuse
          else
            match g.addFree? arg with
            | some g => read choices g none rest
            | none => .error .misuse

def flag (name : String) : Choice := ⟨name, none⟩

def valued (name : String) (accepts : String → Bool) : Choice := ⟨name, some accepts⟩

def Format.text : Format → String
  | .table => "table"
  | .json => "json"
  | .markdown => "markdown"

def Format.ofText? (s : String) : Option Format :=
  [Format.table, .json, .markdown].find? (·.text == s)

def subjectChoices : List Choice :=
  [valued "--target" fun _ => true,
    valued "--at" fun s => (SourceSite.parse s).isOk,
    valued "--max-depth" fun s => (SourceSite.number? s).isSome,
    flag "--include-tests"]

def subjectOf (g : Given) : Option Subject := do
  let project ← g.free.head?
  if g.has "--target" == g.has "--at" then none
  else
    return {
      project := ⟨project⟩
      target := g.value? "--target"
      site := (g.value? "--at").bind fun s => (SourceSite.parse s).toOption
      maxDepth := (g.value? "--max-depth").bind SourceSite.number?
      includeTests := g.has "--include-tests" }

/-- A command by its name: the options it has besides those of its subject, and what they make. -/
structure Verb where
  name : String
  choices : List Choice
  agrees : Given → Bool := fun _ => true
  make : Given → Subject → Command

def verbs : List Verb :=
  [{ name := "resolve"
     choices := [valued "--format" fun s => (Format.ofText? s).isSome]
     make := fun g s => .resolve s (((g.value? "--format").bind Format.ofText?).getD .table) },
   { name := "materialize"
     choices := [valued "--out" (!·.isEmpty), flag "--throwing-stubs", flag "--verify"]
     agrees := fun g => g.has "--out" || !g.has "--verify"
     make := fun g s =>
       .materialize s ((g.value? "--out").map Path.mk) (g.has "--throwing-stubs")
         (g.has "--verify") },
   { name := "generate"
     choices := [flag "--write", flag "--overwrite", valued "--provider" fun _ => true]
     agrees := fun g => g.has "--write" || !g.has "--overwrite"
     make := fun g s =>
       .generate s (g.has "--write") (g.has "--overwrite") (g.value? "--provider") }]

def Verb.parse (v : Verb) (args : List String) : Wish :=
  match read (subjectChoices ++ v.choices) {} none args with
  | .error wish => wish
  | .ok g =>
    match subjectOf g with
    | some s => if v.agrees g then .run (v.make g s) else .misuse
    | none => .misuse

def helpAbout : List String → Wish
  | [] => .help
  | [name] => if name == "help" || verbs.any (·.name == name) then .help else .misuse
  | _ => .misuse

def parse : List String → Wish
  | [] => .misuse
  | "help" :: rest => helpAbout rest
  | "--help" :: _ => .help
  | "--version" :: _ => .version
  | arg :: rest =>
    if arg.startsWith "-h" then .help
    else if arg.startsWith "-V" then .version
    else
      match verbs.find? (·.name == arg) with
      | some v => v.parse rest
      | none => .misuse

end Carve.Command
