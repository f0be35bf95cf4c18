import Carve.Catalog
import Carve.Extract
import Carve.Policy
/-!
The settings of a project: how closures are computed and written, which service drafts tests, and
which libraries provide foreign packages. Variables of the environment override what was read.
-/

namespace Carve

inductive Service where
  | dify
  | openai
  | template
  deriving DecidableEq, Repr, Inhabited

namespace Service

def text : Service → String
  | dify => "dify"
  | openai => "openai"
  | template => "template"

def all : List Service := [dify, openai, template]

def ofText? (s : String) : Option Service := all.find? (·.text == s)

def parse (s : String) : Except Fault Service :=
  let small := String.ofList (s.toList.map Char.toLower)
  match ofText? small with
  | some service => .ok service
  | none => .error (.config ("unknown provider '" ++ small ++ "'"))

end Service

inductive Junit where
  | four
  | five
  deriving DecidableEq, Repr, Inhabited

namespace Junit

def text : Junit → String
  | four => "junit4"
  | five => "junit5"

def ofText? (s : String) : Option Junit := [four, five].find? (·.text == s)

end Junit

namespace Placeholder

def text : Placeholder → String
  | defaultValue => "default-value"
  | throwing => "throw-unsupported"

def ofText? (s : String) : Option Placeholder := [defaultValue, throwing].find? (·.text == s)

end Placeholder

structure ServiceSettings where
  service : Service := .dify
  url : String := "http://localhost/v1/chat-messages"
  key : Option String := none
  model : String := "local"
  /-- In seconds. -/
  timeout : Nat := 60
  junit : Junit := .five
  maxPromptChars : Nat := 200000
  user : String := "liteworkspace"
  deriving DecidableEq, Repr

structure Settings where
  maxDepth : Option Nat := none
  includeTests : Bool := false
  stubKinds : Option (List Reference.Kind) := none
  sourceRoot : String := "src/main/java"
  placeholder : Placeholder := .defaultValue
  llm : ServiceSettings := {}
  libraries : List LibraryEntry := []
  deriving DecidableEq, Repr

namespace Settings

def policy (s : Settings) : Policy :=
  match s.stubKinds with
  | some kinds => ⟨s.maxDepth, s.includeTests, kinds⟩
  | none => { maxDepth := s.maxDepth, includeTests := s.includeTests }

def extraction (s : Settings) : Extraction := ⟨⟨s.sourceRoot⟩, s.placeholder⟩

def checkLibrary (e : LibraryEntry) : Except Fault Unit := do
  let _ ← Coordinate.parse e.coordinate
  if e.packages.isEmpty then
    throw (.config ("library '" ++ e.coordinate ++ "' lists no packages"))

/-- Settings that can be read may still make no sense. -/
def check (s : Settings) : Except Fault Settings := do
  s.libraries.forM checkLibrary
  if s.llm.timeout == 0 then throw (.config "llm.timeout_secs must be positive")
  return s

/-- Variables that are empty count as unset. -/
def override (s : Settings) (env : String → Option String) : Except Fault Settings := do
  let get name := (env name).filter (!·.isEmpty)
  let llm := s.llm
  let llm := match get "LITEWORKSPACE_API_KEY" with
    | some key => { llm with key := some key }
    | none => llm
  let llm := match get "LITEWORKSPACE_API_URL" with
    | some url => { llm with url }
    | none => llm
  let llm := match get "LITEWORKSPACE_MODEL" with
    | some model => { llm with model }
    | none => llm
  let llm ← match get "LITEWORKSPACE_PROVIDER" with
    | some name => pure { llm with service := ← Service.parse name }
    | none => pure llm
  return { s with llm }

end Settings

end Carve
