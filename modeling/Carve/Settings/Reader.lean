import Carve.Settings
import Carve.Toml.Reader
/-!
Reading settings from a TOML text. Every key may be missing and keys that mean nothing are passed
over, but a key that is known must have a value of its kind.
-/

namespace Carve.Settings

def orDefault {α : Type} (default : α) (read : Toml → Option α) : Option Toml → Option α
  | none => some default
  | some v => read v

def orNone {α : Type} (read : Toml → Option α) : Option Toml → Option (Option α)
  | none => some none
  | some v => (read v).map some

def readResolver (s : Settings) (v : Toml) : Option Settings := do
  match ← v.fields? ["max_depth", "include_test_scope", "stub_kinds"] with
  | [depth, tests, kinds] =>
    return { s with
      maxDepth := ← orNone Toml.natural? depth
      includeTests := ← orDefault s.includeTests Toml.bool? tests
      stubKinds := ← orNone (Toml.list? (Toml.choice? Reference.Kind.ofText?)) kinds }
  | _ => none

def readMaterializer (s : Settings) (v : Toml) : Option Settings := do
  match ← v.fields? ["source_root", "stub_body"] with
  | [root, body] =>
    return { s with
      sourceRoot := ← orDefault s.sourceRoot Toml.text? root
      placeholder := ← orDefault s.placeholder (Toml.choice? Placeholder.ofText?) body }
  | _ => none

def readService (s : ServiceSettings) (v : Toml) : Option ServiceSettings := do
  match ← v.fields? ["provider", "api_url", "api_key", "model", "timeout_secs", "junit",
    "max_prompt_chars", "user"] with
  | [service, url, key, model, timeout, junit, maxChars, user] =>
    return {
      service := ← orDefault s.service (Toml.choice? Service.ofText?) service
      url := ← orDefault s.url Toml.text? url
      key := ← orNone Toml.text? key
      model := ← orDefault s.model Toml.text? model
      timeout := ← orDefault s.timeout Toml.natural? timeout
      junit := ← orDefault s.junit (Toml.choice? Junit.ofText?) junit
      maxPromptChars := ← orDefault s.maxPromptChars Toml.natural? maxChars
      user := ← orDefault s.user Toml.text? user }
  | _ => none

def readLibrary (v : Toml) : Option LibraryEntry := do
  match ← v.fields? ["coordinate", "packages"] with
  | [some coordinate, packages] =>
    return ⟨← coordinate.text?, ← orDefault [] (Toml.list? Toml.text?) packages⟩
  | _ => none

def ofToml? (v : Toml) : Option Settings := do
  match ← v.fields? ["resolver", "materializer", "llm", "libraries"] with
  | [resolver, materializer, llm, libraries] =>
    let s : Settings := {}
    let s ← orDefault s s.readResolver resolver
    let s ← orDefault s s.readMaterializer materializer
    return { s with
      llm := ← orDefault s.llm (readService s.llm) llm
      libraries := ← orDefault [] (Toml.list? readLibrary) libraries }
  | _ => none

/-- The settings of a text, once they have been found to make sense. -/
def parse (text : String) : Except Fault Settings :=
  match (Toml.parse? text).bind ofToml? with
  | some s => s.check
  | none => .error .configText

end Carve.Settings
