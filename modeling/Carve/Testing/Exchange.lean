import Carve.Json.Reader
import Carve.Settings
import Carve.Testing.Failure
import Carve.Text.Blank
import Carve.Text.Split
/-!
Talking to a chat service: the request that carries a prompt and the answer that a response holds.
One kind of service streams events and the other sends a list of choices.
-/

namespace Carve.Testing

structure Request where
  url : String
  authorization : Option String
  body : Json

structure Response where
  status : Nat
  body : String
  deriving DecidableEq, Repr

namespace Request

def userAgent : String := "liteworkspace/0.3.0"

def contentType : String := "application/json"

end Request

namespace Exchange

/-- A status outside of the two hundreds, with at most five hundred characters of the body. -/
def statusFailure (r : Response) : Failure :=
  if r.status == 401 || r.status == 403 then .auth r.status
  else if r.status == 429 then .quota
  else .http r.status (String.ofList (r.body.toList.take 500))

def isSuccess (r : Response) : Bool := decide (200 ≤ r.status ∧ r.status < 300)

/-- An event of a stream; nothing in it is required. -/
structure Event where
  kind : String
  answer : Option String
  status : Option Nat
  message : Option String
  deriving DecidableEq, Repr

def readOptional {α : Type} (read : Json → Option α) : Option Json → Option (Option α)
  | none | some .null => some none
  | some j => (read j).map some

def readText : Json → Option String
  | .string s => s
  | _ => none

def readStatus : Json → Option Nat
  | .number written => (Json.naturalOf? written).filter fun n => decide (n < 65536)
  | _ => none

def Event.ofJson? (j : Json) : Option Event := do
  match ← j.fields? ["event", "answer", "status", "message"] with
  | [kind, answer, status, message] =>
    let kind ← match kind with
      | none => some ""
      | some k => readText k
    return ⟨kind, ← readOptional readText answer, ← readOptional readStatus status,
      ← readOptional readText message⟩
  | _ => none

def Event.parse? (s : String) : Option Event := (Json.parse? s).bind Event.ofJson?

/-- The events of the lines that carry data. Lines that do not decode are passed over. -/
def events (body : String) : List Event :=
  (Text.lines body.toList).filterMap fun line => do
    let data := Text.trim (← Text.stripStart "data:".toList line)
    if data.isEmpty then none else Event.parse? (String.ofList data)

/-- The answers of the messages before the end of the stream, put together. -/
def collectAnswer : List Event → Except Failure String
  | [] => .ok ""
  | e :: es =>
    if e.kind == "message" || e.kind == "agent_message" then
      (collectAnswer es).map fun rest => e.answer.getD "" ++ rest
    else if e.kind == "message_end" then .ok ""
    else if e.kind == "error" then .error (.http (e.status.getD 500) (e.message.getD ""))
    else collectAnswer es

def wholeAnswer? (body : String) : Option String := do
  let e ← Event.parse? (Text.trimmed body)
  e.answer.filter (!·.isEmpty)

def readStream (body : String) : Except Failure String := do
  let answer ← collectAnswer (events body)
  if answer.isEmpty then
    match wholeAnswer? body with
    | some whole => return whole
    | none => throw (.malformed "event stream carried no answer")
  else return answer

def readChoice (j : Json) : Option (Option String) := do
  match ← j.fields? ["message"] with
  | [some message] =>
    match message, ← message.fields? ["content"] with
    | .array _, [none] => none
    | _, [content] => readOptional readText content
    | _, _ => none
  | _ => none

def readChoices (body : String) : Option (List (Option String)) := do
  match ← (← Json.parse? body).fields? ["choices"] with
  | [some (.array choices)] => choices.mapM readChoice
  | _ => none

def readCompletion (body : String) : Except Failure String :=
  match readChoices body with
  | none => .error (.malformed "error decoding response body")
  | some (some text :: _) => .ok text
  | some _ => .error (.malformed "no choices in the answer")

def streamBody (prompt user : String) : Json := .record
  [("inputs", .record []), ("query", .text prompt), ("response_mode", .text "streaming"),
    ("conversation_id", .text ""), ("user", .text user)]

def completionBody (prompt model : String) : Json := .record
  [("model", .text model),
    ("messages", .array [.record [("role", .text "user"), ("content", .text prompt)]])]

def request? (s : ServiceSettings) (prompt : String) : Option Request :=
  let authorization := s.key.map ("Bearer " ++ ·)
  match s.service with
  | .dify => some ⟨s.url, authorization, streamBody prompt s.user⟩
  | .openai => some ⟨s.url, authorization, completionBody prompt s.model⟩
  | .template => none

def answerOf (service : Service) (r : Response) : Except Failure String :=
  if isSuccess r then
    match service with
    | .openai => readCompletion r.body
    | _ => readStream r.body
  else .error (statusFailure r)

/-- Settings under which the service can be asked at all. -/
def check (s : ServiceSettings) : Except Failure Unit :=
  match s.service, s.key with
  | .openai, none => .error (.config "the openai provider needs llm.api_key")
  | _, _ => .ok ()

end Exchange

end Carve.Testing
