import Carve.Path
import Carve.Refusal
/-!
Why an attempt to have a test drafted came to nothing.
-/

namespace Carve.Testing

/-- A time in milliseconds, written in the largest unit in which it is at least one. -/
structure Duration where
  millis : Nat
  deriving DecidableEq, Repr

namespace Duration

def fractionText (thousandths : Nat) : String :=
  let digits := [thousandths / 100 % 10, thousandths / 10 % 10, thousandths % 10]
  String.join (((digits.reverse.dropWhile (· == 0)).reverse).map toString)

def text (d : Duration) : String :=
  if d.millis = 0 then "0ns"
  else if d.millis < 1000 then toString d.millis ++ "ms"
  else if d.millis % 1000 = 0 then toString (d.millis / 1000) ++ "s"
  else toString (d.millis / 1000) ++ "." ++ fractionText (d.millis % 1000) ++ "s"

end Duration

inductive Failure where
  /-- The prompt is longer than allowed, counted in characters. -/
  | promptTooLarge (size limit : Nat)
  | timeout (waited : Duration)
  | cancelled
  | transport (detail : String)
  | http (status : Nat) (body : String)
  | auth (status : Nat)
  | quota
  | malformed (detail : String)
  | config (detail : String)
  | alreadyExists (path : Path)
  | system (refusal : Refusal)
  deriving DecidableEq, Repr

namespace Failure

def message : Failure → String
  | promptTooLarge size limit =>
    "prompt has " ++ toString size ++ " characters, limit is " ++ toString limit
  | timeout waited => "no answer within " ++ waited.text
  | cancelled => "generation cancelled"
  | transport detail => "transport error: " ++ detail
  | http status body => "service answered HTTP " ++ toString status ++ ": " ++ body
  | auth status => "service rejected the credentials (HTTP " ++ toString status ++ ")"
  | quota => "service quota exhausted"
  | malformed detail => "malformed response: " ++ detail
  | config detail => "configuration error: " ++ detail
  | alreadyExists path => path.text ++ " already exists"
  | system refusal => "I/O error: " ++ refusal.text

/-- The message and the cause behind it. -/
def account (f : Failure) : String :=
  match f with
  | system refusal => f.message ++ ": " ++ refusal.text
  | _ => f.message

end Failure

end Carve.Testing
