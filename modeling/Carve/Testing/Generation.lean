import Carve.Testing.Draft
import Carve.Testing.Exchange
import Carve.Testing.Skeleton
/-!
One attempt at a test: a prompt that is short enough is put to a service once, and what comes back
in time is read as a draft.
-/

namespace Carve.Testing

inductive Reply where
  | answered (text : String)
  | failed (reason : Failure)
  | silent (waited : Duration)
  deriving Repr

namespace Reply

def text : Reply → Except Failure String
  | answered text => .ok text
  | failed reason => .error reason
  | silent waited => .error (.timeout waited)

def ofExcept : Except Failure String → Reply
  | .ok text => answered text
  | .error reason => failed reason

end Reply

/-- The reply of the service that the settings name, over a network that is a function. -/
def ask (s : ServiceSettings) (network : Request → Except Failure Response) (t : Target)
    (prompt : String) : Reply :=
  match Exchange.request? s prompt with
  | none => .answered (Skeleton.answer t s.junit)
  | some request => .ofExcept ((network request).bind (Exchange.answerOf s.service))

/-- A prompt that is too long is never put to the service, and a cancelled attempt does not wait
for the reply. Asking is an action of its own and takes whatever effects `m` has. -/
def attempt {m : Type → Type} [Monad m] (reply : String → m Reply) (t : Target) (w : Workspace)
    (s : ServiceSettings) (cancelled : Bool) : m (Except Failure Draft) :=
  match Prompt.format t w s with
  | .error reason => pure (.error reason)
  | .ok prompt =>
    if cancelled then pure (.error .cancelled)
    else do return (← reply prompt).text.bind Draft.ofAnswer

/-- An attempt for which the replies are known beforehand. -/
def generate (reply : String → Reply) (t : Target) (w : Workspace) (s : ServiceSettings)
    (cancelled : Bool) : Except Failure Draft :=
  Id.run (attempt (m := Id) reply t w s cancelled)

end Carve.Testing
