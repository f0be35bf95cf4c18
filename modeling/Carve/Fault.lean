import Carve.Refusal
/-!
Why a request on an index, a project or its files was refused. Each cause carries what it was
about; `Fault.message` is the one place that words it.
-/

namespace Carve

inductive Fault where
  | notFound (what : String)
  | invalidArgument (detail : String)
  /-- The index holds something that an index built from sources never holds. -/
  | inconsistent (detail : String)
  | io (detail : String)
  | system (refusal : Refusal)
  | config (detail : String)
  | configText
  | unreadable (file reason : String)
  | compiler (detail : String)
  deriving DecidableEq, Repr

namespace Fault

def message : Fault → String
  | notFound what => "Not found: " ++ what
  | invalidArgument detail => "Invalid argument: " ++ detail
  | inconsistent detail => "Internal error: " ++ detail
  | io detail => "I/O error: " ++ detail
  | system refusal => "I/O error: " ++ refusal.text
  | config detail => "Configuration error: " ++ detail
  | configText => "Configuration error: TOML parse error"
  | unreadable file reason => "Configuration error: failed to read " ++ file ++ ": " ++ reason
  | compiler detail => "Plugin error: " ++ detail

/-- The message and the causes behind it: a file operation is told once for the request that
needed it and once for itself. -/
def account (f : Fault) : String :=
  match f with
  | io detail => f.message ++ ": " ++ detail
  | system refusal => f.message ++ ": " ++ refusal.text
  | _ => f.message

end Fault

end Carve
