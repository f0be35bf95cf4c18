/-!
Why a system refuses a file operation, in the words in which it says so.
-/

namespace Carve

inductive Refusal where
  | absent
  | busy
  | occupied
  | notDirectory
  | isDirectory
  | invalid
  | notEmpty
  deriving DecidableEq, Repr

namespace Refusal

def code : Refusal → Nat
  | absent => 2
  | busy => 16
  | occupied => 17
  | notDirectory => 20
  | isDirectory => 21
  | invalid => 22
  | notEmpty => 39

def words : Refusal → String
  | absent => "No such file or directory"
  | busy => "Device or resource busy"
  | occupied => "File exists"
  | notDirectory => "Not a directory"
  | isDirectory => "Is a directory"
  | invalid => "Invalid argument"
  | notEmpty => "Directory not empty"

def text (r : Refusal) : String := r.words ++ " (os error " ++ toString r.code ++ ")"

end Refusal

end Carve
