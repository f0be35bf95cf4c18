/-!
The values of a TOML text. Dates and times, and numbers that are not whole, have no use here beyond
being what they are, so nothing of them is kept.
-/

namespace Carve

inductive Toml where
  | string (s : String)
  | integer (n : Int)
  | float
  | boolean (b : Bool)
  | datetime
  | array (items : List Toml)
  | table (fields : List (String × Toml))

namespace Toml

instance : Inhabited Toml := ⟨table []⟩

def get? (name : String) (fields : List (String × Toml)) : Option Toml := fields.lookup name

/-- The values of a record's fields, in the order of their names. A record is written as a table
or as an array of its first fields; what else a table or an array holds is of no interest. A date
is a record without any of the fields. -/
def fields? (names : List String) : Toml → Option (List (Option Toml))
  | table fields => some (names.map fun name => get? name fields)
  | array items =>
    some ((items.take names.length).map some ++ List.replicate (names.length - items.length) none)
  | datetime => some (names.map fun _ => none)
  | _ => none

def text? : Toml → Option String
  | string s => some s
  | _ => none

def bool? : Toml → Option Bool
  | boolean b => some b
  | _ => none

def natural? : Toml → Option Nat
  | integer (.ofNat n) => some n
  | _ => none

def list? {α : Type} (read : Toml → Option α) : Toml → Option (List α)
  | array items => items.mapM read
  | _ => none

def isEmpty : Toml → Bool
  | table fields => fields.isEmpty
  | array items => items.isEmpty
  | _ => false

/-- One of several choices, written as its name or as a table from its name to nothing. -/
def choice? {α : Type} (read : String → Option α) : Toml → Option α
  | string s => read s
  | table [(name, value)] => if value.isEmpty then read name else none
  | _ => none

end Toml

end Carve
