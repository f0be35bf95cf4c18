/-!
JSON values. Numbers keep their written form. A string may hold half of a surrogate pair, which no
text can express; such a string has its place in a value but cannot be used.
-/

namespace Carve

inductive Json where
  | null
  | bool (b : Bool)
  | number (written : String)
  | string (text : Option String)
  | array (items : List Json)
  | object (fields : List (Option String × Json))

namespace Json

instance : Inhabited Json := ⟨null⟩

def text (s : String) : Json := .string (some s)

def nat (n : Nat) : Json := .number (toString n)

def record (fields : List (String × Json)) : Json :=
  .object (fields.map fun f => (some f.1, f.2))

def ofOption {α : Type} (f : α → Json) : Option α → Json
  | some a => f a
  | none => null

def naturalOf? (written : String) : Option Nat :=
  let cs := written.toList
  if !cs.isEmpty && cs.all Char.isDigit then
    some (cs.foldl (fun n c => n * 10 + (c.toNat - '0'.toNat)) 0)
  else none

/-- The values of a record's fields, in the order of their names. A record is written as an object
that has each of the names at most once, or as an array of its first fields. -/
def fields? (names : List String) : Json → Option (List (Option Json))
  | .array items =>
    if items.length ≤ names.length then
      some (items.map some ++ List.replicate (names.length - items.length) none)
    else none
  | .object fields =>
    if fields.any (·.1.isNone) then none
    else if names.any fun name => decide (1 < fields.countP (·.1 == some name)) then none
    else some (names.map fun name => (fields.find? (·.1 == some name)).map (·.2))
  | _ => none

end Json

end Carve
