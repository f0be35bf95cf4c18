import Carve.Json.Basic
/-!
Writing JSON over several lines, each level two spaces further in than the one around it.
-/

namespace Carve.Json

def hexDigit (n : Nat) : Char := if n < 10 then Char.ofNat (48 + n) else Char.ofNat (87 + n)

/-- Quotes, backslashes and control characters are escaped, everything else stands for itself. -/
def escaped (c : Char) : List Char :=
  if c = '\x22' then ['\\', '\x22']
  else if c = '\\' then ['\\', '\\']
  else if c = '\n' then ['\\', 'n']
  else if c = '\r' then ['\\', 'r']
  else if c = '\t' then ['\\', 't']
  else if c.toNat = 8 then ['\\', 'b']
  else if c.toNat = 12 then ['\\', 'f']
  else if c.toNat < 32 then
    ['\\', 'u', '0', '0', hexDigit (c.toNat / 16), hexDigit (c.toNat % 16)]
  else [c]

def quoted (s : String) : String :=
  String.ofList ('\x22' :: s.toList.flatMap escaped ++ ['\x22'])

def indent (depth : Nat) : String := String.ofList (List.replicate (2 * depth) ' ')

mutual
def pretty (depth : Nat) : Json → String
  | .null => "null"
  | .bool true => "true"
  | .bool false => "false"
  | .number written => written
  | .string (some s) => quoted s
  | .string none => quoted ""
  | .array [] => "[]"
  | .array (item :: items) =>
    "[\n" ++ indent (depth + 1) ++ pretty (depth + 1) item ++ prettyItems (depth + 1) items ++
      "\n" ++ indent depth ++ "]"
  | .object [] => "\x7b\x7d"
  | .object ((name, value) :: fields) =>
    "\x7b\n" ++ indent (depth + 1) ++ quoted (name.getD "") ++ ": " ++
      pretty (depth + 1) value ++ prettyFields (depth + 1) fields ++ "\n" ++ indent depth ++ "\x7d"

def prettyItems (depth : Nat) : List Json → String
  | [] => ""
  | item :: items => ",\n" ++ indent depth ++ pretty depth item ++ prettyItems depth items

def prettyFields (depth : Nat) : List (Option String × Json) → String
  | [] => ""
  | (name, value) :: fields =>
    ",\n" ++ indent depth ++ quoted (name.getD "") ++ ": " ++ pretty depth value ++
      prettyFields depth fields
end

end Carve.Json
