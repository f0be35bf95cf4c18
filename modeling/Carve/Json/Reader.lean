import Carve.Json.Basic
/-!
Reading JSON texts. Every step hands on the rest of the text, which is shorter than what it was
given, so reading ends after at most as many steps as there are characters.
-/

namespace Carve.Json

def isSpace (c : Char) : Bool := c == ' ' || c == '\n' || c == '\t' || c == '\r'

def hexValue? (c : Char) : Option Nat :=
  if '0' ≤ c ∧ c ≤ '9' then some (c.toNat - 48)
  else if 'a' ≤ c ∧ c ≤ 'f' then some (c.toNat - 87)
  else if 'A' ≤ c ∧ c ≤ 'F' then some (c.toNat - 55)
  else none

def unit? : List Char → Option (Nat × List Char)
  | a :: b :: c :: d :: rest => do
    let a ← hexValue? a
    let b ← hexValue? b
    let c ← hexValue? c
    let d ← hexValue? d
    return (((a * 16 + b) * 16 + c) * 16 + d, rest)
  | _ => none

def isHigh (u : Nat) : Bool := decide (0xd800 ≤ u ∧ u < 0xdc00)

def isLow (u : Nat) : Bool := decide (0xdc00 ≤ u ∧ u < 0xe000)

/-- The character behind a unit and the text after its escape; half of a pair is none. -/
def character (u : Nat) (rest : List Char) : Option Char × List Char :=
  if isHigh u then
    match rest with
    | '\\' :: 'u' :: more =>
      match unit? more with
      | some (v, after) =>
        if isLow v then (some (Char.ofNat (0x10000 + (u - 0xd800) * 0x400 + (v - 0xdc00))), after)
        else (none, rest)
      | none => (none, rest)
    | _ => (none, rest)
  else if isLow u then (none, rest)
  else (some (Char.ofNat u), rest)

def escape? (c : Char) : Option Char :=
  if c = '\x22' || c = '\\' || c = '/' then some c
  else if c = 'b' then some (Char.ofNat 8)
  else if c = 'f' then some (Char.ofNat 12)
  else if c = 'n' then some '\n'
  else if c = 'r' then some '\r'
  else if c = 't' then some '\t'
  else none

def addChar (c : Option Char) (rest : Option (Option (List Char) × List Char)) :
    Option (Option (List Char) × List Char) :=
  rest.map fun (tail, after) =>
    (match c, tail with
      | some c, some tail => some (c :: tail)
      | _, _ => none, after)

def readString : Nat → List Char → Option (Option (List Char) × List Char)
  | 0, _ | _, [] => none
  | fuel + 1, c :: cs =>
    if c = '\x22' then some (some [], cs)
    else if c = '\\' then
      match cs with
      | 'u' :: more =>
        match unit? more with
        | some (u, rest) =>
          let (c, rest) := character u rest
          addChar c (readString fuel rest)
        | none => none
      | e :: more =>
        match escape? e with
        | some c => addChar (some c) (readString fuel more)
        | none => none
      | [] => none
    else if c.toNat < 32 then none
    else addChar (some c) (readString fuel cs)

def digits (cs : List Char) : List Char × List Char := cs.span Char.isDigit

def wholePart? (cs : List Char) : Option (List Char × List Char) :=
  match digits cs with
  | ([], _) => none
  | ('0' :: _ :: _, _) => none
  | result => some result

def fraction? (cs : List Char) : Option (List Char × List Char) :=
  match cs with
  | '.' :: rest =>
    match digits rest with
    | ([], _) => none
    | (ds, rest) => some ('.' :: ds, rest)
  | _ => some ([], cs)

def exponent? (cs : List Char) : Option (List Char × List Char) :=
  match cs with
  | e :: rest =>
    if e == 'e' || e == 'E' then
      let (sign, rest) :=
        match rest with
        | '+' :: more => (['+'], more)
        | '-' :: more => (['-'], more)
        | _ => ([], rest)
      match digits rest with
      | ([], _) => none
      | (ds, rest) => some (e :: sign ++ ds, rest)
    else some ([], cs)
  | [] => some ([], cs)

def readNumber (cs : List Char) : Option (Json × List Char) := do
  let (sign, rest) := match cs with
    | '-' :: more => (['-'], more)
    | _ => ([], cs)
  let (whole, rest) ← wholePart? rest
  let (fraction, rest) ← fraction? rest
  let (exponent, rest) ← exponent? rest
  return (.number (String.ofList (sign ++ whole ++ fraction ++ exponent)), rest)

def skipSpace (cs : List Char) : List Char := cs.dropWhile isSpace

def textOf (s : Option (List Char)) : Option String := s.map String.ofList

mutual
def readValue : Nat → List Char → Option (Json × List Char)
  | 0, _ => none
  | fuel + 1, cs =>
    match skipSpace cs with
    | 'n' :: 'u' :: 'l' :: 'l' :: rest => some (.null, rest)
    | 't' :: 'r' :: 'u' :: 'e' :: rest => some (.bool true, rest)
    | 'f' :: 'a' :: 'l' :: 's' :: 'e' :: rest => some (.bool false, rest)
    | '\x22' :: rest => (readString (rest.length + 1) rest).map fun (s, rest) =>
        (.string (textOf s), rest)
    | '[' :: rest =>
      match skipSpace rest with
      | ']' :: rest => some (.array [], rest)
      | _ => (readItems fuel rest).map fun (items, rest) => (.array items, rest)
    | '\x7b' :: rest =>
      match skipSpace rest with
      | '\x7d' :: rest => some (.object [], rest)
      | _ => (readFields fuel rest).map fun (fields, rest) => (.object fields, rest)
    | rest => readNumber rest

def readItems : Nat → List Char → Option (List Json × List Char)
  | 0, _ => none
  | fuel + 1, cs => do
    let (item, rest) ← readValue fuel cs
    match skipSpace rest with
    | ',' :: rest =>
      let (items, rest) ← readItems fuel rest
      return (item :: items, rest)
    | ']' :: rest => return ([item], rest)
    | _ => none

def readFields : Nat → List Char → Option (List (Option String × Json) × List Char)
  | 0, _ => none
  | fuel + 1, cs =>
    match skipSpace cs with
    | '\x22' :: rest => do
      let (name, rest) ← readString (rest.length + 1) rest
      match skipSpace rest with
      | ':' :: rest =>
        let (value, rest) ← readValue fuel rest
        match skipSpace rest with
        | ',' :: rest =>
          let (fields, rest) ← readFields fuel rest
          return ((textOf name, value) :: fields, rest)
        | '\x7d' :: rest => return ([(textOf name, value)], rest)
        | _ => none
      | _ => none
    | _ => none
end

/-- The value of a text that holds one value and nothing else. -/
def parse? (s : String) : Option Json := do
  let cs := s.toList
  let (value, rest) ← readValue (2 * cs.length + 2) cs
  if (skipSpace rest).isEmpty then return value else none

end Carve.Json
