import Carve.Toml.Document
import Carve.Toml.Scalar
/-!
Reading a TOML text. Arrays and inline tables nest at most 79 deep, and keys have at most 79 parts.
-/

namespace Carve.Toml

/-- The greatest nesting of values and the greatest number of parts of a key. -/
def maxDepth : Nat := 79

def isBare (c : Char) : Bool := c.isAlphanum || c == '-' || c == '_'

def readPlainKey (cs : List Char) : Option (String × List Char) :=
  match cs with
  | '\x22' :: rest => (readBasic (rest.length + 1) rest).map fun (s, rest) => (String.ofList s, rest)
  | '\'' :: rest => (readLiteral rest).map fun (s, rest) => (String.ofList s, rest)
  | _ =>
    match cs.span isBare with
    | ([], _) => none
    | (name, rest) => some (String.ofList name, rest)

def readKeyParts : Nat → List Char → Option (List String × List Char)
  | 0, _ => none
  | fuel + 1, cs => do
    let (name, rest) ← readPlainKey (skipSpace cs)
    match skipSpace rest with
    | '.' :: rest =>
      let (path, rest) ← readKeyParts fuel rest
      return (name :: path, rest)
    | rest => return ([name], rest)

def readKey (cs : List Char) : Option (List String × List Char) := readKeyParts maxDepth cs

def skipComment : List Char → List Char
  | '#' :: rest => rest.dropWhile isPlain
  | cs => cs

def skipLayout : Nat → List Char → List Char
  | 0, cs => cs
  | fuel + 1, cs =>
    let rest := skipSpace cs
    match newline? (skipComment rest) with
    | some next => skipLayout fuel next
    | none => rest

mutual
def readValue : Nat → List Char → Option (Toml × List Char)
  | nesting, cs =>
    match cs, nesting with
    | '[' :: rest, n + 1 => (readItems n (rest.length + 1) rest).map fun (items, rest) =>
        (.array items, rest)
    | '[' :: _, 0 => none
    | '\x7b' :: rest, n + 1 =>
      match skipSpace rest with
      | '\x7d' :: rest => some (.table [], rest)
      | _ => do
        let (entries, rest) ← readEntries n (rest.length + 1) rest
        return (← ofEntries? entries, rest)
    | '\x7b' :: _, 0 => none
    | _, _ => readScalar cs
  termination_by nesting => (nesting, 0)

def readItems (nesting : Nat) : Nat → List Char → Option (List Toml × List Char)
  | 0, _ => none
  | fuel + 1, cs =>
    match skipLayout (cs.length + 1) cs with
    | ']' :: rest => some ([], rest)
    | cs => do
      let (item, rest) ← readValue nesting cs
      match skipLayout (rest.length + 1) rest with
      | ',' :: rest =>
        let (items, rest) ← readItems nesting fuel rest
        return (item :: items, rest)
      | ']' :: rest => return ([item], rest)
      | _ => none
  termination_by fuel => (nesting, fuel + 1)

def readEntries (nesting : Nat) : Nat → List Char → Option (List (List String × Toml) × List Char)
  | 0, _ => none
  | fuel + 1, cs => do
    let (key, rest) ← readKey cs
    match rest with
    | '=' :: rest =>
      let (value, rest) ← readValue nesting (skipSpace rest)
      match skipSpace rest with
      | ',' :: rest =>
        let (entries, rest) ← readEntries nesting fuel rest
        return ((key, value) :: entries, rest)
      | '\x7d' :: rest => return ([(key, value)], rest)
      | _ => none
    | _ => none
  termination_by fuel => (nesting, fuel + 1)
end

def skipLine? (cs : List Char) : Option (List Char) :=
  match skipComment (skipSpace cs) with
  | [] => some []
  | cs => newline? cs

def readHeader (closing cs : List Char) : Option (List String × List Char) := do
  let (path, rest) ← readKey cs
  if closing.isPrefixOf rest then
    return (path, ← skipLine? (rest.drop closing.length))
  else none

def readEntry (cs : List Char) : Option ((List String × Toml) × List Char) := do
  let (key, rest) ← readKey cs
  let rest ← readMark '=' rest
  let (value, rest) ← readValue maxDepth (skipSpace rest)
  return ((key, value), ← skipLine? rest)

/-- The sections of a text, the one that is being read in front and its entries reversed. -/
def readSections : Nat → Section → List Char → Option (List Section)
  | 0, _, _ => none
  | fuel + 1, current, cs =>
    let close (s : Section) : Section := { s with entries := s.entries.reverse }
    match skipSpace cs with
    | [] => some [close current]
    | '[' :: '[' :: rest => do
      let (path, rest) ← readHeader [']', ']'] rest
      return close current :: (← readSections fuel { path, isElement := true } rest)
    | '[' :: rest => do
      let (path, rest) ← readHeader [']'] rest
      return close current :: (← readSections fuel { path } rest)
    | '#' :: _ | '\n' :: _ | '\r' :: _ => do
      readSections fuel current (← skipLine? cs)
    | cs => do
      let (e, rest) ← readEntry cs
      readSections fuel { current with entries := e :: current.entries } rest

def skipByteOrder : List Char → List Char
  | '\uFEFF' :: rest => rest
  | cs => cs

def parse? (s : String) : Option Toml := do
  let cs := skipByteOrder s.toList
  ofSections? (← readSections (cs.length + 1) {} cs)

end Carve.Toml
