import Carve.Path
import Carve.Text.Split
/-!
Places in files as people write them: `FILE:LINE:COL`, with lines and columns from one. The last
two colons count, so the file may hold more of them.
-/

namespace Carve

structure SourceSite where
  file : Path
  line : Nat
  col : Nat
  deriving DecidableEq, Repr

namespace SourceSite

def maxNumber : Nat := Nat.pow 2 64 - 1

def digitsValue? (cs : List Char) : Option Nat :=
  if cs.isEmpty || !cs.all Char.isDigit then none
  else
    let n := cs.foldl (fun n c => n * 10 + (c.toNat - '0'.toNat)) 0
    if n ≤ maxNumber then some n else none

/-- A number as it may be written: digits, perhaps after a plus sign. -/
def number? (s : String) : Option Nat :=
  match s.toList with
  | '+' :: cs => digitsValue? cs
  | cs => digitsValue? cs

def positive (what s : String) : Except String Nat :=
  match number? s with
  | some (n + 1) => .ok (n + 1)
  | _ => .error (what ++ " must be a positive number, got '" ++ s ++ "'")

def malformed (s : String) : String := "expected FILE:LINE:COL, got '" ++ s ++ "'"

/-- The line is read before the column. -/
def parse (s : String) : Except String SourceSite :=
  match Text.splitLast ':' s with
  | none => .error (malformed s)
  | some (front, col) =>
    match Text.splitLast ':' front with
    | none => .error (malformed s)
    | some (file, line) => do
      let line ← positive "line" line
      let col ← positive "column" col
      return ⟨⟨file⟩, line, col⟩

def text (s : SourceSite) : String :=
  s.file.text ++ ":" ++ toString s.line ++ ":" ++ toString s.col

end SourceSite

end Carve
