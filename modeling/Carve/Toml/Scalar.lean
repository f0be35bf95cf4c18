import Carve.Json.Reader
import Carve.Toml.Basic
/-!
Reading the strings, numbers and dates of TOML. A reader takes a text and gives a value with the
text after it, or nothing when the text does not begin as it should.
-/

namespace Carve.Toml

def isSpace (c : Char) : Bool := c == ' ' || c == '\t'

def skipSpace (cs : List Char) : List Char := cs.dropWhile isSpace

/-- Characters that may stand in comments and strings without an escape, quotes and backslashes
apart. -/
def isPlain (c : Char) : Bool :=
  c == '\t' || decide (32 ≤ c.toNat ∧ c.toNat ≠ 127)

def newline? : List Char → Option (List Char)
  | '\n' :: rest => some rest
  | '\r' :: '\n' :: rest => some rest
  | _ => none

/-- The first line end of a string over several lines does not belong to it. -/
def dropNewline (cs : List Char) : List Char := (newline? cs).getD cs

def isScalar (n : Nat) : Bool := decide (n < 0xd800 ∨ (0xe000 ≤ n ∧ n < 0x110000))

def readCode (count : Nat) (cs : List Char) : Option (Char × List Char) := do
  let digits := cs.take count
  if digits.length < count then none
  else
    let n ← digits.foldlM (fun n c => (Json.hexValue? c).map fun d => n * 16 + d) 0
    if isScalar n then return (Char.ofNat n, cs.drop count) else none

def readEscape : List Char → Option (Char × List Char)
  | 'u' :: rest => readCode 4 rest
  | 'U' :: rest => readCode 8 rest
  | c :: rest => if c = '/' then none else (Json.escape? c).map fun c => (c, rest)
  | [] => none

/-- A backslash at the end of a line takes all blanks and line ends behind it away. -/
def skipLineEnd? (cs : List Char) : Option (List Char) :=
  (newline? (skipSpace cs)).map skipAll
where
  skipAll (cs : List Char) : List Char :=
    match cs with
    | [] => []
    | '\r' :: '\n' :: rest => skipAll rest
    | c :: rest => if isSpace c || c = '\n' then skipAll rest else c :: rest

def addChar (c : Char) (r : Option (List Char × List Char)) : Option (List Char × List Char) :=
  r.map fun (tail, rest) => (c :: tail, rest)

def readBasic : Nat → List Char → Option (List Char × List Char)
  | 0, _ | _, [] => none
  | fuel + 1, c :: cs =>
    if c = '\x22' then some ([], cs)
    else if c = '\\' then do
      let (e, rest) ← readEscape cs
      addChar e (readBasic fuel rest)
    else if isPlain c then addChar c (readBasic fuel cs)
    else none

def readLiteral : List Char → Option (List Char × List Char)
  | [] => none
  | c :: cs =>
    if c = '\'' then some ([], cs)
    else if isPlain c then addChar c (readLiteral cs)
    else none

/-- The end of a string over several lines: three quotes, with up to two more before them that
still belong to the string. -/
def readClosing (quote : Char) (cs : List Char) : Option (List Char × List Char) :=
  let run := (cs.takeWhile (· == quote)).length
  if run < 3 then none
  else
    let extra := min (run - 3) 2
    some (List.replicate extra quote, cs.drop (extra + 3))

def readLongBasic : Nat → List Char → Option (List Char × List Char)
  | 0, _ | _, [] => none
  | fuel + 1, c :: cs =>
    if c = '\x22' then
      match readClosing c (c :: cs) with
      | some r => some r
      | none => addChar c (readLongBasic fuel cs)
    else if c = '\\' then
      match skipLineEnd? cs with
      | some rest => readLongBasic fuel rest
      | none => do
        let (e, rest) ← readEscape cs
        addChar e (readLongBasic fuel rest)
    else
      match newline? (c :: cs) with
      | some rest => addChar '\n' (readLongBasic fuel rest)
      | none => if isPlain c then addChar c (readLongBasic fuel cs) else none

def readLongLiteral : Nat → List Char → Option (List Char × List Char)
  | 0, _ | _, [] => none
  | fuel + 1, c :: cs =>
    if c = '\'' then
      match readClosing c (c :: cs) with
      | some r => some r
      | none => addChar c (readLongLiteral fuel cs)
    else
      match newline? (c :: cs) with
      | some rest => addChar '\n' (readLongLiteral fuel rest)
      | none => if isPlain c then addChar c (readLongLiteral fuel cs) else none

def readString (cs : List Char) : Option (String × List Char) :=
  let fuel := cs.length + 1
  let read :=
    match cs with
    | '\x22' :: '\x22' :: '\x22' :: rest => readLongBasic fuel (dropNewline rest)
    | '\x22' :: rest => readBasic fuel rest
    | '\'' :: '\'' :: '\'' :: rest => readLongLiteral fuel (dropNewline rest)
    | '\'' :: rest => readLiteral rest
    | _ => none
  read.map fun (s, rest) => (String.ofList s, rest)

/-- Digits, between any two of which there may be an underscore. -/
def readDigits (isDigit : Char → Bool) : Bool → List Char → Option (List Char × List Char)
  | _, [] => some ([], [])
  | started, c :: cs =>
    if isDigit c then addChar c (readDigits isDigit true cs)
    else if c = '_' && started then
      match cs with
      | d :: _ => if isDigit d then readDigits isDigit false cs else none
      | [] => none
    else some ([], c :: cs)

def readNumeral (isDigit : Char → Bool) (cs : List Char) : Option (List Char × List Char) :=
  match readDigits isDigit false cs with
  | some ([], _) => none
  | r => r

def readDecimal : List Char → Option (List Char × List Char)
  | '0' :: rest => some (['0'], rest)
  | cs => readNumeral Char.isDigit cs

def readSign : List Char → Bool × List Char
  | '-' :: rest => (true, rest)
  | '+' :: rest => (false, rest)
  | cs => (false, cs)

def valueOf (base : Nat) (digits : List Char) : Nat :=
  digits.foldl (fun n c => n * base + (Json.hexValue? c).getD 0) 0

/-- Whole numbers have 64 bits and a sign. -/
def integerOf? (negative : Bool) (n : Nat) : Option Toml :=
  if negative then if n ≤ Nat.pow 2 63 then some (.integer (-(n : Int))) else none
  else if n < Nat.pow 2 63 then some (.integer n) else none

def readBased (base : Nat) (isDigit : Char → Bool) (cs : List Char) :
    Option (Toml × List Char) := do
  let (digits, rest) ← readNumeral isDigit cs
  return (← integerOf? false (valueOf base digits), rest)

def readInteger (cs : List Char) : Option (Toml × List Char) :=
  match cs with
  | '0' :: 'x' :: rest => readBased 16 (fun c => (Json.hexValue? c).isSome) rest
  | '0' :: 'o' :: rest => readBased 8 (fun c => decide ('0' ≤ c ∧ c ≤ '7')) rest
  | '0' :: 'b' :: rest => readBased 2 (fun c => c == '0' || c == '1') rest
  | _ => do
    let (negative, rest) := readSign cs
    let (digits, rest) ← readDecimal rest
    return (← integerOf? negative (valueOf 10 digits), rest)

def readExponent (cs : List Char) : Option ((Bool × List Char) × List Char) :=
  match cs with
  | c :: rest =>
    if c == 'e' || c == 'E' then do
      let (negative, rest) := readSign rest
      let (digits, rest) ← readNumeral Char.isDigit rest
      return ((negative, digits), rest)
    else none
  | [] => none

/-- From here on a positive number is nearer to infinity than to a float of 64 bits. -/
def floatLimit : Nat := Nat.pow 2 1024 - Nat.pow 2 970

def overflows (digits : List Char) (exponent : Int) : Bool :=
  let digits := digits.dropWhile (· == '0')
  let places : Int := digits.length + exponent
  if digits.isEmpty || places < 309 then false
  else if places > 309 then true
  else
    let leading := digits.take 309
    decide (floatLimit ≤ valueOf 10 leading * Nat.pow 10 (309 - leading.length))

def floatOf? (negative : Bool) (whole fraction : List Char) (exponent : Bool × List Char) :
    Option Toml :=
  let size : Int := valueOf 10 exponent.2
  let e := (if exponent.1 then -size else size) - fraction.length
  if !negative && overflows (whole ++ fraction) e then none else some .float

def readFloat (cs : List Char) : Option (Toml × List Char) := do
  let (negative, rest) := readSign cs
  let (whole, rest) ← readDecimal rest
  match rest with
  | '.' :: rest =>
    let (fraction, rest) ← readNumeral Char.isDigit rest
    let (exponent, rest) ← match rest with
      | 'e' :: _ | 'E' :: _ => readExponent rest
      | _ => some ((false, []), rest)
    return (← floatOf? negative whole fraction exponent, rest)
  | _ =>
    let (exponent, rest) ← readExponent rest
    return (← floatOf? negative whole [] exponent, rest)

def readWord (word : String) (value : Toml) (cs : List Char) : Option (Toml × List Char) :=
  if word.toList.isPrefixOf cs then some (value, cs.drop word.length) else none

def readSpecial (cs : List Char) : Option (Toml × List Char) :=
  let (_, rest) := readSign cs
  (readWord "inf" .float rest).or (readWord "nan" .float rest)

def readPart (count low high : Nat) (cs : List Char) : Option (Nat × List Char) :=
  let digits := cs.take count
  let n := valueOf 10 digits
  if digits.length == count && digits.all Char.isDigit && low ≤ n && n ≤ high then
    some (n, cs.drop count)
  else none

def readMark (c : Char) : List Char → Option (List Char)
  | d :: rest => if c = d then some rest else none
  | [] => none

def daysIn (year month : Nat) : Nat :=
  if month = 2 then if year % 4 = 0 && (year % 100 ≠ 0 || year % 400 = 0) then 29 else 28
  else if month = 4 || month = 6 || month = 9 || month = 11 then 30
  else 31

def skipDate (cs : List Char) : Option (List Char) := do
  let (year, cs) ← readPart 4 0 9999 cs
  let cs ← readMark '-' cs
  let (month, cs) ← readPart 2 1 12 cs
  let cs ← readMark '-' cs
  let (_, cs) ← readPart 2 1 (daysIn year month) cs
  return cs

/-- Hours, minutes and seconds, a leap second included, with any fraction. -/
def skipTime (cs : List Char) : Option (List Char) := do
  let (_, cs) ← readPart 2 0 23 cs
  let cs ← readMark ':' cs
  let (_, cs) ← readPart 2 0 59 cs
  let cs ← readMark ':' cs
  let (_, cs) ← readPart 2 0 60 cs
  match cs with
  | '.' :: d :: rest => if d.isDigit then return rest.dropWhile Char.isDigit else return cs
  | _ => return cs

def skipOffset (cs : List Char) : Option (List Char) :=
  match cs with
  | 'Z' :: rest | 'z' :: rest => some rest
  | '+' :: rest | '-' :: rest => do
    let (_, cs) ← readPart 2 0 23 rest
    let cs ← readMark ':' cs
    let (_, cs) ← readPart 2 0 59 cs
    return cs
  | _ => some cs

def isDateMark (c : Char) : Bool := c == 'T' || c == 't' || c == ' '

def readDatetime (cs : List Char) : Option (Toml × List Char) :=
  match skipDate cs with
  | some (c :: rest) =>
    match if isDateMark c then skipTime rest else none with
    | some rest => (skipOffset rest).map fun rest => (.datetime, rest)
    | none => some (.datetime, c :: rest)
  | some [] => some (.datetime, [])
  | none => (skipTime cs).map fun rest => (.datetime, rest)

def readNumber (cs : List Char) : Option (Toml × List Char) :=
  (readDatetime cs).or ((readFloat cs).or ((readSpecial cs).or (readInteger cs)))

def readScalar (cs : List Char) : Option (Toml × List Char) :=
  match cs with
  | '\x22' :: _ | '\'' :: _ => (readString cs).map fun (s, rest) => (.string s, rest)
  | 't' :: _ => readWord "true" (.boolean true) cs
  | 'f' :: _ => readWord "false" (.boolean false) cs
  | _ => readNumber cs

end Carve.Toml
