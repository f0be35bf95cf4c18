/-!
Patterns for relative paths, as they stand in ignore files. A pattern is matched byte by byte
against the UTF-8 form of a whole path. `?` and `*` stay within a segment and two stars, set apart
by slashes, cross segments; brackets hold a class of bytes and braces hold alternatives. A
backslash takes the next character at its word.
-/

namespace Carve

inductive Glob where
  | empty
  | literal (c : Char)
  | any
  | star
  /-- Whole segments before what follows, or none. -/
  | leading
  /-- Something below what comes before. -/
  | inside
  /-- A slash with whole segments before the next one, or none. -/
  | between
  | oneOf (negated : Bool) (ranges : List (Char × Char))
  | followedBy (g h : Glob)
  | either (g h : Glob)

namespace Glob

def sequence : List Glob → Glob
  | [] => empty
  | [g] => g
  | g :: gs => followedBy g (sequence gs)

def oneOfAll : List Glob → Glob
  | [] => empty
  | [g] => g
  | g :: gs => either g (oneOfAll gs)

/-! Matching -/

def slash : UInt8 := 47

def bytesOf (s : String) : List UInt8 := s.toUTF8.toList

/-- A range of characters as ranges of bytes: where an end takes several bytes, its last or first
byte bounds the range and its other bytes stand for themselves. -/
def byteRanges (r : Char × Char) : List (UInt8 × UInt8) :=
  let low := bytesOf (String.ofList [r.1])
  if r.1 = r.2 then low.map fun b => (b, b)
  else
    let high := bytesOf (String.ofList [r.2])
    (low.dropLast ++ high.drop 1).map (fun b => (b, b)) ++
      [(low.getLastD 0, high.headD 0)]

def classHolds (ranges : List (Char × Char)) (b : UInt8) : Bool :=
  (ranges.flatMap byteRanges).any fun r => r.1 ≤ b && b ≤ r.2

def dropByte (p : UInt8 → Bool) : List UInt8 → List (List UInt8)
  | [] => []
  | b :: bs => if p b then [bs] else []

def dropSegmentBytes : List UInt8 → List (List UInt8)
  | [] => [[]]
  | b :: bs => (b :: bs) :: (if b = slash then [] else dropSegmentBytes bs)

def afterSlashes : List UInt8 → List (List UInt8)
  | [] => []
  | b :: bs => if b = slash then bs :: afterSlashes bs else afterSlashes bs

def dropText : List UInt8 → List UInt8 → List (List UInt8)
  | [], bs => [bs]
  | _ :: _, [] => []
  | t :: ts, b :: bs => if t = b then dropText ts bs else []

def rests : Glob → List UInt8 → List (List UInt8)
  | empty, bs => [bs]
  | literal c, bs => dropText (bytesOf (String.ofList [c])) bs
  | any, bs => dropByte (· != slash) bs
  | star, bs => dropSegmentBytes bs
  | leading, bs => bs :: afterSlashes bs
  | inside, bs => if bs.head? = some slash then [[]] else []
  | between, bs => if bs.head? = some slash then bs.drop 1 :: afterSlashes (bs.drop 1) else []
  | oneOf negated ranges, bs => dropByte (classHolds ranges · != negated) bs
  | followedBy g h, bs => (g.rests bs).flatMap fun rest => h.rests rest
  | either g h, bs => g.rests bs ++ h.rests bs

/-- Two stars by themselves match everything. -/
def Matches (g : Glob) (path : List UInt8) : Bool :=
  match g with
  | leading => true
  | g => (g.rests path).any List.isEmpty

/-! Reading -/

/-- A group in braces, as far as it has been read. The outermost frame is the pattern itself. -/
structure Frame where
  branches : List (List Glob) := []
  current : List Glob := []

inductive ClassState where
  | opened
  | reading
  | ranging

/-- The ranges of a class up to its closing bracket and how many characters it takes. A class that
does not end is none; a range that runs backwards makes the whole pattern unreadable. -/
def classFrom (state : ClassState) (ranges : List (Char × Char)) (taken : Nat) :
    List Char → Option (Option (List (Char × Char) × Nat))
  | [] => some none
  | c :: cs =>
    match state, ranges with
    | .opened, _ => classFrom .reading [(c, c)] (taken + 1) cs
    | .ranging, (low, high) :: rest =>
      if c = ']' then some (some (('-', '-') :: (low, high) :: rest, taken + 1))
      else if c < low then none
      else classFrom .reading ((low, c) :: rest) (taken + 1) cs
    | _, _ =>
      if c = ']' then some (some (ranges, taken + 1))
      else if c = '-' then classFrom .ranging ranges (taken + 1) cs
      else classFrom .reading ((c, c) :: ranges) (taken + 1) cs

def classAt : List Char → Option (Option (Glob × Nat))
  | cs =>
    let negated := cs.head? = some '!' || cs.head? = some '^'
    let body := if negated then cs.drop 1 else cs
    (classFrom .opened [] (if negated then 1 else 0) body).map fun found =>
      found.map fun (ranges, taken) => (.oneOf negated ranges, taken)

def Frame.add (f : Frame) (parts : List Glob) : Frame :=
  { f with current := parts.reverse ++ f.current }

/-- The group with its last branch; empty branches match nothing of their own. -/
def Frame.close (f : Frame) : List Glob :=
  match ((f.current.reverse :: f.branches).reverse).filter (!·.isEmpty) with
  | [] => []
  | branches => [oneOfAll (branches.map sequence)]

def Frame.widen (f : Frame) (atEnd : Bool) : Frame :=
  match f.current with
  | .leading :: _ => f
  | .inside :: _ => f
  | _ :: rest => { f with current := (if atEnd then .inside else .between) :: rest }
  | [] => f

/-- What two stars mean after a character and before the rest, and how many characters of the rest
belong to them. -/
def doubleStar (f : Frame) (nested : Bool) (before : Option Char) (after : List Char) :
    Frame × Nat :=
  let plain := (f.add [.star, .star], 0)
  if f.current.isEmpty then
    match after with
    | [] => (f.add [.leading], 0)
    | '/' :: _ => (f.add [.leading], 1)
    | _ => plain
  else if before != some '/' && !(nested && (before == some ',' || before == some '\x7b')) then plain
  else
    match after with
    | [] => (f.widen true, 0)
    | '/' :: _ => (f.widen false, 1)
    | c :: _ => if nested && (c = ',' || c = '\x7d') then (f.widen true, 0) else plain

/-- Reads on after `skip` characters. Once a bracket was found that nothing closes, brackets stand
for themselves. -/
def parseFrom (frame : Frame) (around : List Frame) (brackets : Bool) (before : Option Char) :
    Nat → List Char → Option (List Glob)
  | _, [] => if around.isEmpty then some frame.current.reverse else none
  | skip + 1, c :: cs => parseFrom frame around brackets (some c) skip cs
  | 0, '?' :: cs => parseFrom (frame.add [.any]) around brackets (some '?') 0 cs
  | 0, '*' :: '*' :: cs =>
    let (widened, taken) := doubleStar frame (!around.isEmpty) before cs
    parseFrom widened around brackets (some '*') (taken + 1) ('*' :: cs)
  | 0, '*' :: cs => parseFrom (frame.add [.star]) around brackets (some '*') 0 cs
  | 0, '\x7b' :: cs => parseFrom {} (frame :: around) brackets (some '\x7b') 0 cs
  | 0, '\x7d' :: cs =>
    match around with
    | [] => none
    | outer :: rest => parseFrom (outer.add frame.close) rest brackets (some '\x7d') 0 cs
  | 0, ',' :: cs =>
    if around.isEmpty then parseFrom (frame.add [.literal ',']) around brackets (some ',') 0 cs
    else
      parseFrom { branches := frame.current.reverse :: frame.branches } around brackets
        (some ',') 0 cs
  | 0, '\\' :: cs =>
    match cs with
    | [] => none
    | c :: _ => parseFrom (frame.add [.literal c]) around brackets (some '\\') 1 cs
  | 0, '[' :: cs =>
    if brackets then
      match classAt cs with
      | none => none
      | some (some (part, taken)) => parseFrom (frame.add [part]) around true (some '[') taken cs
      | some none => parseFrom (frame.add [.literal '[']) around false (some '[') 0 cs
    else parseFrom (frame.add [.literal '[']) around false (some '[') 0 cs
  | 0, c :: cs => parseFrom (frame.add [.literal c]) around brackets (some c) 0 cs

def parse? (cs : List Char) : Option Glob := (parseFrom {} [] true none 0 cs).map sequence

end Glob

end Carve
