/-!
Cutting text at separators and putting it back together. `split` and `join` are inverse to each
other as long as no part holds the separator; `lines` cuts at line feeds and takes one carriage
return off each line it ends.
-/

namespace Carve.Text

/-- The parts between separators: always one more part than there are separators. -/
def split (sep : Char) : List Char → List (List Char)
  | [] => [[]]
  | c :: cs =>
    if c = sep then [] :: split sep cs
    else match split sep cs with
      | [] => [[c]]
      | part :: parts => (c :: part) :: parts

def join (sep : List Char) : List (List Char) → List Char
  | [] => []
  | [part] => part
  | part :: parts => part ++ sep ++ join sep parts

theorem split_ne_nil (sep : Char) (cs : List Char) : split sep cs ≠ [] := by
  cases cs with
  | nil => simp [split]
  | cons c cs =>
    by_cases h : c = sep
    · simp [split, h]
    · simp only [split, h, if_false]
      cases split sep cs <;> simp

theorem join_split (sep : Char) (cs : List Char) : join [sep] (split sep cs) = cs := by
  induction cs with
  | nil => rfl
  | cons c cs ih =>
    by_cases h : c = sep
    · subst h
      simp only [split, if_true]
      cases hs : split c cs with
      | nil => exact absurd hs (split_ne_nil _ _)
      | cons part parts => simp [join, ← hs, ih]
    · simp only [split, h, if_false]
      cases hs : split sep cs with
      | nil => exact absurd hs (split_ne_nil _ _)
      | cons part parts =>
        rw [hs] at ih
        cases parts with
        | nil => simpa [join] using ih
        | cons q qs => simpa [join] using ih

def parts (sep : Char) (s : String) : List String := (split sep s.toList).map String.ofList

def joined (sep : String) (ss : List String) : String :=
  String.ofList (join sep.toList (ss.map String.toList))

/-- The text cut at the last separator, which belongs to neither side. -/
def splitLast (sep : Char) (s : String) : Option (String × String) :=
  let (tail, rest) := s.toList.reverse.span (· ≠ sep)
  match rest with
  | [] => none
  | _ :: front => some (String.ofList front.reverse, String.ofList tail.reverse)

def splitFirst (sep : Char) (s : String) : Option (String × String) :=
  let (front, rest) := s.toList.span (· ≠ sep)
  match rest with
  | [] => none
  | _ :: tail => some (String.ofList front, String.ofList tail)

def dropReturn (line : List Char) : List Char :=
  match line.reverse with
  | '\r' :: rest => rest.reverse
  | _ => line

/-- The lines of a text. A line feed ends a line, so text after the last one is a line only when
there is some; a carriage return before a line feed belongs to the line end. -/
def lines (cs : List Char) : List (List Char) :=
  match (split '\n' cs).reverse with
  | [] => []
  | last :: ended =>
    ended.reverse.map dropReturn ++ (if last.isEmpty then [] else [last])

def stripStart : List Char → List Char → Option (List Char)
  | [], cs => some cs
  | _ :: _, [] => none
  | p :: ps, c :: cs => if p = c then stripStart ps cs else none

def stripEnd (ending cs : List Char) : Option (List Char) :=
  (stripStart ending.reverse cs.reverse).map List.reverse

def occursIn (pattern : List Char) : List Char → Bool
  | [] => pattern.isEmpty
  | c :: cs => (stripStart pattern (c :: cs)).isSome || occursIn pattern cs

/-- Text up to the first occurrence of the pattern and text after it. -/
def breakOn (pattern : List Char) : List Char → Option (List Char × List Char)
  | [] => if pattern.isEmpty then some ([], []) else none
  | c :: cs =>
    match stripStart pattern (c :: cs) with
    | some rest => some ([], rest)
    | none => (breakOn pattern cs).map fun (front, rest) => (c :: front, rest)

/-- At most `n` occurrences of the pattern replaced from the left, never overlapping. -/
def replaceUpTo : Nat → List Char → List Char → List Char → List Char
  | 0, _, _, cs => cs
  | n + 1, pattern, value, cs =>
    match breakOn pattern cs with
    | none => cs
    | some (front, rest) => front ++ value ++ replaceUpTo n pattern value rest

def replaced (pattern value s : String) : String :=
  String.ofList (replaceUpTo s.length pattern.toList value.toList s.toList)

end Carve.Text
