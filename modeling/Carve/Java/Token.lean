import Carve.Span
import Carve.Text.Blank
import Carve.Text.Split
/-!
The tokens of Java source text. Keywords are words like any other: whether a word is a name is
decided where it stands. A closing angle bracket is always a token of its own, so that nested type
arguments close one by one; shifts and comparisons are put together again by adjacency.
-/

namespace Carve.Java

inductive Lexeme where
  | word
  | number
  | character
  | string
  | symbol
  | comment
  deriving DecidableEq, Repr

structure Token where
  lexeme : Lexeme
  text : String
  extent : Extent
  deriving DecidableEq, Repr

namespace Token

/-- Beyond ASCII every character that is not blank is a letter. -/
def isLetter (c : Char) : Bool :=
  c.isAlpha || c == '_' || c == '$' || (decide (127 < c.toNat) && !Text.isBlank c)

def isWordPart (c : Char) : Bool := isLetter c || c.isDigit

def isGap (c : Char) : Bool := Text.isBlank c || c.toNat == 0xFEFF

/-- What a quoted text is nested in: strings hold code between `\{` and its closing brace. -/
inductive Quoting where
  | line
  | block
  | code (openBraces : Nat)
  deriving DecidableEq, Repr

def quotedLength : List Quoting → List Char → Nat
  | [], _ => 0
  | _ :: _, [] => 0
  | .code n :: outer, c :: cs =>
    if c = '\x22' then quotedLength (.line :: .code n :: outer) cs + 1
    else if c = '\x7b' then quotedLength (.code (n + 1) :: outer) cs + 1
    else if c = '\x7d' then
      (if n = 0 then quotedLength outer cs else quotedLength (.code (n - 1) :: outer) cs) + 1
    else quotedLength (.code n :: outer) cs + 1
  | q :: outer, '\\' :: c :: cs =>
    if c = '\x7b' then quotedLength (.code 0 :: q :: outer) cs + 2
    else quotedLength (q :: outer) cs + 2
  | .line :: outer, c :: cs =>
    if c = '\x22' then quotedLength outer cs + 1 else quotedLength (.line :: outer) cs + 1
  | .block :: outer, '\x22' :: '\x22' :: '\x22' :: cs => quotedLength outer cs + 3
  | .block :: outer, _ :: cs => quotedLength (.block :: outer) cs + 1

def characterLength : List Char → Nat
  | [] => 0
  | '\\' :: _ :: cs => characterLength cs + 2
  | c :: cs => if c = '\x27' then 1 else characterLength cs + 1

def blockCommentLength : List Char → Nat
  | '*' :: '/' :: _ => 2
  | [] => 0
  | _ :: cs => blockCommentLength cs + 1

/-- The length of the rest of a number. Signs belong to it after an exponent mark. -/
def numberLength (hex : Bool) : List Char → Nat
  | [] => 0
  | [c] => if isWordPart c || c == '.' then 1 else 0
  | c :: d :: cs =>
    if isWordPart c || c == '.' then
      let exponent := if hex then c == 'p' || c == 'P' else c == 'e' || c == 'E'
      if exponent && (d == '+' || d == '-') then numberLength hex cs + 2
      else numberLength hex (d :: cs) + 1
    else 0

def longSymbols : List (List Char) :=
  ["<<=", "...", "->", "::", "++", "--", "&&", "||", "==", "!=", "<=", "+=", "-=", "*=", "/=",
    "&=", "|=", "^=", "%=", "<<"].map String.toList

def symbolLength (cs : List Char) : Nat :=
  match longSymbols.find? (·.isPrefixOf cs) with
  | some s => s.length
  | none => 1

def annotationTypeMark : List Char := "@interface".toList

def nonSealedTail : List Char := "-sealed".toList

/-- The token at the head of the text and how many characters it takes, none for a gap. -/
def measure : List Char → Option Lexeme × Nat
  | [] => (none, 1)
  | c :: cs =>
    if isGap c then (none, 1)
    else if "//".toList.isPrefixOf (c :: cs) then
      (some .comment, ((c :: cs).takeWhile (· ≠ '\n')).length)
    else if "/*".toList.isPrefixOf (c :: cs) then
      (some .comment, blockCommentLength (cs.drop 1) + 2)
    else if isLetter c then
      let word := c :: cs.takeWhile isWordPart
      let rest := cs.dropWhile isWordPart
      if word == "non".toList && nonSealedTail.isPrefixOf rest &&
          !((rest.drop nonSealedTail.length).head?.any isWordPart) then
        (some .word, word.length + nonSealedTail.length)
      else (some .word, word.length)
    else if c.isDigit || (c == '.' && cs.head?.any Char.isDigit) then
      let hex := c == '0' && (cs.head? == some 'x' || cs.head? == some 'X')
      (some .number, numberLength hex cs + 1)
    else if c == '\x27' then (some .character, characterLength cs + 1)
    else if "\"\"\"".toList.isPrefixOf (c :: cs) then
      (some .string, quotedLength [.block] (cs.drop 2) + 3)
    else if c == '\x22' then (some .string, quotedLength [.line] cs + 1)
    else if annotationTypeMark.isPrefixOf (c :: cs) &&
        !(((c :: cs).drop annotationTypeMark.length).head?.any isWordPart) then
      (some .symbol, annotationTypeMark.length)
    else (some .symbol, symbolLength (c :: cs))

def scanFrom (m : Mark) (cs : List Char) : List Token :=
  match cs with
  | [] => []
  | c :: rest =>
    let (lexeme, length) := measure (c :: rest)
    let piece := c :: rest.take (length - 1)
    let stop := m.advance piece
    let later := scanFrom stop (rest.drop (length - 1))
    match lexeme with
    | none => later
    | some l => ⟨l, String.ofList piece, ⟨m, stop⟩⟩ :: later
termination_by cs.length
decreasing_by
  simp only [List.length_drop, List.length_cons]
  omega

def scan (source : List Char) : List Token := scanFrom .origin source

end Token

end Carve.Java
