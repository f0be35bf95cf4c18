import Carve.Java.Token
import Carve.Java.Tree
/-!
The tools that the productions of the grammar are made of. A production reads tokens and may fail,
in which case nothing was read. Productions refer to each other through `Goal`: a production is
given a parser for every goal and never calls itself, so that the recursion of the whole grammar
is in one place and counts its depth.
-/

namespace Carve.Java

abbrev Parse (α : Type) := StateT (List Token) Option α

inductive Goal where
  | type
  | plainType
  | annotationMark
  | elementValue
  | expression
  | operand
  | initializer
  | arguments
  | formalParameters
  | classBody
  | block
  | statement
  | localVariable
  | member
  | element
  | recordPattern
  | typeDeclaration
  deriving DecidableEq, Repr

abbrev Sub := Goal → Parse Node

namespace Parse

def peek? : Parse (Option Token) := fun ts => some (ts.head?, ts)

def next : Parse Token
  | [] => none
  | t :: ts => some (t, ts)

def isSymbol (s : String) (t : Token) : Bool := t.lexeme == .symbol && t.text == s

def isWord (s : String) (t : Token) : Bool := t.lexeme == .word && t.text == s

def reserved : List String :=
  ["abstract", "assert", "boolean", "break", "byte", "case", "catch", "char", "class", "const",
    "continue", "default", "do", "double", "else", "enum", "extends", "final", "finally", "float",
    "for", "goto", "if", "implements", "import", "instanceof", "int", "interface", "long",
    "native", "new", "package", "private", "protected", "public", "return", "short", "static",
    "strictfp", "super", "switch", "synchronized", "this", "throw", "throws", "transient", "try",
    "void", "volatile", "while", "true", "false", "null", "non-sealed"]

def primitives : List String :=
  ["byte", "short", "int", "long", "char", "float", "double", "boolean", "void"]

def isName (t : Token) : Bool := t.lexeme == .word && !reserved.contains t.text

def looksAt (p : Token → Bool) : Parse Bool := fun ts => some (ts.head?.any p, ts)

def looksAtNth (i : Nat) (p : Token → Bool) : Parse Bool := fun ts => some (ts[i]?.any p, ts)

def atSymbol (s : String) : Parse Bool := looksAt (isSymbol s)

def atWord (s : String) : Parse Bool := looksAt (isWord s)

def leaf (k : Kind) (t : Token) : Node := .mk k none t.extent []

def accept (k : Kind) (p : Token → Bool) : Parse Node
  | t :: ts => if p t then some (leaf k t, ts) else none
  | [] => none

def symbol (s : String) : Parse Node := accept .token (isSymbol s)

def word (s : String) : Parse Node := accept .token (isWord s)

def name : Parse Node := accept .identifier isName

def maybe (p : Parse (List Node)) : Parse (List Node) := fun ts =>
  match p ts with
  | some r => some r
  | none => some ([], ts)

def one (p : Parse Node) : Parse (List Node) := fun ts => (p ts).map fun (n, rest) => ([n], rest)

def manyFrom (p : Parse (List Node)) : Nat → Parse (List Node)
  | 0, ts => some ([], ts)
  | fuel + 1, ts =>
    match p ts with
    | none => some ([], ts)
    | some (ns, rest) =>
      if rest.length < ts.length then
        match manyFrom p fuel rest with
        | some (more, rest') => some (ns ++ more, rest')
        | none => some (ns, rest)
      else some ([], ts)

/-- As many repetitions as there are; each must read something. -/
def many (p : Parse (List Node)) : Parse (List Node) := fun ts => manyFrom p ts.length ts

/-- Repetition of a step on a growing node, as long as the step reads something. -/
def growFrom (step : Node → Parse Node) : Nat → Node → Parse Node
  | 0, n, ts => some (n, ts)
  | fuel + 1, n, ts =>
    match step n ts with
    | some (n', rest) => if rest.length < ts.length then growFrom step fuel n' rest else some (n, ts)
    | none => some (n, ts)

def grow (step : Node → Parse Node) (n : Node) : Parse Node := fun ts =>
  growFrom step ts.length n ts

def separated (sep : String) (item : Parse Node) : Parse (List Node) := do
  let first ← item
  let rest ← many do
    let s ← symbol sep
    let n ← item
    return [s, n]
  return first :: rest

def commaList (item : Parse Node) : Parse (List Node) := separated "," item

def build (k : Kind) (parts : Parse (List Node)) : Parse Node := fun ts =>
  (parts ts).map fun (ns, rest) => (Node.branch k ns, rest)

def guardThat (b : Bool) : Parse Unit := fun ts => if b then some ((), ts) else none

def isAhead (p : Parse α) : Parse Bool := fun ts => some ((p ts).isSome, ts)

def closingIndex : Nat → List Token → Option Nat
  | _, [] => none
  | depth, t :: ts =>
    if t.lexeme == .symbol && (t.text == "(" || t.text == "[" || t.text == "\x7b") then
      (closingIndex (depth + 1) ts).map (· + 1)
    else if t.lexeme == .symbol && (t.text == ")" || t.text == "]" || t.text == "\x7d") then
      (if depth = 0 then some 0 else (closingIndex (depth - 1) ts).map (· + 1))
    else (closingIndex depth ts).map (· + 1)

/-- How many tokens stand before the first arrow outside of brackets, up to the statement's end. -/
def arrowIndex : Nat → List Token → Option Nat
  | _, [] => none
  | depth, t :: ts =>
    if t.lexeme == .symbol then
      if t.text == "(" || t.text == "[" || t.text == "\x7b" then
        (arrowIndex (depth + 1) ts).map (· + 1)
      else if t.text == ")" || t.text == "]" || t.text == "\x7d" then
        (if depth = 0 then none else (arrowIndex (depth - 1) ts).map (· + 1))
      else if depth = 0 && t.text == "->" then some 0
      else if depth = 0 && t.text == ";" then none
      else (arrowIndex depth ts).map (· + 1)
    else (arrowIndex depth ts).map (· + 1)

/-- Runs `p` on the first `n` tokens only and leaves the others for later. -/
def within (n : Nat) (p : Parse α) : Parse α := fun ts =>
  (p (ts.take n)).map fun (a, rest) => (a, rest ++ ts.drop n)

def atLambda : Parse Bool := fun ts =>
  let found : Bool := match ts with
    | t :: rest =>
      if isName t then rest.head?.any (isSymbol "->")
      else if isSymbol "(" t then
        match closingIndex 0 rest with
        | some i => rest[i + 1]?.any (isSymbol "->")
        | none => false
      else false
    | [] => false
  some (found, ts)

end Parse

end Carve.Java
