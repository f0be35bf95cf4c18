import Carve.Testing.Failure
import Carve.Text.Blank
import Carve.Text.Split
import Carve.Text.Words
/-!
A drafted test, taken from the text of an answer: the code of a fenced block, the class that it
declares and the place where it belongs.
-/

namespace Carve.Testing

structure Draft where
  package : Option String
  className : String
  source : String
  relativePath : Path
  deriving DecidableEq, Repr

namespace Draft

/-- A fenced block: the tag after its opening fence and the text up to its closing fence. -/
structure Block where
  tag : List Char
  code : List Char
  deriving DecidableEq, Repr

def fence : List Char := ['\x60', '\x60', '\x60']

def isTagChar (c : Char) : Bool := c.isAlphanum || c == '_' || c == '+' || c == '-'

def tagOf (line : List Char) : List Char :=
  (line.dropWhile fun c => c == ' ' || c == '\t').takeWhile isTagChar

/-- The block that opens right here, with the text after it. The rest of the line of the opening
fence does not belong to the code. -/
def blockAt? (cs : List Char) : Option (Block × List Char) := do
  let opened ← Text.stripStart fence cs
  let (line, rest) := opened.span (· ≠ '\n')
  match rest with
  | [] => none
  | _ :: body =>
    let (code, after) ← Text.breakOn fence body
    return (⟨tagOf line, code⟩, after)

/-- The blocks from left to right; no two overlap. -/
def blocksFrom : Nat → List Char → List Block
  | 0, _ | _, [] => []
  | fuel + 1, c :: cs =>
    match blockAt? (c :: cs) with
    | some (block, after) => block :: blocksFrom fuel after
    | none => blocksFrom fuel cs

def blocks (cs : List Char) : List Block := blocksFrom (cs.length + 1) cs

def isJava (b : Block) : Bool := b.tag.map Char.toLower == "java".toList

/-- The first block tagged as Java, or else the first block, or else all of the answer. -/
def codeOf (answer : List Char) : List Char :=
  let found := blocks answer
  let code :=
    match found.find? isJava with
    | some b => b.code
    | none => (found.head?.map (·.code)).getD answer
  Text.trim code

def skipBlanks? : List Char → Option (List Char)
  | c :: cs => if Text.isBlank c then some (Text.trimStart cs) else none
  | [] => none

def skipWord? (words : List String) (cs : List Char) : Option (List Char) :=
  words.findSome? fun w => (Text.stripStart w.toList cs).bind skipBlanks?

/-- Text after an annotation and the blanks behind it. Arguments end at the first parenthesis. -/
def skipMark? (cs : List Char) : Option (List Char) :=
  match cs with
  | '@' :: rest =>
    let (name, rest) := rest.span Text.isWordChar
    if name.isEmpty then none
    else
      match rest with
      | '(' :: inner =>
        match inner.dropWhile (· ≠ ')') with
        | _ :: after => skipBlanks? after
        | [] => none
      | _ => skipBlanks? rest
  | _ => none

def repeatStep (step : List Char → Option (List Char)) : Nat → List Char → List Char
  | 0, cs => cs
  | fuel + 1, cs =>
    match step cs with
    | some rest => repeatStep step fuel rest
    | none => cs

def isNameStart (c : Char) : Bool := c.isAlpha || c == '_' || c == '$'

def isNamePart (c : Char) : Bool := Text.isWordChar c || c == '$'

def classAt? (cs : List Char) : Option (List Char) := do
  let n := cs.length
  let marked := repeatStep skipMark? n (Text.trimStart cs)
  let header := repeatStep (skipWord? ["public", "final", "abstract"]) n marked
  match ← skipWord? ["class"] header with
  | c :: rest => if isNameStart c then some (c :: rest.takeWhile isNamePart) else none
  | [] => none

def packageAt? (cs : List Char) : Option (List Char) := do
  let rest ← skipWord? ["package"] (Text.trimStart cs)
  let (name, rest) := rest.span fun c => Text.isWordChar c || c == '.'
  match Text.trimStart rest with
  | ';' :: _ => if name.isEmpty then none else some name
  | _ => none

/-- What a reading finds at the earliest line start at which it finds anything. -/
def firstAtLine {α : Type} (read : List Char → Option α) : Bool → List Char → Option α
  | true, [] => read []
  | false, [] => none
  | atStart, c :: cs =>
    match if atStart then read (c :: cs) else none with
    | some a => some a
    | none => firstAtLine read (c == '\n') cs

def className? (code : List Char) : Option (List Char) := firstAtLine classAt? true code

def package? (code : List Char) : Option (List Char) := firstAtLine packageAt? true code

def testRoot : Path := ⟨"src/test/java"⟩

def pathOf (package : Option String) (className : String) : Path :=
  let dir :=
    match package with
    | some p => (Text.parts '.' p).foldl (fun (dir : Path) s => dir.join ⟨s⟩) testRoot
    | none => testRoot
  dir.join ⟨className ++ ".java"⟩

def ofAnswer (answer : String) : Except Failure Draft :=
  let code := codeOf answer.toList
  match className? code with
  | none => .error (.malformed "no Java class in the answer")
  | some name =>
    let className := String.ofList name
    let package := (package? code).map String.ofList
    .ok ⟨package, className, String.ofList code ++ "\n", pathOf package className⟩

end Draft

end Carve.Testing
