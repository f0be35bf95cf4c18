import Carve.Ignore.Glob
import Carve.Text.Blank
import Carve.Text.Split
/-!
Ignore files. Each line is a rule: a pattern relative to the directory of the file, perhaps only
for directories, perhaps the opposite of ignoring. Of the rules that match a path the last one
decides.
-/

namespace Carve.Ignore

inductive Verdict where
  | ignored
  /-- Kept, even where something else would skip it. -/
  | kept
  deriving DecidableEq, Repr

structure Rule where
  glob : Glob
  verdict : Verdict
  directoriesOnly : Bool

def startsWith (front cs : List Char) : Bool := front.isPrefixOf cs

def endsWith (back cs : List Char) : Bool := back.isSuffixOf cs

/-- A line without the blanks at its end, of which one that is escaped is kept. -/
def trimLine (line : List Char) : List Char :=
  if endsWith ['\\', ' '] line then line else Text.trimEnd line

/-- A pattern without any slash matches at every depth, and one that ends in two stars matches
what is below a directory and not the directory. -/
def widen (anchored : Bool) (pattern : List Char) : List Char :=
  let anyDepth := ['*', '*', '/']
  let pattern :=
    if anchored || pattern.contains '/' || pattern = ['*', '*'] then pattern
    else anyDepth ++ pattern
  if endsWith ['/', '*', '*'] pattern then pattern ++ ['/', '*'] else pattern

/-- The rest of a line after its marks: whether it keeps, whether it is bound to the directory of
the file, and the pattern. -/
def marksOf (line : List Char) : Verdict × Bool × List Char :=
  match line with
  | '\\' :: '!' :: _ | '\\' :: '#' :: _ => (.ignored, false, line.drop 1)
  | '!' :: '/' :: cs => (.kept, true, cs)
  | '!' :: cs => (.kept, false, cs)
  | '/' :: cs => (.ignored, true, cs)
  | _ => (.ignored, false, line)

def Rule.ofLine? (line : List Char) : Option Rule :=
  if startsWith ['#'] line then none
  else
    let line := trimLine line
    if line.isEmpty then none
    else
      let (verdict, anchored, pattern) := marksOf line
      let directoriesOnly := endsWith ['/'] pattern
      let pattern := if directoriesOnly then pattern.dropLast else pattern
      let pattern :=
        if directoriesOnly && endsWith ['\\'] pattern then pattern.dropLast else pattern
      (Glob.parse? (widen anchored pattern)).map fun glob => ⟨glob, verdict, directoriesOnly⟩

/-- The marks of byte order at the beginning of a file do not count. -/
def parse (text : String) : List Rule :=
  (Text.lines (text.toList.dropWhile (· == '\ufeff'))).filterMap Rule.ofLine?

def judge (rules : List Rule) (path : List String) (directory : Bool) : Option Verdict :=
  let bytes := Glob.bytesOf (String.ofList (Text.join ['/'] (path.map String.toList)))
  (rules.reverse.find? fun r => (directory || !r.directoriesOnly) && r.glob.Matches bytes).map
    (·.verdict)

end Carve.Ignore
