import Carve.Closure
/-!
The dependency report of a closure in Markdown, its members grouped by their distance.
-/

namespace Carve.Closure

def tick (s : String) : String := "\x60" ++ s ++ "\x60"

def originText (d : Declaration) : String :=
  match d.origin with
  | .library c => c.text
  | .project module => module

def memberLine (m : Member) : String :=
  "- " ++ tick m.decl.id.text ++ " (" ++ m.decl.kind.text ++ ", **" ++ m.inclusion.text ++ "**, " ++
    originText m.decl ++ ")"

def levelLines (c : Closure) (distance : Nat) : List String :=
  match c.members.filter (·.distance == distance) with
  | [] => []
  | level => ["## Distance " ++ toString distance, ""] ++ level.map memberLine ++ [""]

def reportLines (c : Closure) : List String :=
  let farthest := (c.members.map (·.distance)).foldl max 0
  ["# Dependencies of " ++ tick c.root.text, ""] ++
    (List.range (farthest + 1)).flatMap (levelLines c) ++
    ["## Libraries", ""] ++
    (if c.libraries.isEmpty then ["_none_"] else c.libraries.map fun l => "- " ++ tick l.text) ++
    (if c.diagnostics.isEmpty then []
      else ["", "## Diagnostics", ""] ++ c.diagnostics.map fun d => "- " ++ d.text)

def report (c : Closure) : String := String.join ((reportLines c).map (· ++ "\n"))

end Carve.Closure
