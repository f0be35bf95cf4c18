import Carve.Fault
import Carve.Text.Blank
import Carve.Text.Split
/-!
Library coordinates, written `group:artifact` or `group:artifact:version`. Reading trims the parts
and refuses blank ones, so the written form of a coordinate that was read has one reading.
-/

namespace Carve

structure Coordinate where
  group : String
  artifact : String
  version : Option String := none
  deriving DecidableEq, Repr, Inhabited

namespace Coordinate

def text (c : Coordinate) : String :=
  match c.version with
  | some v => c.group ++ ":" ++ c.artifact ++ ":" ++ v
  | none => c.group ++ ":" ++ c.artifact

def ofParts : List String → Option Coordinate
  | [group, artifact] =>
    if group.isEmpty || artifact.isEmpty then none else some ⟨group, artifact, none⟩
  | [group, artifact, version] =>
    if group.isEmpty || artifact.isEmpty || version.isEmpty then none
    else some ⟨group, artifact, some version⟩
  | _ => none

def parse? (s : String) : Option Coordinate := ofParts ((Text.parts ':' s).map Text.trimmed)

def malformed (s : String) : Fault :=
  .invalidArgument
    ("invalid library coordinate '" ++ s ++ "', expected group:artifact[:version]")

def parse (s : String) : Except Fault Coordinate :=
  match parse? s with
  | some c => .ok c
  | none => .error (malformed s)

/-- The platform library, which owns `java` and `javax`. -/
def jdk : Coordinate := ⟨"jdk", "java.base", none⟩

def isJdk (c : Coordinate) : Bool := c.group == "jdk"

/-- The coordinate of a foreign package that no catalog entry claims. Its first two segments make
the group, so that sibling packages fall together. -/
def inferred (package : String) : Coordinate :=
  ⟨Text.joined "." ((Text.parts '.' package).take 2), "unknown", none⟩

end Coordinate

end Carve
