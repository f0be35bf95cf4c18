import Carve.Disk.Change
import Carve.Fault
import Carve.Workspace
/-!
Writing a workspace to a directory, all of it or nothing. The files are put together in a directory
of a new name beside the target, which takes the place of the target once it is complete and is
taken away if it cannot be completed. A target that holds something is never touched.
-/

namespace Carve

namespace Disk

/-- A name that nothing in the directory has and no part of the path, being longer than all of
them. -/
def unusedName (d : Disk) (base : Place) (p : Path) : String :=
  let longest := ((d.names base).map String.length).foldl max p.text.length
  String.ofList (".liteworkspace-".toList ++ List.replicate longest '0')

def isOccupied (d : Disk) (p : Path) : Except Refusal Bool :=
  match d.locate p with
  | .error _ => .ok false
  | .ok place =>
    match d.get? place with
    | some .directory => .ok (!(d.names place).isEmpty)
    | _ => .error .notDirectory

end Disk

namespace Workspace

/-- The directory around a path; that of a bare name is the one where paths begin. -/
def around (p : Path) : Path :=
  match p.parent? with
  | some q => if q.text.isEmpty then ⟨"."⟩ else q
  | none => ⟨"."⟩

def wayTo (segments : List (List Char)) : List (List Char) :=
  (Text.dropEndWhile (!Disk.isName ·) segments).dropLast

def stageFile (base : Place) (file : Path × String) : Edit Fault Unit := do
  let (p, text) := file
  if !p.isContained then
    throw (.inconsistent ("refusing to write outside the workspace: " ++ p.text))
  Edit.advance .system (·.makeWay base (wayTo p.segments))
  Edit.change .system (·.writeAt base p.segments (.text text))

/-- The files in their order and then the list of libraries, over a file of its name. -/
def stage (w : Workspace) (base : Place) : Edit Fault Unit := do
  w.files.forM (stageFile base)
  Edit.change .system (·.writeAt base [manifestName.toList] (.text w.manifest))

/-- Puts a directory that is complete in the place of an empty one or of none. -/
def install (base : Place) (target : Path) : Edit Fault Unit := do
  if (← get).isPresent target then Edit.change .system (·.removeDirectory target)
  Edit.change .system (·.moveTo base target)

/-- What cannot be completed is cleared at its place rather than by the path to it. The two are the
same unless that path goes up from a directory that is not there, or from the empty one that is
removed to make room at the target: such a path would no longer lead to what is to be cleared. -/
def writeTo (w : Workspace) (target : Path) : Edit Fault Unit := do
  match (← get).isOccupied target with
  | .error refusal => throw (.system refusal)
  | .ok true => throw (.io (target.text ++ " exists and is not empty"))
  | .ok false => pure ()
  let parent := around target
  Edit.advance .system (·.createAll parent)
  match (← get).locate parent with
  | .error refusal => throw (.system refusal)
  | .ok place =>
    let base := place ++ [(← get).unusedName place target]
    modify (·.put base .directory)
    Edit.mending (do w.stage base; install base target) (·.clear base)

end Workspace

end Carve
