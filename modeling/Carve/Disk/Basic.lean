import Carve.Path
import Carve.Refusal
/-!
A snapshot of a file system. A place lists the names from the root down; a path names a place only
once it has been followed, and every segment of it but the last must lead to a directory. The root
is always a directory.
-/

namespace Carve

abbrev Place := List String

/-- What a file holds. Bytes that are no text are kept as they are. -/
inductive Content where
  | text (s : String)
  | binary (bytes : List UInt8)
  deriving DecidableEq, Repr

inductive Disk.Entry where
  | directory
  | file (content : Content)
  deriving DecidableEq, Repr

structure Disk where
  /-- Where paths without a leading slash begin. -/
  here : Place := []
  entries : List (Place × Disk.Entry) := []

namespace Disk

def get? (d : Disk) : Place → Option Entry
  | [] => some .directory
  | p => d.entries.lookup p

/-- Every entry lies in a directory. -/
def Closed (d : Disk) : Prop :=
  ∀ p, p ≠ [] → d.get? p ≠ none → d.get? p.dropLast = some .directory

/-- Whether a segment names an entry, rather than the place itself or the one above it. -/
def isName (segment : List Char) : Bool := !Path.isFiller segment && segment != ['.', '.']

def step (d : Disk) (base : Place) (segment : List Char) : Except Refusal Place :=
  match d.get? base with
  | some .directory =>
    if Path.isFiller segment then .ok base
    else if segment = ['.', '.'] then .ok base.dropLast
    else
      let next := base ++ [String.ofList segment]
      if (d.get? next).isSome then .ok next else .error .absent
  | some (.file _) => .error .notDirectory
  | none => .error .absent

def follow (d : Disk) (base : Place) (segments : List (List Char)) : Except Refusal Place :=
  segments.foldlM d.step base

def start (d : Disk) (p : Path) : Place := if p.isAbsolute then [] else d.here

def locate (d : Disk) (p : Path) : Except Refusal Place :=
  if p.text.isEmpty then .error .absent else d.follow (d.start p) p.segments

def look (d : Disk) (p : Path) : Option Entry :=
  match d.locate p with
  | .ok place => d.get? place
  | .error _ => none

def isPresent (d : Disk) (p : Path) : Bool := (d.look p).isSome

def isFile (d : Disk) (p : Path) : Bool :=
  match d.look p with
  | some (.file _) => true
  | _ => false

def isDirectory (d : Disk) (p : Path) : Bool := d.look p == some .directory

def read (d : Disk) (p : Path) : Except Refusal Content := do
  match d.get? (← d.locate p) with
  | some (.file content) => return content
  | some .directory => throw .isDirectory
  | none => throw .absent

def textAt? (d : Disk) (p : Path) : Option String :=
  match d.look p with
  | some (.file (.text s)) => some s
  | _ => none

def names (d : Disk) (base : Place) : List String :=
  d.entries.filterMap fun (p, _) => if p.dropLast = base then p.getLast? else none

def filesBelow (d : Disk) (base : Place) : List (Place × Content) :=
  d.entries.filterMap fun (p, e) =>
    match e with
    | .file content => if base.isPrefixOf p then some (p.drop base.length, content) else none
    | .directory => none

/-- The place that segments name below a directory, whether there is something or not. -/
def spot (d : Disk) (base : Place) (segments : List (List Char)) : Except Refusal Place := do
  let parent ← d.follow base segments.dropLast
  match d.get? parent, segments.getLast? with
  | some .directory, some last =>
    if isName last then return parent ++ [String.ofList last] else throw .isDirectory
  | some (.file _), _ => throw .notDirectory
  | _, _ => throw .absent

end Disk

def Place.onTheWay : Place → List Place
  | [] => [[]]
  | name :: rest => [] :: (Place.onTheWay rest).map (name :: ·)

def Place.path (p : Place) : Path :=
  ⟨String.ofList ('/' :: Text.join ['/'] (p.map String.toList))⟩

def Place.relative (p : Place) : Path := ⟨String.ofList (Text.join ['/'] (p.map String.toList))⟩

end Carve
