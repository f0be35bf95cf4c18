import Carve.Disk.Basic
import Carve.Fault
import Carve.Ignore.Rules
import Carve.Indexing
import Carve.Project
/-!
The source files of a project on disk. A file is passed over when it or a directory on its way from
the root of the project is hidden or ignored. Ignore files count from the directory they lie in
downwards, also those above the project, and a nearer one goes before a farther one; those of a
version control count only within a versioned directory.
-/

namespace Carve

structure IgnoreLayer where
  place : Place
  plain : List Ignore.Rule
  versioned : List Ignore.Rule
  excluded : List Ignore.Rule
  isVersioned : Bool

namespace IgnoreLayer

def rulesAt (d : Disk) (p : Place) : List Ignore.Rule :=
  match d.get? p with
  | some (.file (.text s)) => Ignore.parse s
  | _ => []

/-- Either of these in a directory begins a versioned tree. -/
def versionMarks : List String := [".git", ".jj"]

def ofDirectory (d : Disk) (p : Place) : IgnoreLayer where
  place := p
  plain := rulesAt d (p ++ [".ignore"])
  versioned := rulesAt d (p ++ [".gitignore"])
  excluded := rulesAt d (p ++ [".git", "info", "exclude"])
  isVersioned := versionMarks.any fun m => (d.get? (p ++ [m])).isSome

/-- The layers of a directory and all above it, the nearest first. -/
def around (d : Disk) (p : Place) : List IgnoreLayer := ((Place.onTheWay p).map (ofDirectory d)).reverse

def versionedPart : List IgnoreLayer → List IgnoreLayer
  | [] => []
  | l :: rest => if l.isVersioned then [l] else l :: versionedPart rest

def verdict (layers : List IgnoreLayer) (p : Place) (directory : Bool) : Option Ignore.Verdict :=
  let first (rules : IgnoreLayer → List Ignore.Rule) (ls : List IgnoreLayer) :=
    ls.findSome? fun l => Ignore.judge (rules l) (p.drop l.place.length) directory
  let part := if layers.any (·.isVersioned) then versionedPart layers else []
  first (·.plain) layers <|> first (·.versioned) part <|> first (·.excluded) part

end IgnoreLayer

namespace Disk

def isHidden (p : Place) : Bool := (p.getLastD "").toList.head? == some '.'

/-- Whether a walk passes over a place once it has come to the directory around it. -/
def passesOver (d : Disk) (p : Place) : Bool :=
  let layers := IgnoreLayer.around d p.dropLast
  match IgnoreLayer.verdict layers p (d.get? p == some .directory) with
  | some .ignored => true
  | some .kept => false
  | none => isHidden p

def isReached (d : Disk) (root rest : Place) : Bool :=
  (Place.onTheWay rest).all fun way => way.isEmpty || !d.passesOver (root ++ way)

def scan (d : Disk) (root : Path) : Except Fault (List SourceText) :=
  match d.isDirectory root, d.locate root with
  | true, .ok base =>
    let reached := (d.filesBelow base).filter fun (rest, _) => d.isReached base rest
    let sources := reached.filterMap fun (rest, content) =>
      let path := root.join rest.relative
      match content with
      | .text s =>
        if Index.accepts path then some ⟨path, s, ⟨moduleOf d.isFile root path, path.scope⟩⟩
        else none
      | .binary _ => none
    .ok (Index.sortBy (fun s t => s.path.before t.path) sources)
  | _, _ => .error (.io ("project root " ++ root.text ++ " is not a directory"))

end Disk

end Carve
