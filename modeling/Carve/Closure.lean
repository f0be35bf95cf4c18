import Carve.Index
import Carve.Policy
/-!
The closure of a declaration: everything it needs to compile, found by following references
breadth first. Declarations of the project are followed further, library types are not. When no
reference leads on, types that are not kept whole may still lack constructors without which what
is left of them does not compile; these are admitted as well and followed in turn.
-/

namespace Carve

inductive Diagnostic where
  | unresolved (source : QName) (name : String)
  | libraryLeft (library : Coordinate)
  | depthLimit (source target : QName)
  | testExcluded (source target : QName)
  deriving DecidableEq, Repr

namespace Diagnostic

def text : Diagnostic → String
  | unresolved source name =>
    "unresolved reference \x60" ++ name ++ "\x60 from \x60" ++ source.text ++ "\x60"
  | libraryLeft library =>
    "library \x60" ++ library.text ++ "\x60 is referenced, not expanded"
  | depthLimit source target =>
    "depth limit cuts \x60" ++ source.text ++ "\x60 -> \x60" ++ target.text ++ "\x60"
  | testExcluded source target =>
    "test-scope \x60" ++ target.text ++ "\x60 excluded (referenced from \x60" ++ source.text ++
      "\x60)"

def isUnresolved : Diagnostic → Bool
  | unresolved _ _ => true
  | _ => false

end Diagnostic

/-- A declaration of the closure and the length of a shortest way to it. -/
structure Admitted where
  decl : Declaration
  distance : Nat

namespace Closure

def addNew {α : Type} [DecidableEq α] (xs : List α) (a : α) : List α :=
  if a ∈ xs then xs else xs ++ [a]

structure Search where
  /-- In the order of admission, the root first. -/
  nodes : List Admitted := []
  /-- How many nodes have been followed. -/
  followed : Nat := 0
  incoming : List (QName × Reference.Kind) := []
  libraries : List Coordinate := []
  diagnostics : List Diagnostic := []

namespace Search

def has (s : Search) (id : QName) : Bool := s.nodes.any (·.decl.id == id)

def note (s : Search) (d : Diagnostic) : Search :=
  { s with diagnostics := addNew s.diagnostics d }

/-- Admits a declaration. A library is taken down and remarked upon the first time. -/
def enter (s : Search) (a : Admitted) : Search :=
  let s :=
    match a.decl.origin.coordinate? with
    | some c => { s.note (.libraryLeft c) with libraries := addNew s.libraries c }
    | none => s
  { s with nodes := s.nodes ++ [a] }

def reach (s : Search) (target : QName) (kind : Reference.Kind) : Search :=
  { s with incoming := (target, kind) :: s.incoming }

def kindsInto (s : Search) (id : QName) : List Reference.Kind :=
  (s.incoming.filter (·.1 == id)).map (·.2)

end Search

section

variable (p : Policy) (x : Index)

/-- Why a declaration may not be admitted from a node at this distance, if so. -/
def barrier (source : Admitted) (target : Declaration) : Option Diagnostic :=
  if target.isLibrary then none
  else if target.scope == .test && !p.includeTests then
    some (.testExcluded source.decl.id target.id)
  else if p.maxDepth.any fun limit => decide (limit ≤ source.distance) then
    some (.depthLimit source.decl.id target.id)
  else none

def follow (source : Admitted) (s : Search) (r : Reference) : Search :=
  match r.target with
  | none => s.note (.unresolved source.decl.id r.name)
  | some target =>
    if target == source.decl.id then s
    else if s.has target then s.reach target r.kind
    else
      match x.get? target with
      | none => s.note (.unresolved source.decl.id r.name)
      | some d =>
        match barrier p source d with
        | some remark => s.note remark
        | none => (s.reach target r.kind).enter ⟨d, source.distance + 1⟩

/-- Follows all references of the next node, a library type having none to follow. -/
def followNode (s : Search) (a : Admitted) : Search :=
  let s := { s with followed := s.followed + 1 }
  if a.decl.isLibrary then s else (x.references a.decl.id).foldl (follow p x a) s

def expand : Nat → Search → Search
  | 0, s => s
  | fuel + 1, s =>
    match s.nodes[s.followed]? with
    | none => s
    | some a => expand fuel (followNode p x s a)

/-- How much of a node is kept. Only constructors that came along for their type are reached by no
reference. -/
def inclusion (s : Search) (root : QName) (d : Declaration) : Inclusion :=
  if d.isLibrary then .external
  else if d.id == root then .full
  else p.inclusionForAll (s.kindsInto d.id)

/-- The types that nodes belong to, each with the least distance of a node of it. -/
def addOwner (owners : List (QName × Nat)) (a : Admitted) : List (QName × Nat) :=
  if a.decl.isLibrary then owners
  else
    let owner? := if a.decl.kind.isType then some a.decl.id else a.decl.parent
    match owner? with
    | none => owners
    | some owner =>
      if owners.any (·.1 == owner) then
        owners.map fun o => if o.1 == owner then (o.1, min o.2 a.distance) else o
      else owners ++ [(owner, a.distance)]

def owners (s : Search) : List (QName × Nat) := s.nodes.foldl addOwner []

def keptWhole (s : Search) (root owner : QName) : Bool :=
  match s.nodes.find? (·.decl.id == owner) with
  | some a => inclusion p s root a.decl == .full
  | none => false

/-- Whether what is kept of a type needs its constructors: constants of an enum pass arguments,
constructors call each other, and blank final fields are assigned in them. -/
def needsCtors (s : Search) (owner : Declaration) (members : List Declaration) : Bool :=
  owner.kind == .enumType ||
    members.any fun m =>
      match m.kind with
      | .ctor => m.outlines.any (·.ctorCall.isSome)
      | .field =>
        s.has m.id && (m.outline?.any fun o => o.isBlankFinal && !o.hasModifier "static")
      | _ => false

def missingCtors (s : Search) (root : QName) : List Admitted :=
  (owners s).flatMap fun (owner, distance) =>
    if keptWhole p s root owner then []
    else
      match x.get? owner with
      | none => []
      | some d =>
        let members := x.children owner
        let missing := members.filter fun m => m.kind == .ctor && !s.has m.id
        if needsCtors s d members then missing.map fun m => ⟨m, distance + 1⟩ else []

def complete (root : QName) : Nat → Search → Search
  | 0, s => s
  | fuel + 1, s =>
    let s := expand p x (x.nodes.length + 1) s
    match missingCtors p x s root with
    | [] => s
    | more => complete root fuel (more.foldl Search.enter s)

end

end Closure

/-- A declaration of a closure with how much of it is kept. -/
structure Member where
  decl : Declaration
  inclusion : Inclusion
  distance : Nat

structure Closure where
  root : QName
  members : List Member
  /-- The libraries that the closure needs, in the order of their first appearance. -/
  libraries : List Coordinate
  diagnostics : List Diagnostic

namespace Closure

def count (c : Closure) (i : Inclusion) : Nat := c.members.countP (·.inclusion == i)

def unresolvedCount (c : Closure) : Nat := c.diagnostics.countP (·.isUnresolved)

def member? (c : Closure) (id : QName) : Option Member := c.members.find? (·.decl.id == id)

def ofSearch (p : Policy) (root : QName) (s : Search) : Closure :=
  { root
    members := s.nodes.map fun a => ⟨a.decl, inclusion p s root a.decl, a.distance⟩
    libraries := s.libraries
    diagnostics := s.diagnostics }

def resolve (p : Policy) (x : Index) (root : String) : Except Fault Closure := do
  let d ← x.resolve root
  if d.isLibrary then
    throw (.invalidArgument (root ++ " is a library declaration and has no source"))
  let start := Search.enter {} ⟨d, 0⟩
  return ofSearch p d.id (complete p x d.id (x.nodes.length + 1) start)

end Closure

end Carve
