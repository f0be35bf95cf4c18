import Carve.UseSite
/-!
The index of a project: its declarations in the order of their addition, the references bound for
each, and the texts of its files. Declarations are added first and references afterwards; an edge
joins two declarations that the index knew when the reference was set.
-/

namespace Carve

structure SourceUnit where
  path : Path
  package : Option String := none
  text : String
  topLevel : List QName := []
  deriving DecidableEq, Repr

structure Indexed where
  decl : Declaration
  references : List Reference := []

structure Edge where
  source : QName
  target : QName
  kind : Reference.Kind
  deriving DecidableEq, Repr

structure Index where
  root : Path
  nodes : List Indexed := []
  edges : List Edge := []
  /-- Each file under the path by which it was first named. -/
  files : List (Path × SourceUnit) := []

namespace Index

def empty (root : Path) : Index := { root }

def find? (x : Index) (id : QName) : Option Nat := x.nodes.findIdx? (·.decl.id == id)

def node? (x : Index) (id : QName) : Option Indexed := x.nodes.find? (·.decl.id == id)

def get? (x : Index) (id : QName) : Option Declaration := (x.node? id).map (·.decl)

def references (x : Index) (id : QName) : List Reference :=
  ((x.node? id).map (·.references)).getD []

def children (x : Index) (id : QName) : List Declaration :=
  (x.nodes.filter fun n => n.decl.parent == some id).map (·.decl)

def setFile (unit : SourceUnit) : List (Path × SourceUnit) → List (Path × SourceUnit)
  | [] => [(unit.path, unit)]
  | (p, u) :: rest =>
    if p.Same unit.path then (p, unit) :: rest else (p, u) :: setFile unit rest

def addUnit (x : Index) (unit : SourceUnit) : Index := { x with files := setFile unit x.files }

def hasFile (x : Index) (p : Path) : Bool := x.files.any fun f => decide (f.1.Same p)

/-- Adds a declaration unless its name is taken. A file that has no text yet is empty. -/
def addDeclaration (x : Index) (d : Declaration) : Index :=
  match x.find? d.id with
  | some _ => x
  | none =>
    let files :=
      match d.path? with
      | some p => if x.hasFile p then x.files else x.files ++ [(p, { path := p, text := "" })]
      | none => x.files
    { x with nodes := x.nodes ++ [{ decl := d }], files }

def addEdge (source : QName) (x : Index) (r : Reference) : Index :=
  match r.target with
  | none => x
  | some target =>
    let e : Edge := ⟨source, target, r.kind⟩
    if (x.find? target).isSome && !x.edges.contains e then { x with edges := x.edges ++ [e] }
    else x

/-- Replaces the references of a known declaration. Edges that earlier references made stay. -/
def setReferences (x : Index) (source : QName) (rs : List Reference) : Index :=
  match x.find? source with
  | none => x
  | some i =>
    let x := rs.foldl (addEdge source) x
    { x with nodes := x.nodes.modify i fun n => { n with references := rs } }

def resolve (x : Index) (id : String) : Except Fault Declaration :=
  match x.get? ⟨id⟩ with
  | some d => .ok d
  | none => .error (.notFound id)

def insertBy {α : Type} (before : α → α → Bool) (a : α) : List α → List α
  | [] => [a]
  | b :: bs => if before b a then b :: insertBy before a bs else a :: b :: bs

def sortBy {α : Type} (before : α → α → Bool) : List α → List α
  | [] => []
  | a :: as => insertBy before a (sortBy before as)

def edgeBefore (a b : Edge) : Bool :=
  a.source.before b.source || (a.source == b.source && decide (a.kind.rank < b.kind.rank))

/-- Who refers to a declaration and how, sorted by name and then by kind. -/
def referrers (x : Index) (id : QName) : List (QName × Reference.Kind) :=
  match x.find? id with
  | none => []
  | some _ =>
    (sortBy edgeBefore (x.edges.filter (·.target == id))).map fun e => (e.source, e.kind)

def filePaths (x : Index) : List Path := sortBy Path.before (x.files.map (·.1))

/-- The file of that path, of that path below the root, or the only file whose path ends so. -/
def file? (x : Index) (p : Path) : Option (Path × SourceUnit) :=
  match x.files.find? fun f => decide (f.1.Same p) with
  | some f => some f
  | none =>
    if p.isAbsolute then none
    else
      match x.files.find? fun f => decide (f.1.Same (x.root.join p)) with
      | some f => some f
      | none =>
        match x.files.filter fun f => f.1.endsWith p with
        | [only] => some only
        | _ => none

def unit? (x : Index) (p : Path) : Option SourceUnit := (x.file? p).map (·.2)

def declarationsIn (x : Index) (p : Path) : List Declaration :=
  (x.nodes.map (·.decl)).filter fun d =>
    match d.path? with
    | some q => decide (q.Same p)
    | none => false

/-- The smaller of two declarations by length of text, the first of equally long ones. -/
def smaller (best : Option Declaration) (d : Declaration) : Option Declaration :=
  match best, d.outline? with
  | none, _ => some d
  | some _, none => best
  | some b, some o =>
    match b.outline? with
    | some p => if o.span.length < p.span.length then some d else best
    | none => some d

/-- The innermost declaration whose range contains a place of a file. -/
def resolveSite (x : Index) (p : Path) (line col : Nat) : Except Fault Declaration :=
  match x.file? p with
  | none => .error (.notFound p.text)
  | some (key, _) =>
    let inside := (x.declarationsIn key).filter fun d =>
      match d.location with
      | some place => decide (place.range.Contains line col)
      | none => false
    match inside.foldl smaller none with
    | some d => .ok d
    | none =>
      .error (.notFound (p.text ++ ":" ++ toString (line + 1) ++ ":" ++ toString (col + 1)))

/-- The own text of a project declaration, each overload on a line of its own. -/
def sourceText? (x : Index) (id : QName) : Option String := do
  let d ← x.get? id
  let place ← d.location
  let unit ← (x.files.find? fun f => decide (f.1.Same place.path)).map (·.2)
  let own ← place.layout.own.span.slice? unit.text
  let more := place.layout.overloads.filterMap fun l => l.own.span.slice? unit.text
  return more.foldl (fun text piece => text ++ "\n" ++ piece) own

end Index

end Carve
