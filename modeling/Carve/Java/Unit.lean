import Carve.Java.Grammar.Declarations
import Carve.Java.Imports
import Carve.Java.Walk
/-!
Reading the declarations of one Java file. Types come before their members and members in source
order. Overloads share one entry, whose layout lists them all. The use sites of a declaration
count for every type around it, and those in the header of a type count for all it encloses.
-/

namespace Carve.Java

def typeKind? : Kind → Option Declaration.Kind
  | .classDeclaration => some .classType
  | .interfaceDeclaration => some .interfaceType
  | .enumDeclaration => some .enumType
  | .recordDeclaration => some .recordType
  | .annotationDeclaration => some .annotationType
  | _ => none

structure TypeFrame where
  id : QName
  /-- Where the type stands among the entries. -/
  index : Nat
  kind : Declaration.Kind
  header : List UseSite
  params : List String

structure Reader where
  source : List Char
  path : Path
  provenance : Provenance
  package : Option String
  frames : List TypeFrame := []
  entries : List Entry := []
  topLevel : List QName := []

namespace Reader

def indexOf? (r : Reader) (id : QName) : Option Nat := r.entries.findIdx? (·.decl.id == id)

def owner? (r : Reader) : Option TypeFrame := r.frames.getLast?

def inherited (r : Reader) : List UseSite := r.frames.flatMap (·.header)

/-- A walk below a declaration here, with the type parameters in scope hidden. -/
def walk (r : Reader) (params : List String) : Walk :=
  { hidden := r.frames.flatMap (·.params) ++ params }

def addSites (sites : List UseSite) (e : Entry) : Entry := { e with sites := e.sites ++ sites }

def propagate (r : Reader) (sites : List UseSite) : Reader :=
  { r with
    entries := r.frames.foldl (fun es f => es.modify f.index (addSites sites)) r.entries }

def declaration (r : Reader) (id : QName) (name : String) (kind : Declaration.Kind) (n : Node)
    (outline : Outline) : Declaration :=
  { id, name, kind
    origin := .project r.provenance.module
    scope := r.provenance.scope
    parent := r.owner?.map (·.id)
    location := some ⟨r.path, n.range, ⟨outline, []⟩⟩ }

def rename (id : QName) (e : Entry) : Entry := { e with decl := { e.decl with id } }

/-- A field and a method of one name cannot share it; the method takes its alias, whichever of
the two comes first. -/
def settleName (r : Reader) (d : Declaration) : Reader × Declaration :=
  match r.indexOf? d.id with
  | none => (r, d)
  | some i =>
    match r.entries[i]?.map (·.decl.kind) with
    | none => (r, d)
    | some existing =>
      if existing != d.kind && d.kind == .method then (r, { d with id := d.id.methodAlias })
      else if existing != d.kind && existing == .method then
        ({ r with entries := r.entries.modify i (rename d.id.methodAlias) }, d)
      else (r, d)

def addOverload (layout : Layout) (sites : List UseSite) (e : Entry) : Entry :=
  { e with
    sites := e.sites ++ sites
    decl := { e.decl with
      location := e.decl.location.map fun place =>
        { place with
          layout := { place.layout with overloads := place.layout.overloads ++ [layout] } } } }

/-- Adds a member. One of the same name and kind makes it an overload; one of another kind that
cannot give way keeps the name. -/
def addMember (r : Reader) (d : Declaration) (own : List UseSite) : Reader :=
  let r := r.propagate own
  let (r, d) := r.settleName d
  match r.indexOf? d.id with
  | some i =>
    if r.entries[i]?.map (·.decl.kind) == some d.kind then
      match d.location with
      | some place => { r with entries := r.entries.modify i (addOverload place.layout own) }
      | none => { r with entries := r.entries.modify i (addSites own) }
    else r
  | none => { r with entries := r.entries ++ [{ decl := d, sites := r.inherited ++ own }] }

def text (r : Reader) (n : Node) : String := n.text r.source

def modifierTexts (r : Reader) (n : Node) : List String :=
  match n.firstOf? .modifiers with
  | none => []
  | some mods => (mods.children.filter (·.kind != .annotationMark)).map r.text

def typeParameterNames (r : Reader) (n : Node) : List String :=
  match n.child? .typeParameters with
  | none => []
  | some params =>
    params.named.filterMap fun p =>
      (p.named.find? fun c => c.kind == .typeIdentifier || c.kind == .identifier).map r.text

def constantSpan? (body : Node) : Option Span :=
  if body.kind == .enumBody then
    let constants := body.children.filter (·.kind == .enumConstant)
    match constants.head?, constants.getLast? with
    | some first, some last => some ⟨first.span.start, last.span.stop⟩
    | _, _ => none
  else none

def listedSupertypes (n : Node) : List Node :=
  n.named.flatMap fun c =>
    match c.kind with
    | .superclass | .superInterfaces | .extendsInterfaces =>
      c.named.flatMap fun t => if t.kind == .typeList then t.named else [t]
    | _ => []

/-- The use sites in the header of a type: annotations, bounds, supertypes and components. -/
def headerSites (r : Reader) (n : Node) : List UseSite :=
  let w := r.walk (r.typeParameterNames n)
  let w := modifierAnnotations r.source n.children w
  let w :=
    match n.child? .typeParameters with
    | some params => typeParameterRefs r.source params w
    | none => w
  let w := n.named.foldl (fun w c =>
    match c.kind with
    | .superclass | .superInterfaces | .extendsInterfaces =>
      (c.named.flatMap fun t => if t.kind == .typeList then t.named else [t]).foldl
        (fun w t => typeRefs r.source .supertype t w) w
    | .formalParameters => visitParameters r.source c w
    | _ => w) w
  w.sites

def callableSites (r : Reader) (n : Node) : List UseSite :=
  let s := r.source
  let w := r.walk (r.typeParameterNames n)
  let w := modifierAnnotations s n.children w
  let w := match n.child? .typeParameters with | some c => typeParameterRefs s c w | none => w
  let w := match n.child? .type with | some c => typeRefs s .typeUse c w | none => w
  let w := match n.child? .parameters with | some c => visitParameters s c w | none => w
  let w :=
    match n.firstOf? .throws with
    | some c => c.named.foldl (fun w t => typeRefs s .throws t w) w
    | none => w
  let w := match n.child? .body with | some c => visit s c w | none => w
  let w := match n.child? .value with | some c => visit s c w | none => w
  w.sites

/-- The leading constructor call of a body, if nothing but it comes first. -/
def ctorCall? (body : Node) : Option Span :=
  match body.named.head? with
  | some first => if first.kind == .ctorInvocation then some first.span else none
  | none => none

def readCallable (r : Reader) (kind : Declaration.Kind) (n : Node) : Reader :=
  match r.owner? with
  | none => r
  | some owner =>
    let identity : Option (QName × String) :=
      if kind == .ctor then some (owner.id.ctor, owner.id.simple)
      else (n.child? .name).map fun c => (owner.id.member (r.text c), r.text c)
    match identity with
    | none => r
    | some (id, name) =>
      let body := n.child? .body
      let outline : Outline :=
        { span := n.span
          body := body.map (·.span)
          ctorCall := body.bind ctorCall?
          modifiers := r.modifierTexts n
          typeText := (n.child? .type).map r.text }
      r.addMember (r.declaration id name kind n outline) (r.callableSites n)

def readDeclarator (n : Node) (count : Nat) (owner : QName) (r : Reader) (d : Node) : Reader :=
  match d.child? .name with
  | none => r
  | some nameNode =>
    let s := r.source
    let w := modifierAnnotations s n.children (r.walk [])
    let w := match n.child? .type with | some c => typeRefs s .typeUse c w | none => w
    let value := d.child? .value
    let w := match value with | some c => visit s c w | none => w
    let initializer :=
      match count, value with
      | 1, some v => some ⟨((d.child? .dimensions).getD nameNode).span.stop, v.span.stop⟩
      | _, _ => none
    let outline : Outline :=
      { span := n.span
        initializer
        modifiers := r.modifierTexts n
        typeText := (n.child? .type).map r.text
        declarators := count }
    let name := r.text nameNode
    r.addMember (r.declaration (owner.member name) name .field n outline) w.sites

def readField (r : Reader) (n : Node) : Reader :=
  match r.owner? with
  | none => r
  | some owner =>
    let ds := n.childrenIn .declarator
    ds.foldl (readDeclarator n ds.length owner.id) r

/-- Enum constants are fields of the type they belong to. -/
def readConstant (r : Reader) (n : Node) : Reader :=
  match r.owner?, n.child? .name with
  | some owner, some nameNode =>
    if owner.kind == .enumType then
      let s := r.source
      let w := modifierAnnotations s n.children (r.walk [])
      let w := match n.child? .arguments with | some c => visit s c w | none => w
      let w := match n.child? .body with | some c => visit s c w | none => w
      let outline : Outline :=
        { span := n.span
          modifiers := ["public", "static", "final"]
          typeText := some owner.id.simple
          declarators := 1 }
      let name := r.text nameNode
      r.addMember (r.declaration (owner.id.member name) name .field n outline) w.sites
    else r
  | _, _ => r

/-- Initializer blocks declare nothing, but their sites count for the types around. -/
def readInitializer (r : Reader) (n : Node) : Reader :=
  r.propagate (visit r.source n (r.walk [])).sites

def typeId (r : Reader) (name : String) : QName :=
  match r.owner?, r.package with
  | some owner, _ => owner.id.member name
  | none, some package => QName.member ⟨package⟩ name
  | none, none => ⟨name⟩

/-- Adds a type and makes it the innermost one; nothing if its name is taken. -/
def openType? (r : Reader) (kind : Declaration.Kind) (n : Node) : Option Reader := do
  let nameNode ← n.child? .name
  let name := r.text nameNode
  let id := r.typeId name
  if (r.indexOf? id).isSome then none
  else
    let header := r.headerSites n
    let body := n.child? .body
    let outline : Outline :=
      { span := n.span
        body := body.map (·.span)
        constants := body.bind constantSpan?
        modifiers := r.modifierTexts n }
    let entry : Entry :=
      { decl := r.declaration id name kind n outline
        supertypes := (listedSupertypes n).map fun t => stripGenerics (r.text t)
        sites := r.inherited ++ header }
    let propagated := r.propagate header
    return { propagated with
      entries := propagated.entries ++ [entry]
      topLevel := if r.frames.isEmpty then r.topLevel ++ [id] else r.topLevel
      frames := r.frames ++
        [⟨id, r.entries.length, kind, header, r.typeParameterNames n⟩] }

def closeType (r : Reader) : Reader := { r with frames := r.frames.dropLast }

mutual
def readMember : Node → Reader → Reader
  | .mk k role e cs, r =>
    let n : Node := .mk k role e cs
    match k with
    | .methodDeclaration | .elementDeclaration => r.readCallable .method n
    | .ctorDeclaration | .compactCtorDeclaration => r.readCallable .ctor n
    | .fieldDeclaration => r.readField n
    | .enumConstant => r.readConstant n
    | .enumMembers => readMembers cs r
    | .staticInitializer | .block => r.readInitializer n
    | _ =>
      match typeKind? k with
      | some kind =>
        match r.openType? kind n with
        | some inner => (readBody cs inner).closeType
        | none => r
      | none => r

def readMembers : List Node → Reader → Reader
  | [], r => r
  | n :: ns, r => readMembers ns (readMember n r)

def readBody : List Node → Reader → Reader
  | [], r => r
  | .mk _ role _ inner :: ns, r =>
    if role == some .body then readMembers inner r else readBody ns r
end

def start (root : Node) (text : String) (path : Path) (provenance : Provenance) : Reader :=
  { source := text.toList, path, provenance, package := (readImports text.toList root).package }

end Reader

def Node.topTypes (root : Node) : List Node :=
  root.children.filter fun n => (typeKind? n.kind).isSome

/-- Reads the file whose text has this tree. Only types at the top are read; they hold everything
else. -/
def readTree (root : Node) (text : String) (path : Path) (provenance : Provenance) : SourceFile :=
  let r := Reader.readMembers root.topTypes (Reader.start root text path provenance)
  { path, imports := readImports text.toList root, text, topLevel := r.topLevel
    entries := r.entries }

def readSource (text : String) (path : Path) (provenance : Provenance) : SourceFile :=
  readTree (parse text.toList) text path provenance

end Carve.Java
