import Carve.Index
import Carve.Java.Binding
import Carve.Java.Unit
/-!
Building the index of a set of source files: all files are read, a table of all their declarations
is made, and then every use site is bound by that table. Library types enter the index after the
declarations of the project, in the order of their first use.
-/

namespace Carve

structure SourceText where
  path : Path
  text : String
  provenance : Provenance

namespace Index

/-- Java sources are told by their extension, in capital or small letters. -/
def accepts (p : Path) : Bool := p.hasExtension "java"

def readAll (sources : List SourceText) : List SourceFile :=
  (sources.filter (accepts ·.path)).map fun s => Java.readSource s.text s.path s.provenance

def unitOf (f : SourceFile) : SourceUnit := ⟨f.path, f.imports.package, f.text, f.topLevel⟩

def addFile (t : Table) (x : Index) (f : SourceFile) : Index :=
  f.entries.foldl (fun x e =>
    match t.declaration? e.decl.id.text with
    | some d => x.addDeclaration d
    | none => x) (x.addUnit (unitOf f))

def bindAll (t : Table) (files : List SourceFile) : List (QName × Java.Collected) :=
  files.flatMap fun f => f.entries.map fun e =>
    (e.decl.id, Java.collect t e.decl f.imports e.sites)

def ofFiles (root : Path) (files : List SourceFile) (catalog : Catalog) : Index :=
  let t := Table.ofFiles files catalog
  let bound := bindAll t files
  let x := files.foldl (addFile t) (empty root)
  let x := (bound.flatMap (·.2.libraries)).foldl addDeclaration x
  (Reference.keepFirst (·.1) [] bound).foldl (fun x (id, c) => x.setReferences id c.references) x

/-- Of several declarations of one name the first is kept with the references of its own text. -/
def ofSources (root : Path) (sources : List SourceText) (catalog : Catalog) : Index :=
  ofFiles root (readAll sources) catalog

end Index

end Carve
