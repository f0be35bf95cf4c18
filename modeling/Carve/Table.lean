import Carve.Catalog
import Carve.UseSite
/-!
The declarations of all files of a project, to look names up while use sites are bound. Of several
declarations of one name the first is kept.
-/

namespace Carve

structure Table where
  rows : List (Entry × Imports) := []
  packages : List String := []
  catalog : Catalog := {}

namespace Table

def row? (t : Table) (id : String) : Option (Entry × Imports) :=
  t.rows.find? fun row => row.1.decl.id.text == id

def addEntry (imports : Imports) (t : Table) (e : Entry) : Table :=
  match t.row? e.decl.id.text with
  | some _ => t
  | none => { t with rows := t.rows ++ [(e, imports)] }

def addFile (t : Table) (f : SourceFile) : Table :=
  let t :=
    match f.imports.package with
    | some package =>
      if t.packages.contains package then t else { t with packages := t.packages ++ [package] }
    | none => t
  f.entries.foldl (addEntry f.imports) t

def ofFiles (files : List SourceFile) (catalog : Catalog) : Table :=
  files.foldl addFile { catalog }

def size (t : Table) : Nat := t.rows.length

def declaration? (t : Table) (id : String) : Option Declaration :=
  (t.row? id).map (·.1.decl)

def imports? (t : Table) (id : QName) : Option Imports := (t.row? id.text).map (·.2)

/-- The supertypes of a project type as its header names them. -/
def supertypes (t : Table) (id : QName) : List String :=
  ((t.row? id.text).map (·.1.supertypes)).getD []

def methodsNamed (t : Table) (name : String) : List QName :=
  (t.rows.filter fun row => row.1.decl.kind == .method && row.1.decl.name == name).map
    (·.1.decl.id)

def isProjectPackage (t : Table) (package : String) : Bool := t.packages.contains package

def libraryFor? (t : Table) (package : String) : Option Coordinate := t.catalog.lookup? package

end Table

end Carve
