import Carve.Indexing
import Carve.Proofs.Index.Building
import Carve.Proofs.Table

/-!
# Indices of source files

Indexing files is a run of operations like any other: the declarations of the files come first,
then the library types, then the references.
-/

namespace Carve.Index

/-- What a file asks an index to take in. -/
def operationsOf (t : Table) (f : SourceFile) : List Operation :=
  .unit (unitOf f) ::
    f.entries.filterMap fun e => (t.declaration? e.decl.id.text).map .declaration

def operations (files : List SourceFile) (catalog : Catalog) : List Operation :=
  let t := Table.ofFiles files catalog
  let bound := bindAll t files
  files.flatMap (operationsOf t) ++ (bound.flatMap (·.2.libraries)).map .declaration ++
    (Reference.keepFirst (·.1) [] bound).map fun (id, c) => .references id c.references

theorem addFile_eq_perform (t : Table) (x : Index) (f : SourceFile) :
    addFile t x f = (operationsOf t f).foldl perform x := by
  unfold addFile operationsOf
  rw [List.foldl_cons, List.foldl_filterMap]
  refine congrFun (congrArg₂ _ (funext fun y => funext fun e => ?_) rfl) _
  cases t.declaration? e.decl.id.text <;> rfl

theorem ofFiles_eq_build (root : Path) (files : List SourceFile) (catalog : Catalog) :
    ofFiles root files catalog = build root (operations files catalog) := by
  have hfiles : ∀ (t : Table) (x : Index),
      files.foldl (addFile t) x = (files.flatMap (operationsOf t)).foldl perform x := by
    intro t x
    rw [List.foldl_flatMap]
    exact congrFun (congrArg₂ _ (funext fun y => funext fun f => addFile_eq_perform t y f) rfl) _
  unfold ofFiles build operations
  dsimp only
  rw [List.foldl_append, List.foldl_append, List.foldl_map, List.foldl_map, ← hfiles]
  rfl

theorem ofFiles_distinct (root : Path) (files : List SourceFile) (catalog : Catalog) :
    (ofFiles root files catalog).Distinct :=
  ofFiles_eq_build root files catalog ▸ build_distinct _ _

end Carve.Index
