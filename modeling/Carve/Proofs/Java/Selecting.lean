import Carve.Proofs.Index.Order
import Carve.Proofs.Java.Members
import Carve.Proofs.Java.Outermost
import Carve.Proofs.Java.Planning
import Carve.Proofs.Plan.Standing

/-!
# Plans and what is selected

A plan has one piece for each declaration that is selected, unless a type around that is kept in
full and has it in its text. Whatever else is in a plan is a shell of such pieces.
-/

namespace Carve.Java

open QName Plan

section

variable {sources : List SourceText} {root : Path} {catalog : Catalog} {f : SourceFile}
  {sel : Selection} {D T : Entry} {d : Declaration} {p : Piece}

theorem entry_eq (h : Index.NamedOnce (Index.readAll sources)) (hf : f ∈ Index.readAll sources)
    (hD : D ∈ f.entries) (hT : T ∈ f.entries) (hid : D.decl.id = T.decl.id) : D = T :=
  List.inj_on_of_nodup_map h (List.mem_flatMap.mpr ⟨f, hf, hD⟩) (List.mem_flatMap.mpr ⟨f, hf, hT⟩)
    hid

theorem mem_nodes (h : Index.NamedOnce (Index.readAll sources)) (hf : f ∈ Index.readAll sources)
    (hD : D ∈ f.entries) : D.decl ∈ (Index.ofSources root sources catalog).nodes.map (·.decl) :=
  (Index.get?_some (h.get? hf hD)).1

end

end Carve.Java
