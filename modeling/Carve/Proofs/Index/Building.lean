import Carve.Index
import Mathlib.Data.List.Nodup
import Mathlib.Data.List.Perm.Subperm

/-!
# Indices under construction

An index comes about by a run of operations in any order. Whatever the run, no two declarations
of the index share a name, so that a name stands for one declaration and a list of names without
repetition is no longer than the index.
-/

namespace Carve.Index

/-- What an index under construction can be asked to take in. -/
inductive Operation where
  | unit (u : SourceUnit)
  | declaration (d : Declaration)
  | references (source : QName) (rs : List Reference)

def perform (x : Index) : Operation → Index
  | .unit u => x.addUnit u
  | .declaration d => x.addDeclaration d
  | .references source rs => x.setReferences source rs

def build (root : Path) (ops : List Operation) : Index := ops.foldl perform (empty root)

def Distinct (x : Index) : Prop := (x.nodes.map (·.decl.id)).Nodup

theorem find?_eq_none_iff (x : Index) (id : QName) :
    x.find? id = none ↔ id ∉ x.nodes.map (·.decl.id) := by
  simp [find?, List.findIdx?_eq_none_iff]

theorem foldl_addEdge_nodes (source : QName) (rs : List Reference) (x : Index) :
    (rs.foldl (addEdge source) x).nodes = x.nodes := by
  induction rs generalizing x with
  | nil => rfl
  | cons r rs ih =>
    rw [List.foldl_cons, ih]
    unfold addEdge
    split
    · rfl
    · dsimp only
      split <;> rfl

theorem setReferences_ids (x : Index) (source : QName) (rs : List Reference) :
    (x.setReferences source rs).nodes.map (·.decl.id) = x.nodes.map (·.decl.id) := by
  unfold setReferences
  split
  · rfl
  · apply List.ext_getElem?
    intro j
    simp only [foldl_addEdge_nodes, List.getElem?_map, List.getElem?_modify]
    cases x.nodes[j]? with
    | none => rfl
    | some n => simp only [Option.map_some]; split <;> rfl

theorem distinct_addDeclaration {x : Index} (h : x.Distinct) (d : Declaration) :
    (x.addDeclaration d).Distinct := by
  unfold addDeclaration
  split
  · exact h
  · rename_i hfree
    have hnew := (find?_eq_none_iff x d.id).mp hfree
    unfold Distinct at h ⊢
    rw [List.map_append, List.nodup_append]
    refine ⟨h, by simp, ?_⟩
    intro a ha b hb hab
    simp only [List.map_cons, List.map_nil, List.mem_singleton] at hb
    exact hnew (hb ▸ hab ▸ ha)

theorem perform_preserves_distinct {x : Index} (h : x.Distinct) (op : Operation) :
    (x.perform op).Distinct := by
  cases op with
  | unit u => exact h
  | declaration d => exact distinct_addDeclaration h d
  | references source rs =>
    unfold Distinct
    rw [perform, setReferences_ids]
    exact h

theorem build_distinct (root : Path) (ops : List Operation) : (build root ops).Distinct := by
  have main : ∀ x : Index, x.Distinct → (ops.foldl perform x).Distinct := by
    induction ops with
    | nil => exact fun _ h => h
    | cons op ops ih => exact fun x h => ih _ (perform_preserves_distinct h op)
  exact main _ List.nodup_nil

theorem node?_some {x : Index} {id : QName} {n : Indexed} (h : x.node? id = some n) :
    n ∈ x.nodes ∧ n.decl.id = id := by
  unfold node? at h
  exact ⟨List.mem_of_find?_eq_some h, by simpa using List.find?_some h⟩

/-- A declaration is found under its own name only. -/
theorem get?_some {x : Index} {id : QName} {d : Declaration} (h : x.get? id = some d) :
    d ∈ x.nodes.map (·.decl) ∧ d.id = id := by
  obtain ⟨n, hn, rfl⟩ := Option.map_eq_some_iff.mp h
  obtain ⟨hm, hid⟩ := node?_some hn
  exact ⟨List.mem_map_of_mem hm, hid⟩

theorem resolve_of_get? {x : Index} {id : QName} {d : Declaration} (h : x.get? id = some d) :
    x.resolve id.text = .ok d := by
  unfold resolve
  rw [h]

theorem get?_of_mem {x : Index} (h : x.Distinct) {d : Declaration}
    (hd : d ∈ x.nodes.map (·.decl)) : x.get? d.id = some d := by
  obtain ⟨n, hn, rfl⟩ := List.mem_map.mp hd
  obtain ⟨m, hm⟩ : ∃ m, x.node? n.decl.id = some m := by
    unfold node?
    cases hf : x.nodes.find? (·.decl.id == n.decl.id) with
    | some m => exact ⟨m, rfl⟩
    | none =>
      have := List.find?_eq_none.mp hf n hn
      simp at this
  obtain ⟨hmem, hid⟩ := node?_some hm
  have : m = n := List.inj_on_of_nodup_map h hmem hn hid
  simp [get?, hm, this]

theorem mem_children {x : Index} {owner : QName} {d : Declaration} :
    d ∈ x.children owner ↔ d ∈ x.nodes.map (·.decl) ∧ d.parent = some owner := by
  simp only [children, List.mem_map, List.mem_filter, beq_iff_eq]
  constructor
  · rintro ⟨n, ⟨hn, hp⟩, rfl⟩; exact ⟨⟨n, hn, rfl⟩, hp⟩
  · rintro ⟨⟨n, hn, rfl⟩, hp⟩; exact ⟨n, ⟨hn, hp⟩, rfl⟩

theorem nodup_children {x : Index} (h : x.Distinct) (owner : QName) :
    ((x.children owner).map (·.id)).Nodup := by
  unfold Distinct at h
  simp only [children, List.map_map, Function.comp_def]
  exact h.sublist (List.filter_sublist.map _)

theorem length_le_of_indexed {x : Index} {ids : List QName} (h : ids.Nodup)
    (hx : ∀ id ∈ ids, (x.get? id).isSome) : ids.length ≤ x.nodes.length := by
  have hsub : ids ⊆ x.nodes.map (·.decl.id) := by
    intro id hid
    obtain ⟨d, hd⟩ := Option.isSome_iff_exists.mp (hx id hid)
    obtain ⟨hm, rfl⟩ := get?_some hd
    obtain ⟨n, hn, rfl⟩ := List.mem_map.mp hm
    exact List.mem_map_of_mem hn
  simpa using (h.subperm hsub).length_le

end Carve.Index
