import Carve.Proofs.Index.Lookup
import Mathlib.Data.List.Sort
import Mathlib.Data.String.Basic

/-!
# References and referrers

The references of a declaration are set once, when all declarations are there. The edges of the
index then mirror the references: there is one for every kind in which a declaration refers to a
known one. The referrers of a declaration are its edges in order.
-/

namespace Carve.Index

section

variable {x : Index} {source id : QName} {rs : List Reference} {r : Reference} {e : Edge}

theorem find?_isSome (x : Index) (id : QName) : (x.find? id).isSome = (x.get? id).isSome := by
  rw [Bool.eq_iff_iff]
  simp [find?, get?, node?]

theorem find?_modify {nodes : List Indexed} {i : Nat}
    (hi : nodes.findIdx? (·.decl.id == source) = some i) :
    (nodes.modify i fun n => { n with references := rs }).find? (·.decl.id == id) =
      (nodes.find? (·.decl.id == id)).map fun n =>
        if id = source then { n with references := rs } else n := by
  induction nodes generalizing i with
  | nil => cases hi
  | cons n nodes ih =>
    rw [List.findIdx?_cons] at hi
    by_cases hn : n.decl.id = source
    · rw [if_pos (by simpa using hn)] at hi
      obtain rfl := Option.some.inj hi
      rw [List.modify_zero_cons]
      by_cases hid : id = source
      · have hsame : n.decl.id = id := hn.trans hid.symm
        simp [hsame, hid]
      · have hne : n.decl.id ≠ id := fun h => hid (h.symm.trans hn)
        simp [hne, hid]
    · rw [if_neg (by simpa using hn)] at hi
      obtain ⟨j, hj, rfl⟩ := Option.map_eq_some_iff.mp hi
      rw [List.modify_succ_cons]
      by_cases hid : n.decl.id = id
      · have hne : id ≠ source := hid ▸ hn
        simp [hid, hne]
      · rw [List.find?_cons_of_neg (by simpa using hid), ih hj,
          List.find?_cons_of_neg (by simpa using hid)]

theorem setReferences_get? (x : Index) (source : QName) (rs : List Reference) (id : QName) :
    (x.setReferences source rs).get? id = x.get? id := by
  rw [get?_eq_find?, get?_eq_find?, setReferences_decls]

theorem setReferences_references (h : (x.get? source).isSome) (rs : List Reference) (id : QName) :
    (x.setReferences source rs).references id = if id = source then rs else x.references id := by
  rw [← find?_isSome] at h
  obtain ⟨i, hi⟩ := Option.isSome_iff_exists.mp h
  have hnode : (x.setReferences source rs).node? id = (x.node? id).map fun n =>
      if id = source then { n with references := rs } else n := by
    unfold setReferences node?
    simp only [hi, foldl_addEdge_nodes]
    exact find?_modify hi
  unfold references
  rw [hnode]
  by_cases hid : id = source
  · obtain ⟨n, hn⟩ : ∃ n, x.node? id = some n := by
      rw [find?_isSome, get?, Option.isSome_map] at h
      exact Option.isSome_iff_exists.mp (hid ▸ h)
    rw [hn, if_pos hid]
    simp [hid]
  · simp [hid]

/-! ### Edges -/

/-- The edge that a reference of the source makes, if its target is known. -/
def Makes (x : Index) (source : QName) (r : Reference) (e : Edge) : Prop :=
  e.source = source ∧ (x.get? e.target).isSome ∧ r.target = some e.target ∧ r.kind = e.kind

theorem mem_addEdge : e ∈ (addEdge source x r).edges ↔ e ∈ x.edges ∨ Makes x source r e := by
  unfold addEdge Makes
  cases htarget : r.target with
  | none => simp
  | some target =>
    dsimp only
    rw [find?_isSome]
    obtain ⟨s, t, k⟩ := e
    split
    · rename_i hnew
      rw [Bool.and_eq_true] at hnew
      simp only [List.mem_append, List.mem_singleton, Edge.mk.injEq, Option.some.injEq]
      refine or_congr_right ⟨?_, ?_⟩
      · rintro ⟨rfl, rfl, rfl⟩
        exact ⟨rfl, hnew.1, rfl, rfl⟩
      · rintro ⟨rfl, -, rfl, rfl⟩
        exact ⟨rfl, rfl, rfl⟩
    · rename_i hold
      simp only [Option.some.injEq]
      refine ⟨Or.inl, ?_⟩
      rintro (hmem | ⟨rfl, hknown, rfl, rfl⟩)
      · exact hmem
      · simpa [hknown] using hold

theorem nodup_addEdge (h : x.edges.Nodup) : (addEdge source x r).edges.Nodup := by
  unfold addEdge
  cases r.target with
  | none => exact h
  | some target =>
    dsimp only
    split
    · rename_i hnew
      rw [Bool.and_eq_true] at hnew
      have hconcat := h.concat (a := ⟨source, target, r.kind⟩) (by simpa using hnew.2)
      rwa [List.concat_eq_append] at hconcat
    · exact h

theorem foldl_addEdge_get? (source : QName) (rs : List Reference) (x : Index) (id : QName) :
    (rs.foldl (addEdge source) x).get? id = x.get? id := by
  rw [get?_eq_find?, get?_eq_find?, foldl_addEdge_nodes]

theorem mem_foldl_addEdge : e ∈ (rs.foldl (addEdge source) x).edges ↔
    e ∈ x.edges ∨ ∃ r ∈ rs, Makes x source r e := by
  induction rs generalizing x with
  | nil => simp
  | cons r rs ih =>
    have hstep : ∀ r', Makes (addEdge source x r) source r' e ↔ Makes x source r' e := by
      intro r'
      unfold Makes
      rw [show (addEdge source x r).get? e.target = x.get? e.target from
        foldl_addEdge_get? source [r] x e.target]
    rw [List.foldl_cons, ih, mem_addEdge, or_assoc, List.exists_mem_cons_iff]
    simp only [hstep]

theorem nodup_foldl_addEdge (h : x.edges.Nodup) : (rs.foldl (addEdge source) x).edges.Nodup := by
  induction rs generalizing x with
  | nil => exact h
  | cons r rs ih => exact ih (nodup_addEdge h)

/-- The edges are the references to what the index knows, each one once for its kind. -/
structure Mirrored (x : Index) : Prop where
  nodup : x.edges.Nodup
  mem_iff : ∀ e : Edge, e ∈ x.edges ↔ (x.get? e.target).isSome ∧
    ∃ r ∈ x.references e.source, r.target = some e.target ∧ r.kind = e.kind

theorem Mirrored.setReferences (h : Mirrored x) (hnone : x.references source = [])
    (rs : List Reference) : Mirrored (x.setReferences source rs) := by
  cases hfind : x.find? source with
  | none =>
    unfold Index.setReferences
    rw [hfind]
    exact h
  | some i =>
    have hknown : (x.get? source).isSome := by rw [← find?_isSome, hfind]; rfl
    have hedges : (x.setReferences source rs).edges = (rs.foldl (addEdge source) x).edges := by
      unfold Index.setReferences
      rw [hfind]
    constructor
    · rw [hedges]
      exact nodup_foldl_addEdge h.nodup
    · intro e
      rw [hedges, mem_foldl_addEdge, h.mem_iff, setReferences_get?,
        setReferences_references hknown]
      unfold Makes
      by_cases hsource : e.source = source
      · rw [if_pos hsource, hsource, hnone]
        simp only [List.not_mem_nil, false_and, exists_false, and_false, false_or, true_and]
        exact ⟨fun ⟨r, hr, hk, hmade⟩ => ⟨hk, r, hr, hmade⟩, fun ⟨hk, r, hr, hmade⟩ =>
          ⟨r, hr, hk, hmade⟩⟩
      · rw [if_neg hsource]
        simp [hsource]

end

/-! ### Setting all references -/

section

variable {x : Index} {cs : List (QName × List Reference)}

def setAll (x : Index) (cs : List (QName × List Reference)) : Index :=
  cs.foldl (fun x c => x.setReferences c.1 c.2) x

theorem setAll_get? (x : Index) (cs : List (QName × List Reference)) (id : QName) :
    (x.setAll cs).get? id = x.get? id := by
  unfold setAll
  induction cs generalizing x with
  | nil => rfl
  | cons c cs ih => rw [List.foldl_cons, ih, setReferences_get?]

theorem setAll_references (hdistinct : (cs.map (·.1)).Nodup)
    (hknown : ∀ c ∈ cs, (x.get? c.1).isSome) (id : QName) :
    (x.setAll cs).references id = ((cs.find? (·.1 == id)).map (·.2)).getD (x.references id) := by
  unfold setAll
  induction cs generalizing x with
  | nil => rfl
  | cons c cs ih =>
    obtain ⟨hc, hrest⟩ := List.nodup_cons.mp hdistinct
    have hstep : ∀ c' ∈ cs, ((x.setReferences c.1 c.2).get? c'.1).isSome := by
      intro c' hc'
      rw [setReferences_get?]
      exact hknown c' (List.mem_cons_of_mem _ hc')
    rw [List.foldl_cons, ih hrest hstep, setReferences_references (hknown c List.mem_cons_self)]
    by_cases hid : c.1 = id
    · have hnone : cs.find? (·.1 == id) = none := by
        refine List.find?_eq_none.mpr fun c' hc' heq => hc ?_
        have hsame : c'.1 = id := by simpa using heq
        exact List.mem_map.mpr ⟨c', hc', hsame.trans hid.symm⟩
      rw [hnone, List.find?_cons_of_pos (by simpa using hid), if_pos hid.symm]
      rfl
    · rw [List.find?_cons_of_neg (by simpa using hid), if_neg (Ne.symm hid)]

theorem Mirrored.setAll (h : Mirrored x) (hdistinct : (cs.map (·.1)).Nodup)
    (hnone : ∀ c ∈ cs, (x.get? c.1).isSome ∧ x.references c.1 = []) : Mirrored (x.setAll cs) := by
  unfold Index.setAll
  induction cs generalizing x with
  | nil => exact h
  | cons c cs ih =>
    obtain ⟨hc, hrest⟩ := List.nodup_cons.mp hdistinct
    obtain ⟨hknown, hempty⟩ := hnone c List.mem_cons_self
    refine ih (h.setReferences hempty c.2) hrest fun c' hc' => ?_
    have hne : c'.1 ≠ c.1 := fun heq => hc (List.mem_map.mpr ⟨c', hc', heq⟩)
    rw [setReferences_get?, setReferences_references hknown, if_neg hne]
    exact hnone c' (List.mem_cons_of_mem _ hc')

end

/-! ### Declarations without references -/

structure Fresh (x : Index) : Prop where
  edges : x.edges = []
  references : ∀ n ∈ x.nodes, n.references = []

theorem Fresh.references_eq {x : Index} (h : Fresh x) (id : QName) : x.references id = [] := by
  unfold Index.references
  cases hn : x.node? id with
  | none => rfl
  | some n => exact h.references n (node?_some hn).1

theorem Fresh.mirrored {x : Index} (h : Fresh x) : Mirrored x where
  nodup := h.edges ▸ List.nodup_nil
  mem_iff e := by simp [h.edges, h.references_eq]

def Operation.isReferences : Operation → Bool
  | .references _ _ => true
  | _ => false

theorem perform_fresh {x : Index} (h : Fresh x) {op : Operation} (hop : op.isReferences = false) :
    Fresh (x.perform op) := by
  cases op with
  | unit u => exact ⟨h.edges, h.references⟩
  | references source rs => cases hop
  | declaration d =>
    show Fresh (x.addDeclaration d)
    unfold addDeclaration
    split
    · exact h
    · refine ⟨h.edges, fun n hn => ?_⟩
      rcases List.mem_append.mp hn with hn | hn
      · exact h.references n hn
      · rw [List.mem_singleton.mp hn]

theorem build_fresh (root : Path) {ops : List Operation}
    (hops : ∀ op ∈ ops, op.isReferences = false) : Fresh (build root ops) := by
  have main : ∀ x : Index, Fresh x → Fresh (ops.foldl perform x) := by
    induction ops with
    | nil => exact fun _ h => h
    | cons op ops ih =>
      exact fun x h => ih (fun o ho => hops o (List.mem_cons_of_mem _ ho)) _
        (perform_fresh h (hops op List.mem_cons_self))
  exact main _ ⟨rfl, fun n hn => absurd hn List.not_mem_nil⟩

/-! ### The index of some files -/

section

variable {root : Path} {files : List SourceFile} {catalog : Catalog} {id : QName}
  {c : Java.Collected}

theorem mem_bindAll {t : Table} : (id, c) ∈ bindAll t files ↔
    ∃ f ∈ files, ∃ e ∈ f.entries, e.decl.id = id ∧
      Java.collect t e.decl f.imports e.sites = c := by
  simp only [bindAll, List.mem_flatMap, List.mem_map, Prod.mk.injEq]

def declarationsOf (files : List SourceFile) (catalog : Catalog) : List Operation :=
  files.flatMap (operationsOf (Table.ofFiles files catalog)) ++
    (usedLibraries files catalog).map .declaration

def boundReferences (files : List SourceFile) (catalog : Catalog) :
    List (QName × List Reference) :=
  (Reference.keepFirst (·.1) [] (bindAll (Table.ofFiles files catalog) files)).map fun c =>
    (c.1, c.2.references)

theorem ofFiles_eq_setAll (root : Path) (files : List SourceFile) (catalog : Catalog) :
    ofFiles root files catalog =
      (build root (declarationsOf files catalog)).setAll (boundReferences files catalog) := by
  rw [ofFiles_eq_build]
  unfold build setAll boundReferences operations declarationsOf usedLibraries
  rw [List.foldl_append, List.foldl_map, List.foldl_map]
  rfl

theorem fresh_declarationsOf (root : Path) (files : List SourceFile) (catalog : Catalog) :
    Fresh (build root (declarationsOf files catalog)) := by
  refine build_fresh root fun op hop => ?_
  rcases List.mem_append.mp hop with hop | hop
  · obtain ⟨f, -, hop⟩ := List.mem_flatMap.mp hop
    rcases List.mem_cons.mp hop with rfl | hop
    · rfl
    · obtain ⟨e, -, he⟩ := List.mem_filterMap.mp hop
      obtain ⟨d, -, rfl⟩ := Option.map_eq_some_iff.mp he
      rfl
  · obtain ⟨d, -, rfl⟩ := List.mem_map.mp hop
    rfl

theorem boundReferences_distinct : ((boundReferences files catalog).map (·.1)).Nodup := by
  unfold boundReferences
  rw [List.map_map]
  exact nodup_keepFirst Prod.fst [] _

theorem boundReferences_known : ∀ b ∈ boundReferences files catalog,
    ((build root (declarationsOf files catalog)).get? b.1).isSome := by
  intro b hb
  obtain ⟨c, hc, rfl⟩ := List.mem_map.mp hb
  obtain ⟨f, hf, e, he, hid, -⟩ := mem_bindAll.mp (mem_keepFirst hc)
  rw [← setAll_get? _ (boundReferences files catalog), ← ofFiles_eq_setAll, ofFiles_get?, ← hid]
  obtain ⟨d, hd⟩ := Table.exists_declaration? catalog hf he
  rw [hd]
  rfl

theorem ofFiles_references (root : Path) (files : List SourceFile) (catalog : Catalog)
    (id : QName) : (ofFiles root files catalog).references id =
      (((bindAll (Table.ofFiles files catalog) files).find? (·.1 == id)).map
        (·.2.references)).getD [] := by
  rw [ofFiles_eq_setAll, setAll_references boundReferences_distinct boundReferences_known,
    (fresh_declarationsOf root files catalog).references_eq]
  unfold boundReferences
  rw [List.find?_map, Option.map_map]
  congr 2
  exact find?_keepFirst List.not_mem_nil

theorem ofFiles_mirrored (root : Path) (files : List SourceFile) (catalog : Catalog) :
    Mirrored (ofFiles root files catalog) := by
  have hfresh := fresh_declarationsOf root files catalog
  rw [ofFiles_eq_setAll]
  exact hfresh.mirrored.setAll boundReferences_distinct fun b hb =>
    ⟨boundReferences_known b hb, hfresh.references_eq _⟩

/-- Every reference is one that a declaration of the name makes in its file. -/
theorem mem_references {r : Reference} (h : r ∈ (ofFiles root files catalog).references id) :
    ∃ f ∈ files, ∃ e ∈ f.entries, e.decl.id = id ∧
      r ∈ (Java.collect (Table.ofFiles files catalog) e.decl f.imports e.sites).references := by
  rw [ofFiles_references] at h
  cases hfind : (bindAll (Table.ofFiles files catalog) files).find? (·.1 == id) with
  | none =>
    rw [hfind] at h
    exact absurd h List.not_mem_nil
  | some c =>
    rw [hfind] at h
    have hid : c.1 = id := by simpa using List.find?_some hfind
    obtain ⟨f, hf, e, he, heid, hc⟩ := mem_bindAll.mp (List.mem_of_find?_eq_some hfind)
    exact ⟨f, hf, e, he, heid.trans hid, hc ▸ h⟩

end

/-! ### Referrers in order -/

section

variable {x : Index} {id s : QName} {k : Reference.Kind}

theorem sortBy_eq {α : Type} (before : α → α → Bool) (as : List α) :
    sortBy before as = as.insertionSort (fun a b => before b a = false) := by
  have hinsert : ∀ (a : α) (bs : List α),
      insertBy before a bs = bs.orderedInsert (fun a b => before b a = false) a := by
    intro a bs
    induction bs with
    | nil => rfl
    | cons b bs ih =>
      rw [List.orderedInsert_cons, insertBy]
      cases before b a with
      | true => simp [ih]
      | false => simp
  induction as with
  | nil => rfl
  | cons a as ih => rw [List.insertionSort_cons, ← ih, sortBy, hinsert]

theorem rank_injective {k k' : Reference.Kind} (h : k.rank = k'.rank) : k = k' := by
  cases k <;> cases k' <;> first | rfl | cases h

/-- By name and then by kind. -/
def Precedes (a b : QName × Reference.Kind) : Prop :=
  a.1.text < b.1.text ∨ a.1 = b.1 ∧ a.2.rank < b.2.rank

theorem edgeBefore_iff {a b : Edge} :
    edgeBefore a b = true ↔ Precedes (a.source, a.kind) (b.source, b.kind) := by
  simp [edgeBefore, QName.before, Precedes]

theorem precedes_trans {a b c : QName × Reference.Kind} (h : Precedes a b) (k : Precedes b c) :
    Precedes a c := by
  unfold Precedes at *
  rcases h with h | ⟨h, hr⟩ <;> rcases k with k | ⟨k, kr⟩
  · exact Or.inl (h.trans k)
  · exact Or.inl (k ▸ h)
  · exact Or.inl (h ▸ k)
  · exact Or.inr ⟨h.trans k, hr.trans kr⟩

theorem precedes_connex (a b : QName × Reference.Kind) : Precedes a b ∨ a = b ∨ Precedes b a := by
  obtain ⟨⟨s⟩, k⟩ := a
  obtain ⟨⟨s'⟩, k'⟩ := b
  unfold Precedes
  rcases lt_trichotomy s s' with hs | rfl | hs
  · exact Or.inl (Or.inl hs)
  · rcases lt_trichotomy k.rank k'.rank with hk | hk | hk
    · exact Or.inl (Or.inr ⟨rfl, hk⟩)
    · exact Or.inr (Or.inl (by rw [rank_injective hk]))
    · exact Or.inr (Or.inr (Or.inr ⟨rfl, hk⟩))
  · exact Or.inr (Or.inr (Or.inl hs))

theorem precedes_irrefl (a : QName × Reference.Kind) : ¬ Precedes a a := by
  rintro (h | ⟨-, h⟩)
  · exact lt_irrefl _ h
  · exact lt_irrefl _ h

instance : Std.Total fun a b : Edge => edgeBefore b a = false where
  total a b := by
    by_contra h
    simp only [not_or, Bool.not_eq_false, edgeBefore_iff] at h
    exact precedes_irrefl _ (precedes_trans h.1 h.2)

instance : IsTrans Edge fun a b => edgeBefore b a = false where
  trans a b c hab hbc := by
    rw [← Bool.not_eq_true, edgeBefore_iff] at *
    intro hca
    rcases precedes_connex (a.source, a.kind) (b.source, b.kind) with h | h | h
    · exact hbc (precedes_trans hca h)
    · exact hbc (h ▸ hca)
    · exact hab h

theorem pairwise_referrers (h : x.edges.Nodup) (id : QName) :
    (x.referrers id).Pairwise Precedes := by
  unfold referrers
  split
  · exact List.Pairwise.nil
  · rw [sortBy_eq, List.pairwise_map]
    have hsorted := List.pairwise_insertionSort (fun a b : Edge => edgeBefore b a = false)
      (x.edges.filter (·.target == id))
    have hnodup : ((x.edges.filter (·.target == id)).insertionSort
        fun a b => edgeBefore b a = false).Nodup :=
      (List.perm_insertionSort _ _).nodup_iff.mpr (h.filter _)
    refine (hsorted.and hnodup).imp_of_mem fun {a b} ha hb hab => ?_
    obtain ⟨hle, hne⟩ := hab
    rw [← Bool.not_eq_true, edgeBefore_iff] at hle
    rw [List.mem_insertionSort, List.mem_filter, beq_iff_eq] at ha hb
    rcases precedes_connex (a.source, a.kind) (b.source, b.kind) with hlt | heq | hgt
    · exact hlt
    · obtain ⟨hs, hk⟩ := Prod.mk.inj heq
      have hsame : a = b := by
        cases a
        cases b
        exact Edge.mk.injEq .. ▸ ⟨hs, ha.2.trans hb.2.symm, hk⟩
      exact absurd hsame hne
    · exact absurd hgt hle

/-- The referrers of a declaration are where its edges come from. -/
theorem mem_referrers_iff :
    (s, k) ∈ x.referrers id ↔ (x.get? id).isSome ∧ ⟨s, id, k⟩ ∈ x.edges := by
  rw [← find?_isSome]
  unfold referrers
  cases x.find? id with
  | none => simp
  | some i =>
    rw [sortBy_eq]
    simp only [List.mem_map, List.mem_insertionSort, List.mem_filter, beq_iff_eq,
      Prod.mk.injEq, Option.isSome_some, true_and]
    constructor
    · rintro ⟨⟨s', t, k'⟩, ⟨he, rfl⟩, rfl, rfl⟩
      exact he
    · exact fun he => ⟨⟨s, id, k⟩, ⟨he, rfl⟩, rfl, rfl⟩

theorem Mirrored.mem_referrers (h : Mirrored x) : (s, k) ∈ x.referrers id ↔
    (x.get? id).isSome ∧ ∃ r ∈ x.references s, r.target = some id ∧ r.kind = k := by
  rw [mem_referrers_iff, h.mem_iff]
  exact ⟨fun ⟨hknown, _, hr⟩ => ⟨hknown, hr⟩, fun ⟨hknown, hr⟩ => ⟨hknown, hknown, hr⟩⟩

end

end Carve.Index
