import Carve.Proofs.Index.References
import Mathlib.Data.List.Induction

/-!
# Edges of earlier references

References may be set again. The declaration then has the new ones alone, while the edges of all
earlier ones stay. The referrers of a declaration are therefore those that refer to it now and
those that did so once. Referrers and references mirror each other exactly if the last references
of a declaration leave out nothing that it referred to before.
-/

namespace Carve.Index

def Refers (rs : List Reference) (target : QName) (kind : Reference.Kind) : Prop :=
  ∃ r ∈ rs, r.target = some target ∧ r.kind = kind

def Operation.isDeclaration : Operation → Bool
  | .declaration _ => true
  | _ => false

/-- No declaration is added once references have been set. -/
def DeclaredFirst (ops : List Operation) : Prop :=
  ops.Pairwise fun earlier later => earlier.isReferences = true → later.isDeclaration = false

instance (ops : List Operation) : Decidable (DeclaredFirst ops) :=
  inferInstanceAs (Decidable (List.Pairwise _ ops))

def Operation.setting? (source : QName) : Operation → Option (List Reference)
  | .references s rs => if s = source then some rs else none
  | _ => none

/-- All lists of references that were ever set for a declaration, the last one at the end. -/
def settings (ops : List Operation) (source : QName) : List (List Reference) :=
  ops.filterMap (·.setting? source)

section

variable {x : Index} {ops : List Operation} {op : Operation} {source s : QName}
  {rs : List Reference} {e : Edge}

theorem settings_append (ops ops' : List Operation) (source : QName) :
    settings (ops ++ ops') source = settings ops source ++ settings ops' source :=
  List.filterMap_append

theorem settings_references (s source : QName) (rs : List Reference) :
    settings [.references s rs] source = if s = source then [rs] else [] := by
  unfold settings Operation.setting?
  split <;> simp [*]

theorem settings_eq_nil (h : ∀ op ∈ ops, op.isReferences = false) (source : QName) :
    settings ops source = [] := by
  refine List.filterMap_eq_nil_iff.mpr fun op hop => ?_
  cases op with
  | references s rs => exact absurd (h _ hop) Bool.noConfusion
  | _ => rfl

theorem mem_setReferences_edges : e ∈ (x.setReferences source rs).edges ↔
    e ∈ x.edges ∨ (x.get? source).isSome ∧ ∃ r ∈ rs, Makes x source r e := by
  rw [← find?_isSome]
  unfold setReferences
  cases x.find? source with
  | none => simp
  | some i => simpa using mem_foldl_addEdge

theorem nodup_setReferences (h : x.edges.Nodup) : (x.setReferences source rs).edges.Nodup := by
  unfold setReferences
  split
  · exact h
  · exact nodup_foldl_addEdge h

structure Keeps (ops : List Operation) (x : Index) : Prop where
  nodup : x.edges.Nodup
  mem_edges : ∀ e : Edge, e ∈ x.edges ↔ (x.get? e.source).isSome ∧ (x.get? e.target).isSome ∧
    ∃ rs ∈ settings ops e.source, Refers rs e.target e.kind
  references : ∀ s, (x.get? s).isSome → x.references s = (settings ops s).getLast?.getD []

theorem Fresh.keeps (h : Fresh x) (hops : ∀ op ∈ ops, op.isReferences = false) : Keeps ops x where
  nodup := h.edges ▸ List.nodup_nil
  mem_edges e := by simp [h.edges, settings_eq_nil hops]
  references s _ := by rw [h.references_eq, settings_eq_nil hops]; rfl

theorem Keeps.addUnit (h : Keeps ops x) (u : SourceUnit) :
    Keeps (ops ++ [.unit u]) (x.addUnit u) := by
  have hsettings : ∀ s, settings (ops ++ [.unit u]) s = settings ops s := fun s => by
    rw [settings_append]
    exact List.append_nil _
  refine ⟨h.nodup, fun e => ?_, fun s hs => ?_⟩
  · rw [hsettings]
    exact h.mem_edges e
  · rw [hsettings]
    exact h.references s hs

theorem Keeps.setReferences (h : Keeps ops x) (source : QName) (rs : List Reference) :
    Keeps (ops ++ [.references source rs]) (x.setReferences source rs) where
  nodup := nodup_setReferences h.nodup
  mem_edges e := by
    rw [mem_setReferences_edges, h.mem_edges, setReferences_get?, setReferences_get?,
      settings_append, settings_references]
    unfold Makes Refers
    by_cases hsource : source = e.source
    · rw [if_pos hsource, hsource]
      simp only [List.mem_append, List.mem_singleton, or_and_right, exists_or, exists_eq_left,
        true_and]
      constructor
      · rintro (⟨hs, ht, hold⟩ | ⟨hs, r, hr, ht, hmade⟩)
        · exact ⟨hs, ht, Or.inl hold⟩
        · exact ⟨hs, ht, Or.inr ⟨r, hr, hmade⟩⟩
      · rintro ⟨hs, ht, hold | ⟨r, hr, hmade⟩⟩
        · exact Or.inl ⟨hs, ht, hold⟩
        · exact Or.inr ⟨hs, r, hr, ht, hmade⟩
    · rw [if_neg hsource, List.append_nil]
      simp [Ne.symm hsource]
  references s hs := by
    rw [setReferences_get?] at hs
    rw [settings_append, settings_references]
    by_cases hsource : source = s
    · subst hsource
      rw [setReferences_references hs, if_pos rfl, if_pos rfl, List.getLast?_append]
      rfl
    · rw [if_neg hsource, List.append_nil, ← h.references s hs]
      by_cases hknown : (x.get? source).isSome
      · rw [setReferences_references hknown, if_neg (Ne.symm hsource)]
      · have hnone : x.find? source = none := by
          rw [← Option.not_isSome_iff_eq_none, find?_isSome]
          exact hknown
        unfold Index.setReferences
        rw [hnone]

theorem build_append (root : Path) (ops : List Operation) (op : Operation) :
    build root (ops ++ [op]) = (build root ops).perform op :=
  List.foldl_concat ..

theorem build_keeps (root : Path) (h : DeclaredFirst ops) : Keeps ops (build root ops) := by
  induction ops using List.reverseRecOn with
  | nil =>
    have hnone : ∀ op ∈ ([] : List Operation), op.isReferences = false := by simp
    exact (build_fresh root hnone).keeps hnone
  | append_singleton ops op ih =>
    obtain ⟨hfront, -, hlast⟩ := List.pairwise_append.mp h
    rw [build_append]
    cases op with
    | unit u => exact (ih hfront).addUnit u
    | references source rs => exact (ih hfront).setReferences source rs
    | declaration d =>
      have hnone : ∀ op ∈ ops ++ [.declaration d], op.isReferences = false := by
        intro op hop
        rcases List.mem_append.mp hop with hop | hop
        · exact Bool.eq_false_iff.mpr fun hrefs =>
            absurd (hlast op hop _ List.mem_cons_self hrefs) Bool.noConfusion
        · rw [List.mem_singleton.mp hop]
          rfl
      exact build_append root ops _ ▸ (build_fresh root hnone).keeps hnone

theorem references_of_unknown (h : x.get? s = none) : x.references s = [] := by
  unfold references
  rw [Option.map_eq_none_iff.mp h]
  rfl

end

/-- The referrers of a declaration are those that refer to it now. -/
def Mirrors (x : Index) (t : QName) : Prop :=
  ∀ s k, (s, k) ∈ x.referrers t ↔ Refers (x.references s) t k

/-- A declaration once referred to another one in a way in which it does so no more. -/
structure Outlived (ops : List Operation) (x : Index) (s t : QName) (k : Reference.Kind) :
    Prop where
  known : (x.get? s).isSome
  once : ∃ rs ∈ settings ops s, Refers rs t k
  noMore : ¬ Refers (x.references s) t k

/-- What becomes of references that may be set again. -/
structure Remembers (ops : List Operation) (x : Index) : Prop where
  references : ∀ s, (x.get? s).isSome → x.references s = (settings ops s).getLast?.getD []
  sorted : ∀ t, (x.referrers t).Pairwise Precedes
  mem_referrers : ∀ t, (x.get? t).isSome → ∀ s k,
    (s, k) ∈ x.referrers t ↔ Refers (x.references s) t k ∨ Outlived ops x s t k
  mirrors_iff : ∀ t, (x.get? t).isSome → (Mirrors x t ↔ ∀ s k, ¬ Outlived ops x s t k)

section

variable {x : Index} {ops : List Operation}

theorem Keeps.set_of_refers (h : Keeps ops x) {s t : QName} {k : Reference.Kind}
    (hrefers : Refers (x.references s) t k) :
    (x.get? s).isSome ∧ ∃ rs ∈ settings ops s, Refers rs t k := by
  cases hs : x.get? s with
  | none =>
    obtain ⟨r, hr, -⟩ := references_of_unknown hs ▸ hrefers
    exact absurd hr List.not_mem_nil
  | some d =>
    refine ⟨rfl, ?_⟩
    rw [h.references s (by rw [hs]; rfl)] at hrefers
    cases hlast : (settings ops s).getLast? with
    | none =>
      rw [hlast] at hrefers
      obtain ⟨r, hr, -⟩ := hrefers
      exact absurd hr List.not_mem_nil
    | some rs =>
      rw [hlast] at hrefers
      exact ⟨rs, List.mem_of_getLast? hlast, hrefers⟩

theorem Keeps.mem_referrers (h : Keeps ops x) {t : QName} (ht : (x.get? t).isSome) (s : QName)
    (k : Reference.Kind) :
    (s, k) ∈ x.referrers t ↔ Refers (x.references s) t k ∨ Outlived ops x s t k := by
  rw [mem_referrers_iff, h.mem_edges]
  constructor
  · rintro ⟨-, hknown, -, honce⟩
    by_cases hnow : Refers (x.references s) t k
    · exact Or.inl hnow
    · exact Or.inr ⟨hknown, honce, hnow⟩
  · rintro (hnow | hold)
    · obtain ⟨hknown, honce⟩ := h.set_of_refers hnow
      exact ⟨ht, hknown, ht, honce⟩
    · exact ⟨ht, hold.known, ht, hold.once⟩

theorem Keeps.mirrors_iff (h : Keeps ops x) {t : QName} (ht : (x.get? t).isSome) :
    Mirrors x t ↔ ∀ s k, ¬ Outlived ops x s t k := by
  unfold Mirrors
  simp only [h.mem_referrers ht]
  constructor
  · exact fun hmirrors s k hold => hold.noMore ((hmirrors s k).mp (Or.inr hold))
  · exact fun hnone s k => or_iff_left (hnone s k)

end

/-- Where declarations come first, every edge is a reference of a last or an earlier setting. -/
theorem build_remembers (root : Path) {ops : List Operation} (h : DeclaredFirst ops) :
    Remembers ops (build root ops) := by
  have hkeeps := build_keeps root h
  exact ⟨hkeeps.references, fun t => pairwise_referrers hkeeps.nodup t,
    fun t ht => hkeeps.mem_referrers ht, fun t ht => hkeeps.mirrors_iff ht⟩

def silenced : List Operation :=
  [.declaration { id := ⟨"A"⟩, name := "A", kind := .classType, origin := .project "m" },
   .declaration { id := ⟨"B"⟩, name := "B", kind := .classType, origin := .project "m" },
   .references ⟨"A"⟩ [⟨⟨"A"⟩, some ⟨"B"⟩, .call, "B", none⟩],
   .references ⟨"A"⟩ []]

/-- A declaration that calls another one and then nothing has no references any more, but is still
found among the referrers of the other one. -/
theorem silenced_still_refers : DeclaredFirst silenced ∧
    Remembers silenced (build ⟨"/"⟩ silenced) ∧
    (build ⟨"/"⟩ silenced).references ⟨"A"⟩ = [] ∧
    (build ⟨"/"⟩ silenced).referrers ⟨"B"⟩ = [(⟨"A"⟩, .call)] ∧
    ¬ Mirrors (build ⟨"/"⟩ silenced) ⟨"B"⟩ := by
  have hfirst : DeclaredFirst silenced := by decide
  have hnone : (build ⟨"/"⟩ silenced).references ⟨"A"⟩ = [] := by decide +kernel
  have hcall : (build ⟨"/"⟩ silenced).referrers ⟨"B"⟩ = [(⟨"A"⟩, .call)] := by decide +kernel
  refine ⟨hfirst, build_remembers ⟨"/"⟩ hfirst, hnone, hcall, fun hmirrors => ?_⟩
  have hstale := (hmirrors ⟨"A"⟩ .call).mp (by rw [hcall]; exact List.mem_cons_self)
  obtain ⟨r, hr, -⟩ := hnone ▸ hstale
  exact absurd hr List.not_mem_nil

end Carve.Index
