import Carve.Proofs.Closure.Accounts

/-!
# Runs of the search

What one followed reference preserves is lifted to a node, to the expansion of everything that
waits, and to the rounds in which constructors are brought in. A run ends with every node followed
and no constructor missing, since no node is admitted twice and only what is indexed is admitted.
-/

namespace Carve.Closure

variable {p : Policy} {x : Index} {root : Declaration}

structure Along (p : Policy) (x : Index) (root : Declaration) (a : Admitted) (done : List Use)
    (s : Search) : Prop where
  grown : Grown p x root s.nodes
  node : a ∈ s.nodes
  accounts : Accounts p x done s
  called : Called root s
  clear : Clear a s

theorem Called.reach {s : Search} (h : Called root s) (t : QName) (k : Reference.Kind) :
    Called root (s.reach t k) := by
  intro b hb
  refine (h b hb).imp id (Or.imp id ?_)
  rintro ⟨l, hl⟩
  exact ⟨l, Search.mem_reach.mpr (Or.inr hl)⟩

theorem Called.enter {s : Search} (h : Called root s) {b : Admitted}
    (hb : b.decl.kind = .ctor ∨ ∃ k, (b.decl.id, k) ∈ s.incoming) : Called root (s.enter b) := by
  intro c hc
  simp only [Search.enter_nodes, List.mem_append, List.mem_singleton] at hc
  rw [Search.enter_incoming]
  rcases hc with hc | rfl
  · exact h c hc
  · exact Or.inr hb

theorem enter_reach (s : Search) (t : QName) (k : Reference.Kind) (b : Admitted) :
    (s.reach t k).enter b = (s.enter b).reach t k := by
  unfold Search.enter
  split <;> rfl

theorem Clear.note_unresolved {s : Search} {a : Admitted} (h : Clear a s) (id : QName)
    (name : String) : Clear a (s.note (.unresolved id name)) :=
  fun t hc => h t (Search.cut_note_unresolved.mp hc)

theorem Clear.note_barrier {s : Search} {a : Admitted} (h : Clear a s) {d : Declaration}
    {e : Diagnostic} (hb : barrier p a d = some e) (hk : s.has d.id = false) :
    Clear a (s.note e) := by
  have hnew : ∀ t, (.depthLimit a.decl.id t = e ∨ .testExcluded a.decl.id t = e) →
      s.has t = false := by
    intro t he
    rcases cut_of_barrier hb with rfl | rfl <;> simp at he <;> exact he ▸ hk
  rintro t (hc | hc)
  · exact (Search.mem_note.mp hc).elim (fun hc => h t (Or.inl hc)) (fun e => hnew t (Or.inl e))
  · exact (Search.mem_note.mp hc).elim (fun hc => h t (Or.inr hc)) (fun e => hnew t (Or.inr e))

/-- Following one more reference of the node keeps everything in order. -/
theorem Along.follow {a : Admitted} {done : List Use} {s : Search} (h : Along p x root a done s)
    (hp : a.decl.isLibrary = false) {r : Reference} (hr : r ∈ x.references a.decl.id) :
    Along p x root a (done ++ [(a, r)]) (follow p x a s r) := by
  have hf := follow_follows (p := p) (x := x) a s r
  generalize Closure.follow p x a s r = s' at hf ⊢
  cases hf with
  | nameless ht =>
    exact ⟨h.grown, h.node, h.accounts.note h.node (.nameless ht) (by simp) (by simp [ht]),
      h.called, h.clear.note_unresolved _ _⟩
  | own ht => exact ⟨h.grown, h.node, h.accounts.pass h.node ht, h.called, h.clear⟩
  | known t ht hne hk =>
    have hc : ¬ Cut s.diagnostics a.decl.id t := fun hc => by simp [h.clear t hc] at hk
    exact ⟨h.grown, h.node, h.accounts.reach h.node ht hne hk hc, h.called.reach t r.kind, h.clear⟩
  | absent t ht hne hk hx =>
    refine ⟨h.grown, h.node, h.accounts.note h.node (.absent t ht hne hx) (by simp) ?_,
      h.called, h.clear.note_unresolved _ _⟩
    intro t' ht'
    exact Option.some.inj (ht.symm.trans ht') ▸ hk
  | barred d e ht hne hk hx hb =>
    refine ⟨h.grown, h.node, h.accounts.note h.node (.barred d e ht hne hx hb) ?_ ?_,
      h.called, h.clear.note_barrier hb hk⟩
    · intro source t he
      rcases cut_of_barrier hb with rfl | rfl <;> simp at he <;> exact he.2 ▸ hk
    · intro t' ht'
      exact Option.some.inj (ht.symm.trans ht') ▸ hk
  | admitted d ht hne hk hx hb =>
    have hopen := h.accounts.not_cut_of_open h.grown h.node hx hb
    have hnew : d.id ∉ s.nodes.map (·.decl.id) := fun hm => by simp [Search.has_iff.mpr hm] at hk
    have hkind : ∃ k, (d.id, k) ∈ (s.reach d.id r.kind).incoming := ⟨r.kind, by simp⟩
    have hleads : LeadsTo p x a d := ⟨hp, ⟨r, hr, ht⟩, hx, hb⟩
    have haccounts := (h.accounts.enter (b := ⟨d, a.distance + 1⟩) hx hk).reach
      (by simp [h.node]) ht hne (Search.enter_has.mpr (Or.inr rfl))
      (fun hc => hopen (Search.cut_enter.mp hc))
    rw [enter_reach]
    refine ⟨?_, by simp [h.node], haccounts, ?_, ?_⟩
    · rw [Search.reach_nodes, Search.enter_nodes]
      exact h.grown.next h.node (Or.inl hleads) hnew
    · rw [← enter_reach]
      exact (h.called.reach d.id r.kind).enter (Or.inr hkind)
    · intro t hc
      have hc : Cut s.diagnostics a.decl.id t := Search.cut_enter.mp hc
      rw [Search.reach_has, ← Bool.not_eq_true, Search.enter_has]
      rintro (ht' | rfl)
      · simp [h.clear t hc] at ht'
      · exact hopen hc

/-- Nodes are only added behind the others, and following is somebody else's business. -/
structure Extends (s s' : Search) : Prop where
  nodes : s.nodes <+: s'.nodes
  followed : s'.followed = s.followed

theorem Extends.refl (s : Search) : Extends s s := ⟨List.prefix_refl _, rfl⟩

theorem Extends.trans {s t u : Search} (h : Extends s t) (k : Extends t u) : Extends s u :=
  ⟨h.nodes.trans k.nodes, k.followed.trans h.followed⟩

theorem extends_follow (a : Admitted) (s : Search) (r : Reference) :
    Extends s (follow p x a s r) := by
  have hf := follow_follows (p := p) (x := x) a s r
  generalize follow p x a s r = s' at hf ⊢
  cases hf with
  | admitted d => exact ⟨by simp, by simp⟩
  | _ => exact ⟨by simp, by simp⟩

theorem Along.followAll {a : Admitted} (hp : a.decl.isLibrary = false) (rs : List Reference)
    (hrs : ∀ r ∈ rs, r ∈ x.references a.decl.id) :
    ∀ {done : List Use} {s : Search}, Along p x root a done s →
      Along p x root a (done ++ rs.map (a, ·)) (rs.foldl (Closure.follow p x a) s) ∧
        Extends s (rs.foldl (Closure.follow p x a) s) := by
  induction rs with
  | nil => exact fun h => ⟨by simpa using h, .refl _⟩
  | cons r rs ih =>
    intro done s h
    obtain ⟨halong, hext⟩ := ih (fun r hr => hrs r (List.mem_cons_of_mem _ hr))
      (h.follow hp (hrs r List.mem_cons_self))
    rw [List.foldl_cons, List.map_cons]
    exact ⟨by simpa using halong, (extends_follow a s r).trans hext⟩

/-- What holds between the nodes of a run. -/
structure Invariant (p : Policy) (x : Index) (root : Declaration) (s : Search) : Prop where
  grown : Grown p x root s.nodes
  accounts : Accounts p x (uses x (s.nodes.take s.followed)) s
  called : Called root s
  followed_le : s.followed ≤ s.nodes.length

theorem uses_take_of_prefix {ns ns' : List Admitted} (h : ns <+: ns') {n : Nat}
    (hn : n ≤ ns.length) : uses x (ns'.take n) = uses x (ns.take n) := by
  obtain ⟨rest, rfl⟩ := h
  rw [List.take_append_of_le_length hn]

theorem uses_take_succ {ns : List Admitted} {n : Nat} {a : Admitted} (h : ns[n]? = some a) :
    uses x (ns.take (n + 1)) = uses x (ns.take n) ++ usesOf x a := by
  simp [uses, List.take_add_one, h]

theorem Grown.not_mem_take {ns : List Admitted} (h : Grown p x root ns) {n : Nat} {a : Admitted}
    (ha : ns[n]? = some a) : a ∉ ns.take n := by
  intro hm
  obtain ⟨hlt, rfl⟩ := List.getElem?_eq_some_iff.mp ha
  obtain ⟨j, hj, he⟩ := List.mem_take_iff_getElem.mp hm
  have hnodup : ns.Nodup := h.nodup.of_map
  have : j = n := hnodup.getElem_inj_iff.mp he
  omega

namespace Invariant

variable {s : Search}

theorem start (hp : root.isLibrary = false) : Invariant p x root (Search.enter {} ⟨root, 0⟩) := by
  have hc : root.origin.coordinate? = none := by
    unfold Declaration.isLibrary Origin.isLibrary at hp
    unfold Origin.coordinate?
    split at hp <;> simp_all
  have he : Search.enter {} ⟨root, 0⟩ = { nodes := [⟨root, 0⟩] } := by
    simp [Search.enter, hc]
  rw [he]
  exact
    { grown := .start
      accounts := ⟨by simp [uses], by simp [uses], by simp, List.nodup_nil, by simp [uses]⟩
      called := by
        intro b hb
        obtain rfl := List.mem_singleton.mp hb
        exact Or.inl rfl
      followed_le := Nat.zero_le _ }

theorem clear (h : Invariant p x root s) {a : Admitted} (ha : s.nodes[s.followed]? = some a) :
    Clear a s := by
  intro t hc
  obtain ⟨u, hu, d, e, hid, -⟩ := h.accounts.barrier_of_cut hc
  have hm := (mem_uses (a := u.1) (r := u.2)).mp hu
  have : u.1 = a :=
    h.grown.eq_of_id (List.mem_of_mem_take hm.1) (List.mem_of_getElem? ha) hid
  exact absurd (this ▸ hm.1) (h.grown.not_mem_take ha)

theorem followNode (h : Invariant p x root s) {a : Admitted}
    (ha : s.nodes[s.followed]? = some a) :
    Invariant p x root (followNode p x s a) ∧
      (Closure.followNode p x s a).followed = s.followed + 1 ∧
      s.nodes <+: (Closure.followNode p x s a).nodes := by
  have hlt : s.followed < s.nodes.length := (List.getElem?_eq_some_iff.mp ha).1
  have huses := uses_take_succ (x := x) ha
  unfold Closure.followNode
  cases hl : a.decl.isLibrary with
  | true =>
    have hnone : usesOf x a = [] := by simp [usesOf, hl]
    simp only [if_true]
    refine ⟨⟨h.grown, ?_, h.called, by simp only; omega⟩, trivial, List.prefix_refl _⟩
    have hacc := h.accounts
    rw [hnone, List.append_nil] at huses
    exact ⟨huses ▸ hacc.sources, huses ▸ hacc.settled, huses ▸ hacc.caused, hacc.once,
      huses ▸ hacc.incoming⟩
  | false =>
    have hacc := h.accounts
    have halong : Along p x root a (uses x (s.nodes.take s.followed))
        { s with followed := s.followed + 1 } :=
      ⟨h.grown, List.mem_of_getElem? ha, ⟨hacc.sources, hacc.settled, hacc.caused, hacc.once,
        hacc.incoming⟩, h.called, h.clear ha⟩
    obtain ⟨hdone, hext⟩ := halong.followAll hl (x.references a.decl.id) (fun _ hr => hr)
    have hall : usesOf x a = (x.references a.decl.id).map (a, ·) := by simp [usesOf, hl]
    simp only [Bool.false_eq_true, if_false]
    refine ⟨⟨hdone.grown, ?_, hdone.called, ?_⟩, hext.followed, hext.nodes⟩
    · rw [hext.followed, uses_take_of_prefix hext.nodes hlt, huses, hall]
      exact hdone.accounts
    · have hle : s.nodes.length ≤ _ := hext.nodes.length_le
      rw [hext.followed]
      exact Nat.le_trans hlt hle

/-- Expansion follows nodes until none is left, given that it may take as many steps as there are
declarations that have not been followed. -/
theorem expand (hroot : x.get? root.id = some root) (fuel : Nat) :
    ∀ {s : Search}, Invariant p x root s → x.nodes.length ≤ fuel + s.followed →
      Invariant p x root (expand p x fuel s) ∧
        (Closure.expand p x fuel s).followed = (Closure.expand p x fuel s).nodes.length ∧
        s.nodes <+: (Closure.expand p x fuel s).nodes := by
  induction fuel with
  | zero =>
    intro s h hfuel
    have := h.grown.length_le hroot
    have := h.followed_le
    exact ⟨h, by simp only [Closure.expand]; omega, List.prefix_refl _⟩
  | succ fuel ih =>
    intro s h hfuel
    unfold Closure.expand
    cases ha : s.nodes[s.followed]? with
    | none =>
      have := List.getElem?_eq_none_iff.mp ha
      have := h.followed_le
      exact ⟨h, by simp only; omega, List.prefix_refl _⟩
    | some a =>
      obtain ⟨hnext, hfollowed, hprefix⟩ := h.followNode ha
      obtain ⟨hinv, hdone, hrest⟩ := ih hnext (by omega)
      exact ⟨hinv, hdone, hprefix.trans hrest⟩

end Invariant

end Carve.Closure
