import Carve.Proofs.Closure.Diagnostics

/-!
# How far the members are

The first expansion admits declarations in the order of their distance, and finds each one by a
shortest way from the root. Rounds that bring in constructors only add behind it. Every member has
an earlier one, one step nearer, that accounts for it.
-/

namespace Carve.Closure

variable {p : Policy} {x : Index} {root : Declaration}

/-- The policy lets a declaration in behind the root: tests only where it takes them in. -/
def Welcome (p : Policy) (d : Declaration) : Prop :=
  d.isLibrary = true ∨ p.includeTests = true ∨ d.scope = .main

/-- A way of this many references that leads from the root through the project. -/
inductive Way (p : Policy) (x : Index) (root : Declaration) : Nat → Declaration → Prop where
  | start : Way p x root 0 root
  | step {n : Nat} {c d : Declaration} {r : Reference} : Way p x root n c → c.isLibrary = false →
      r ∈ x.references c.id → r.target = some d.id → x.get? d.id = some d → Welcome p d →
      Way p x root (n + 1) d

/-- The depth limit allows this distance. A library may stand one step further out. -/
def InReach (p : Policy) (d : Declaration) (n : Nat) : Prop :=
  ∀ limit, p.maxDepth = some limit → if d.isLibrary then n ≤ limit + 1 else n ≤ limit

theorem Way.indexed {n : Nat} {d : Declaration} (h : Way p x root n d)
    (hroot : x.get? root.id = some root) : x.get? d.id = some d := by
  cases h with
  | start => exact hroot
  | step _ _ _ _ hx _ => exact hx

theorem welcome_of_open {a : Admitted} {d : Declaration} (h : barrier p a d = none) :
    Welcome p d := by
  rcases barrier_eq_none_iff.mp h with hl | ⟨ht, -⟩
  · exact Or.inl hl
  · cases hs : d.scope with
    | main => exact Or.inr (Or.inr hs)
    | test => exact Or.inr (Or.inl (ht hs))

/-- A declaration in reach is not barred from a node that is near enough. -/
theorem open_of_inReach {a : Admitted} {d : Declaration} {n : Nat} (hw : Welcome p d)
    (hr : InReach p d (n + 1)) (ha : a.distance ≤ n) : barrier p a d = none := by
  refine barrier_eq_none_iff.mpr ?_
  cases hl : d.isLibrary with
  | true => exact Or.inl rfl
  | false =>
    refine Or.inr ⟨fun hs => ?_, fun limit hlimit => ?_⟩
    · rcases hw with h | h | h
      · rw [hl] at h; cases h
      · exact h
      · rw [hs] at h; cases h
    · have := hr limit hlimit
      simp only [hl, Bool.false_eq_true, if_false] at this
      omega

theorem InReach.pred {c d : Declaration} {n : Nat} (h : InReach p d (n + 1))
    (hc : c.isLibrary = false) : InReach p c n := by
  intro limit hlimit
  have := h limit hlimit
  simp only [hc, Bool.false_eq_true, if_false]
  split at this <;> omega

structure Ordered (p : Policy) (x : Index) (root : Declaration) (ns : List Admitted) : Prop where
  sorted : ns.Pairwise fun a b => a.distance ≤ b.distance
  ways : ∀ a ∈ ns, Way p x root a.distance a.decl

def Found (ns : List Admitted) (d : Declaration) (n : Nat) : Prop :=
  ∃ c ∈ ns, c.decl = d ∧ c.distance ≤ n

theorem Found.mono {ns ns' : List Admitted} {d : Declaration} {n : Nat} (h : Found ns d n)
    (hp : ns <+: ns') : Found ns' d n := by
  obtain ⟨c, hc, hrest⟩ := h
  exact ⟨c, hp.subset hc, hrest⟩

/-- A search while a node is followed: nothing is more than a step behind it. -/
structure Spreading (p : Policy) (x : Index) (root : Declaration) (a : Admitted) (s : Search) :
    Prop where
  ordered : Ordered p x root s.nodes
  node : a ∈ s.nodes
  near : ∀ b ∈ s.nodes, b.distance ≤ a.distance + 1

theorem found_of_has (hroot : x.get? root.id = some root) {a : Admitted} {s : Search}
    (h : Spreading p x root a s) {d : Declaration} (hx : x.get? d.id = some d)
    (hk : s.has d.id = true) : Found s.nodes d (a.distance + 1) := by
  obtain ⟨c, hc, hid⟩ := List.mem_map.mp (Search.has_iff.mp hk)
  have hknown := (h.ordered.ways c hc).indexed hroot
  rw [hid, hx] at hknown
  exact ⟨c, hc, (Option.some.inj hknown).symm, h.near c hc⟩

/-- Following one reference keeps the order, and finds what the reference leads to. -/
theorem Spreading.follow (hroot : x.get? root.id = some root) {a : Admitted} {s : Search}
    (h : Spreading p x root a s) (hp : a.decl.isLibrary = false) {r : Reference}
    (hr : r ∈ x.references a.decl.id) :
    Spreading p x root a (follow p x a s r) ∧
      ∀ d, r.target = some d.id → x.get? d.id = some d → barrier p a d = none →
        Found (Closure.follow p x a s r).nodes d (a.distance + 1) := by
  have hf := follow_follows (p := p) (x := x) a s r
  generalize Closure.follow p x a s r = s' at hf ⊢
  cases hf with
  | nameless ht =>
    refine ⟨⟨h.ordered, h.node, h.near⟩, fun d hd => ?_⟩
    rw [ht] at hd; cases hd
  | own ht =>
    refine ⟨h, fun d hd hx _ => ?_⟩
    have hid : a.decl.id = d.id := Option.some.inj (ht.symm.trans hd)
    exact found_of_has hroot h hx (Search.has_iff.mpr (hid ▸ List.mem_map_of_mem h.node))
  | known t ht _ hk =>
    refine ⟨⟨h.ordered, h.node, h.near⟩, fun d hd hx _ => ?_⟩
    exact found_of_has hroot h hx (Option.some.inj (ht.symm.trans hd) ▸ hk)
  | absent t ht _ _ hx =>
    refine ⟨⟨h.ordered, h.node, h.near⟩, fun d hd hx' _ => ?_⟩
    rw [← Option.some.inj (ht.symm.trans hd), hx] at hx'
    cases hx'
  | barred d e ht _ _ hx hb =>
    refine ⟨⟨h.ordered, h.node, h.near⟩, fun d' hd hx' hopen => ?_⟩
    rw [← Option.some.inj (ht.symm.trans hd), hx] at hx'
    rw [← Option.some.inj hx', hb] at hopen
    cases hopen
  | admitted d ht _ _ hx hb =>
    have hway : Way p x root (a.distance + 1) d :=
      (h.ordered.ways a h.node).step hp hr ht hx (welcome_of_open hb)
    refine ⟨⟨⟨?_, ?_⟩, by simp [h.node], ?_⟩, fun d' hd hx' _ => ?_⟩
    · rw [Search.enter_nodes, Search.reach_nodes, List.pairwise_append]
      refine ⟨h.ordered.sorted, by simp, fun b hb' c hc => ?_⟩
      rw [List.mem_singleton.mp hc]
      exact h.near b hb'
    · intro b hb'
      simp only [Search.enter_nodes, Search.reach_nodes, List.mem_append,
        List.mem_singleton] at hb'
      rcases hb' with hb' | rfl
      · exact h.ordered.ways b hb'
      · exact hway
    · intro b hb'
      simp only [Search.enter_nodes, Search.reach_nodes, List.mem_append,
        List.mem_singleton] at hb'
      rcases hb' with hb' | rfl
      · exact h.near b hb'
      · exact Nat.le_refl _
    · rw [← Option.some.inj (ht.symm.trans hd), hx] at hx'
      exact ⟨⟨d, a.distance + 1⟩, by simp, Option.some.inj hx', Nat.le_refl _⟩

theorem Spreading.followAll (hroot : x.get? root.id = some root) {a : Admitted}
    (hp : a.decl.isLibrary = false) (rs : List Reference)
    (hrs : ∀ r ∈ rs, r ∈ x.references a.decl.id) :
    ∀ {s : Search}, Spreading p x root a s →
      Spreading p x root a (rs.foldl (Closure.follow p x a) s) ∧
        Extends s (rs.foldl (Closure.follow p x a) s) ∧
        ∀ r ∈ rs, ∀ d, r.target = some d.id → x.get? d.id = some d → barrier p a d = none →
          Found (rs.foldl (Closure.follow p x a) s).nodes d (a.distance + 1) := by
  induction rs with
  | nil => exact fun h => ⟨h, .refl _, by simp⟩
  | cons r rs ih =>
    intro s h
    obtain ⟨hstep, hfound⟩ := h.follow hroot hp (hrs r List.mem_cons_self)
    obtain ⟨hdone, hext, hrest⟩ := ih (fun r hr => hrs r (List.mem_cons_of_mem _ hr)) hstep
    refine ⟨hdone, (extends_follow a s r).trans hext, fun r' hr' d hd hx hb => ?_⟩
    rcases List.mem_cons.mp hr' with rfl | hr'
    · exact (hfound d hd hx hb).mono hext.nodes
    · exact hrest r' hr' d hd hx hb

/-- A search between two nodes. What a followed node leads to is a node already, and nothing is
more than a step behind the node that is next. -/
structure Layered (p : Policy) (x : Index) (root : Declaration) (s : Search) : Prop where
  ordered : Ordered p x root s.nodes
  near : ∀ a, s.nodes[s.followed]? = some a → ∀ b ∈ s.nodes, b.distance ≤ a.distance + 1
  spread : ∀ a ∈ s.nodes.take s.followed, ∀ d, LeadsTo p x a d →
    Found s.nodes d (a.distance + 1)

namespace Layered

variable {s : Search}

theorem start (s : Search) (hn : s.nodes = [⟨root, 0⟩]) (hf : s.followed = 0) :
    Layered p x root s where
  ordered := by
    rw [hn]
    refine ⟨by simp, fun a ha => ?_⟩
    rw [List.mem_singleton.mp ha]
    exact .start
  near a _ b hb := by
    rw [hn] at hb
    rw [List.mem_singleton.mp hb]
    exact Nat.zero_le _
  spread a ha := by simp [hf] at ha

theorem near_next {ns : List Admitted} (h : ns.Pairwise fun a b => a.distance ≤ b.distance)
    {n : Nat} {a b : Admitted} (ha : ns[n]? = some a) (hb : ns[n + 1]? = some b) :
    a.distance ≤ b.distance := by
  obtain ⟨hn, rfl⟩ := List.getElem?_eq_some_iff.mp ha
  obtain ⟨hn', rfl⟩ := List.getElem?_eq_some_iff.mp hb
  exact List.pairwise_iff_getElem.mp h n (n + 1) hn hn' (Nat.lt_succ_self n)

theorem followNode (hroot : x.get? root.id = some root) (h : Layered p x root s) {a : Admitted}
    (ha : s.nodes[s.followed]? = some a) : Layered p x root (followNode p x s a) := by
  have hlt : s.followed < s.nodes.length := (List.getElem?_eq_some_iff.mp ha).1
  have htake : s.nodes.take (s.followed + 1) = s.nodes.take s.followed ++ [a] := by
    simp [List.take_add_one, ha]
  unfold Closure.followNode
  cases hl : a.decl.isLibrary with
  | true =>
    simp only [if_true]
    refine ⟨h.ordered, fun b hb c hc => ?_, fun c hc d hd => ?_⟩
    · have := near_next h.ordered.sorted ha hb
      have := h.near a ha c hc
      omega
    · rw [htake] at hc
      rcases List.mem_append.mp hc with hc | hc
      · exact h.spread c hc d hd
      · rw [List.mem_singleton.mp hc] at hd
        have hproject := hd.project
        rw [hl] at hproject
        cases hproject
  | false =>
    have hmid : Spreading p x root a { s with followed := s.followed + 1 } :=
      ⟨h.ordered, List.mem_of_getElem? ha, h.near a ha⟩
    obtain ⟨hdone, hext, hfound⟩ :=
      hmid.followAll hroot hl (x.references a.decl.id) (fun _ hr => hr)
    simp only [Bool.false_eq_true, if_false]
    generalize (x.references a.decl.id).foldl (Closure.follow p x a) _ = s' at hdone hext hfound
    have hfollowed : s'.followed = s.followed + 1 := hext.followed
    have ha' : s'.nodes[s.followed]? = some a := by
      obtain ⟨rest, hnodes⟩ := hext.nodes
      rw [← hnodes, List.getElem?_append_left hlt, ha]
    refine ⟨hdone.ordered, fun b hb c hc => ?_, fun c hc d hd => ?_⟩
    · rw [hfollowed] at hb
      have := near_next hdone.ordered.sorted ha' hb
      have := hdone.near c hc
      omega
    · obtain ⟨rest, hnodes⟩ := hext.nodes
      rw [hfollowed, ← hnodes, List.take_append_of_le_length hlt, htake] at hc
      rcases List.mem_append.mp hc with hc | hc
      · exact (h.spread c hc d hd).mono hext.nodes
      · obtain rfl := List.mem_singleton.mp hc
        obtain ⟨r, hr, ht⟩ := hd.reference
        exact hfound r hr d ht hd.indexed hd.open_

theorem expand (hroot : x.get? root.id = some root) (fuel : Nat) :
    ∀ {s : Search}, Layered p x root s → Layered p x root (expand p x fuel s) := by
  induction fuel with
  | zero => exact fun h => h
  | succ fuel ih =>
    intro s h
    unfold Closure.expand
    cases ha : s.nodes[s.followed]? with
    | none => exact h
    | some a => exact ih (h.followNode hroot ha)

/-- When every node has been followed, whatever a way in reach leads to is a node, and no way to
it is shorter than its distance. -/
theorem found_of_way (h : Layered p x root s) (hall : s.followed = s.nodes.length)
    (hstart : Found s.nodes root 0) {n : Nat} {d : Declaration} (hw : Way p x root n d) :
    InReach p d n → Found s.nodes d n := by
  induction hw with
  | start => exact fun _ => hstart
  | @step n c d r _ hc hr ht hx hwel ih =>
    intro hreach
    obtain ⟨a, ha, rfl, hdist⟩ := ih (hreach.pred hc)
    have hleads : LeadsTo p x a d :=
      ⟨hc, ⟨r, hr, ht⟩, hx, open_of_inReach hwel hreach hdist⟩
    have htake : a ∈ s.nodes.take s.followed := by rw [hall, List.take_length]; exact ha
    obtain ⟨b, hb, hdecl, hle⟩ := h.spread a htake d hleads
    exact ⟨b, hb, hdecl, by omega⟩

end Layered

/-- What one declaration has to do with another that it brings in: a reference to it, or the type
whose constructor the other is. -/
def Brings (x : Index) (n m : Declaration) : Prop :=
  (∃ r ∈ x.references n.id, r.target = some m.id) ∨
    (m.kind = .ctor ∧ ∃ owner, m.parent = some owner ∧ (n.id = owner ∨ n.parent = some owner))

/-- Distances are those of shortest ways, and nothing is a member without a reason. -/
structure Measured (p : Policy) (x : Index) (root : Declaration) (c : Closure) : Prop where
  shortest : ∀ n d, Way p x root n d → (∀ k, Way p x root k d → n ≤ k) → InReach p d n →
    ∃ m ∈ c.members, m.decl = d ∧ m.distance = n
  reason : ∀ (i : Nat) (m : Member), c.members[i]? = some m → m.decl.id ≠ root.id →
    ∃ (j : Nat) (n : Member), j < i ∧ c.members[j]? = some n ∧ n.decl.isLibrary = false ∧
      m.distance = n.distance + 1 ∧ Brings x n.decl m.decl

theorem owner_cases {d : Declaration} {owner : QName} (h : ownerOf d = some owner) :
    d.id = owner ∨ d.parent = some owner := by
  unfold ownerOf at h
  split at h
  · exact Or.inl (Option.some.inj h)
  · exact Or.inr h

theorem Grown.reason {s : Search} (h : Grown p x root s.nodes) {i : Nat} {m : Member}
    (hm : (ofSearch p root.id s).members[i]? = some m) (hne : m.decl.id ≠ root.id) :
    ∃ (j : Nat) (n : Member), j < i ∧ (ofSearch p root.id s).members[j]? = some n ∧
      n.decl.isLibrary = false ∧ m.distance = n.distance + 1 ∧ Brings x n.decl m.decl := by
  simp only [ofSearch, List.getElem?_map, Option.map_eq_some_iff] at hm ⊢
  obtain ⟨b, hb, rfl⟩ := hm
  rcases h.justified hb with rfl | ⟨j, a, hj, ha, hdist, hreason⟩
  · rw [← List.head?_eq_getElem?, h.head] at hb
    exact absurd (Option.some.inj hb ▸ rfl) hne
  · refine ⟨j, memberOf p root.id s a, hj, ⟨a, ha, rfl⟩, ?_, hdist, ?_⟩
    · exact hreason.elim LeadsTo.project BringsAlong.project
    · rcases hreason with hleads | hbrings
      · exact Or.inl hleads.reference
      · obtain ⟨owner, howner, hparent⟩ := hbrings.owner
        exact Or.inr ⟨hbrings.ctor, owner, hparent, owner_cases howner⟩

/-- Whatever index was built and whichever declaration of the project is asked for, its closure
holds what shortest ways lead to at their lengths, and nothing without a reason. -/
theorem closure_measures_shortest_ways (top : Path) (ops : List Index.Operation) (p : Policy)
    (name : String) (d : Declaration) (hd : (Index.build top ops).get? ⟨name⟩ = some d)
    (hp : d.isLibrary = false) :
    ∃ c, resolve p (Index.build top ops) name = .ok c ∧ c.root = ⟨name⟩ ∧
      Measured p (Index.build top ops) d c := by
  obtain ⟨s, hs, hfin, hfirst⟩ := resolve_finished (p := p) (Index.build_distinct top ops) hd hp
  obtain ⟨-, hid⟩ := Index.get?_some hd
  have hroot : (Index.build top ops).get? d.id = some d := hid ▸ hd
  have hinv : Invariant p (Index.build top ops) d (Search.enter {} ⟨d, 0⟩) := .start hp
  obtain ⟨hgrown, hall, -⟩ := hinv.expand hroot ((Index.build top ops).nodes.length + 1)
    (by omega)
  have hlayered : Layered p (Index.build top ops) d
      (expand p (Index.build top ops) ((Index.build top ops).nodes.length + 1)
        (Search.enter {} ⟨d, 0⟩)) :=
    (Layered.start _ (by simp) (by simp)).expand hroot _
  refine ⟨_, hs, hid, ⟨fun n e hway hmin hreach => ?_, fun i m hm hne =>
    hfin.invariant.grown.reason hm hne⟩⟩
  have hstart : Found _ d 0 :=
    ⟨⟨d, 0⟩, List.mem_of_head? hgrown.grown.head, rfl, Nat.le_refl _⟩
  obtain ⟨b, hb, rfl, hle⟩ := hlayered.found_of_way hall hstart hway hreach
  refine ⟨_, mem_memberOf (hfirst.subset hb), rfl, ?_⟩
  exact Nat.le_antisymm hle (hmin _ (hlayered.ordered.ways b hb))

/-- The shop opens the till, which takes a coin, and no shorter way leads to the coin. -/
theorem coin_is_two_steps_away :
    shopIndex.get? ⟨"shop.Shop"⟩ = some (projectClass "Shop") ∧
      ∃ c, resolve twoSteps shopIndex "shop.Shop" = .ok c ∧
        ∃ m ∈ c.members, m.decl = projectClass "Coin" ∧ m.distance = 2 := by
  obtain ⟨c, hc, -, hm⟩ := closure_measures_shortest_ways ⟨"/"⟩ shopOperations twoSteps
    "shop.Shop" (projectClass "Shop") rfl rfl
  have hway : Way twoSteps shopIndex (projectClass "Shop") 2 (projectClass "Coin") :=
    .step (c := { projectClass "Till.open" with kind := .method, parent := some ⟨"shop.Till"⟩ })
      (.step .start rfl (.head _) rfl rfl (Or.inr (Or.inr rfl))) rfl (.tail _ (.head _)) rfl rfl
      (Or.inr (Or.inr rfl))
  refine ⟨rfl, c, hc, hm.shortest 2 _ hway ?_ ?_⟩
  · have hdirect : ∀ r ∈ shopIndex.references ⟨"shop.Shop"⟩, r.target ≠ some ⟨"shop.Coin"⟩ := by
      decide
    intro k hk
    generalize hcoin : projectClass "Coin" = coin at hk
    cases hk with
    | start => simp [projectClass] at hcoin
    | step hfirst _ hr ht _ _ =>
      cases hfirst with
      | start =>
        subst hcoin
        exact absurd ht (hdirect _ hr)
      | step => omega
  · intro limit hlimit
    obtain rfl := Option.some.inj hlimit
    decide

end Carve.Closure
