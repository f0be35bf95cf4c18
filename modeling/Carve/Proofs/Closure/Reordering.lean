import Carve.Proofs.Closure.Distance
import Carve.Proofs.Closure.Grades
import Carve.Proofs.Closure.Libraries
import Carve.Proofs.Closure.Rounds

/-!
# The order of references

Without a depth limit a closure does not depend on the order in which references and members are
listed. An expansion adds whatever open references lead to, and a round brings in whatever
constructors the nodes call for; both are told by sets. Only the tests that are left out have a
history, since the constructors of a test may come in later, but it is one of whole rounds.
-/

namespace Carve

/-- The same declarations with the same references and members in any order. -/
structure Index.Reordered (x y : Index) : Prop where
  declarations : ∀ id, x.get? id = y.get? id
  references : ∀ id, (x.references id).Perm (y.references id)
  children : ∀ id, (x.children id).Perm (y.children id)

theorem Index.Reordered.of_nodes {x y : Index} (hx : x.Distinct) (hy : y.Distinct)
    (hdecls : (x.nodes.map (·.decl)).Perm (y.nodes.map (·.decl)))
    (hrefs : ∀ n ∈ x.nodes, n.references.Perm (y.references n.decl.id)) : x.Reordered y where
  declarations id := by
    refine Option.ext fun d => ⟨fun hd => ?_, fun hd => ?_⟩
    · obtain ⟨hm, rfl⟩ := Index.get?_some hd
      exact Index.get?_of_mem hy (hdecls.mem_iff.mp hm)
    · obtain ⟨hm, rfl⟩ := Index.get?_some hd
      exact Index.get?_of_mem hx (hdecls.mem_iff.mpr hm)
  references id := by
    cases hn : x.node? id with
    | some n =>
      obtain ⟨hm, rfl⟩ := Index.node?_some hn
      simpa [Index.references, hn] using hrefs n hm
    | none =>
      have hnone : y.node? id = none := by
        rw [Option.eq_none_iff_forall_ne_some]
        intro m hm
        obtain ⟨hmem, rfl⟩ := Index.node?_some hm
        have hd := Index.get?_of_mem hx (hdecls.mem_iff.mpr (List.mem_map_of_mem hmem))
        simp [Index.get?, hn] at hd
      simp [Index.references, hn, hnone]
  children id := by
    have hfilter : ∀ z : Index,
        z.children id = (z.nodes.map (·.decl)).filter fun d => d.parent == some id := by
      simp [Index.children, List.filter_map, Function.comp_def]
    rw [hfilter, hfilter]
    exact hdecls.filter _

theorem Index.Reordered.symm {x y : Index} (h : x.Reordered y) : y.Reordered x :=
  ⟨fun id => (h.declarations id).symm, fun id => (h.references id).symm,
    fun id => (h.children id).symm⟩

/-- Only the set of kinds counts. -/
theorem Policy.inclusionForAll_congr {p : Policy} {ks ls : List Reference.Kind}
    (h : ∀ k, k ∈ ks ↔ k ∈ ls) : p.inclusionForAll ks = p.inclusionForAll ls := by
  by_cases hcontent : ∀ k ∈ ks, p.ContentWithStub k
  · rw [inclusionForAll_eq_stub hcontent,
      inclusionForAll_eq_stub fun k hk => hcontent k ((h k).mpr hk)]
  · obtain ⟨k, hk, hnot⟩ : ∃ k ∈ ks, ¬ p.ContentWithStub k := by
      simpa using hcontent
    rw [inclusionForAll_eq_full hk hnot, inclusionForAll_eq_full ((h k).mp hk) hnot]

namespace Closure

variable {p : Policy} {x y : Index} {root : Declaration}

def decls (ns : List Admitted) : List Declaration := ns.map (·.decl)

@[simp] theorem mem_decls {ns : List Admitted} {d : Declaration} :
    d ∈ decls ns ↔ ∃ a ∈ ns, a.decl = d := by
  simp [decls]

inductive Spread (p : Policy) (x : Index) (start : List Declaration) : Declaration → Prop where
  | start {d : Declaration} : d ∈ start → Spread p x start d
  | step {c d : Declaration} {r : Reference} : Spread p x start c → c.isLibrary = false →
      r ∈ x.references c.id → r.target = some d.id → x.get? d.id = some d → Welcome p d →
      Spread p x start d

namespace Spread

variable {start mid : List Declaration} {d : Declaration}

theorem trans (h : Spread p x mid d) (hmid : ∀ c ∈ mid, Spread p x start c) :
    Spread p x start d := by
  induction h with
  | start hd => exact hmid _ hd
  | step _ hl hr ht hx hw ih => exact .step ih hl hr ht hx hw

theorem reorder (hxy : x.Reordered y) (h : Spread p x start d) (hsub : start ⊆ mid) :
    Spread p y mid d := by
  induction h with
  | start hd => exact .start (hsub hd)
  | step _ hl hr ht hx hw ih =>
    exact .step ih hl ((hxy.references _).mem_iff.mp hr) ht (hxy.declarations _ ▸ hx) hw

end Spread

theorem spread_of_mem_expand (fuel : Nat) : ∀ {s : Search} {b : Admitted},
    b ∈ (expand p x fuel s).nodes → Spread p x (decls s.nodes) b.decl := by
  induction fuel with
  | zero => exact fun {s b} hb => .start (mem_decls.mpr ⟨b, hb, rfl⟩)
  | succ fuel ih =>
    intro s b hb
    unfold expand at hb
    cases ha : s.nodes[s.followed]? with
    | none =>
      rw [ha] at hb
      exact .start (mem_decls.mpr ⟨b, hb, rfl⟩)
    | some a =>
      rw [ha] at hb
      refine (ih hb).trans fun c hc => ?_
      obtain ⟨c', hc', rfl⟩ := mem_decls.mp hc
      have hknown : Spread p x (decls s.nodes) a.decl :=
        .start (mem_decls.mpr ⟨a, List.mem_of_getElem? ha, rfl⟩)
      rcases mem_followNode_nodes hc' with hold | ⟨-, hleads⟩
      · exact .start (mem_decls.mpr ⟨c', hold, rfl⟩)
      · obtain ⟨r, hr, ht⟩ := hleads.reference
        exact .step hknown hleads.project hr ht hleads.indexed (welcome_of_open hleads.open_)

theorem barrier_unlimited (hdepth : p.maxDepth = none) {a : Admitted} {d : Declaration}
    (hw : Welcome p d) : barrier p a d = none := by
  refine open_of_inReach hw ?_ (Nat.le_refl a.distance)
  intro limit hlimit
  rw [hdepth] at hlimit
  cases hlimit

theorem barrier_some_unlimited (hdepth : p.maxDepth = none) {a : Admitted} {d : Declaration}
    {e : Diagnostic} (h : barrier p a d = some e) :
    e = .testExcluded a.decl.id d.id ∧ ¬ Welcome p d := by
  refine ⟨?_, fun hw => ?_⟩
  · obtain ⟨-, ⟨-, -, he⟩ | ⟨-, ⟨limit, hlimit, -⟩, -⟩⟩ := barrier_eq_some_iff.mp h
    · exact he.symm
    · rw [hdepth] at hlimit
      cases hlimit
  · rw [barrier_unlimited hdepth hw] at h
    cases h

theorem Invariant.has_of_leads {s : Search} (h : Invariant p x root s)
    (hroot : x.get? root.id = some root) (hall : s.followed = s.nodes.length) {a : Admitted}
    (ha : a ∈ s.nodes) {d : Declaration} (hleads : LeadsTo p x a d) : d ∈ decls s.nodes := by
  have hacc := h.accounts
  rw [hall, List.take_length] at hacc
  have hindexed := h.grown.indexed hroot
  obtain ⟨r, hr, ht⟩ := hleads.reference
  by_cases hown : d.id = a.decl.id
  · have hx := hleads.indexed
    rw [hown, hindexed a ha] at hx
    exact mem_decls.mpr ⟨a, ha, Option.some.inj hx⟩
  have hother : r.target ≠ some a.decl.id := by
    rw [ht]
    exact fun heq => hown (Option.some.inj heq)
  have huse : (a, r) ∈ uses x s.nodes := mem_uses.mpr ⟨ha, hleads.project, hr⟩
  rcases hacc.has_or_barred huse hother ht hleads.indexed with hk | ⟨e, -, hb⟩
  · obtain ⟨b, hb, hid⟩ := List.mem_map.mp (Search.has_iff.mp hk)
    have hx := hindexed b hb
    rw [hid, hleads.indexed] at hx
    exact mem_decls.mpr ⟨b, hb, (Option.some.inj hx).symm⟩
  · rw [hleads.open_] at hb
    cases hb

theorem mem_decls_expand (hdepth : p.maxDepth = none) (hroot : x.get? root.id = some root)
    {s : Search} (h : Invariant p x root s) {fuel : Nat}
    (hfuel : x.nodes.length ≤ fuel + s.followed) {d : Declaration} :
    d ∈ decls (expand p x fuel s).nodes ↔ Spread p x (decls s.nodes) d := by
  obtain ⟨hinv, hall, hprefix⟩ := h.expand hroot fuel hfuel
  constructor
  · intro hd
    obtain ⟨b, hb, rfl⟩ := mem_decls.mp hd
    exact spread_of_mem_expand fuel hb
  · intro hd
    induction hd with
    | start hd =>
      obtain ⟨a, ha, rfl⟩ := mem_decls.mp hd
      exact mem_decls.mpr ⟨a, hprefix.subset ha, rfl⟩
    | step _ hl hr ht hx hw ih =>
      obtain ⟨a, ha, rfl⟩ := mem_decls.mp ih
      exact hinv.has_of_leads hroot hall ha ⟨hl, ⟨_, hr, ht⟩, hx, barrier_unlimited hdepth hw⟩

def Misses (p : Policy) (x : Index) (known : List Declaration) (c : Declaration) (t : QName) :
    Prop :=
  c.isLibrary = false ∧ t ≠ c.id ∧ (∃ r ∈ x.references c.id, r.target = some t) ∧
    ∃ d, x.get? t = some d ∧ ¬ Welcome p d ∧ d ∉ known

theorem Misses.reorder (hxy : x.Reordered y) {known known' : List Declaration} {c : Declaration}
    {t : QName} (h : Misses p x known c t) (hsub : known' ⊆ known) : Misses p y known' c t := by
  obtain ⟨hl, hne, ⟨r, hr, ht⟩, d, hx, hw, hd⟩ := h
  exact ⟨hl, hne, ⟨r, (hxy.references _).mem_iff.mp hr, ht⟩, d, hxy.declarations t ▸ hx, hw,
    fun hm => hd (hsub hm)⟩

/-- Tests that are left out do not become nodes by following references. -/
theorem misses_followNode {s : Search} {a : Admitted} {c : Declaration} {t : QName} :
    Misses p x (decls (followNode p x s a).nodes) c t ↔ Misses p x (decls s.nodes) c t := by
  unfold Misses
  refine and_congr_right fun _ => and_congr_right fun _ => and_congr_right fun _ => ?_
  refine exists_congr fun d => and_congr_right fun _ => and_congr_right fun hw => not_congr ?_
  constructor
  · intro hd
    obtain ⟨b, hb, rfl⟩ := mem_decls.mp hd
    rcases mem_followNode_nodes hb with hold | ⟨-, hleads⟩
    · exact mem_decls.mpr ⟨b, hold, rfl⟩
    · exact absurd (welcome_of_open hleads.open_) hw
  · intro hd
    obtain ⟨b, hb, rfl⟩ := mem_decls.mp hd
    exact mem_decls.mpr ⟨b, subset_followNode s a hb, rfl⟩

theorem excluded_followNode (hdepth : p.maxDepth = none) (hroot : x.get? root.id = some root)
    {s : Search} (h : Invariant p x root s) {a : Admitted} (ha : s.nodes[s.followed]? = some a)
    {n t : QName} : .testExcluded n t ∈ (followNode p x s a).diagnostics ↔
      .testExcluded n t ∈ s.diagnostics ∨
        n = a.decl.id ∧ Misses p x (decls s.nodes) a.decl t := by
  constructor
  · intro he
    rcases bars_of_followNode (isCut_testExcluded n t) he with
      hold | ⟨hl, r, hr, d, ht, hne, hk, hx, hb⟩
    · exact Or.inl hold
    obtain ⟨hform, hw⟩ := barrier_some_unlimited hdepth hb
    obtain ⟨rfl, rfl⟩ := Diagnostic.testExcluded.inj hform
    refine Or.inr ⟨rfl, hl, hne, ⟨r, hr, ht⟩, d, hx, hw, fun hd => ?_⟩
    obtain ⟨b, hmem, rfl⟩ := mem_decls.mp hd
    rw [Search.has_iff.mpr (List.mem_map_of_mem hmem)] at hk
    cases hk
  · rintro (hold | ⟨rfl, hmiss⟩)
    · exact subset_followNode_diagnostics s a hold
    obtain ⟨hl, hne, ⟨r, hr, ht⟩, d, hx, hw, hd⟩ := misses_followNode.mpr hmiss
    obtain ⟨hinv, hfollowed, hprefix⟩ := h.followNode ha
    have hlt : s.followed < s.nodes.length := (List.getElem?_eq_some_iff.mp ha).1
    have htake : a ∈ (followNode p x s a).nodes.take (followNode p x s a).followed := by
      obtain ⟨rest, hnodes⟩ := hprefix
      rw [hfollowed, ← hnodes, List.take_append_of_le_length hlt, List.take_add_one, ha]
      simp
    have huse := mem_uses.mpr ⟨htake, hl, hr⟩
    rcases hinv.accounts.settled _ huse with hown | ⟨t', ht', hk⟩ | ⟨e, he, hremarks⟩
    · exact absurd (Option.some.inj (ht.symm.trans hown)) hne
    · obtain rfl := Option.some.inj (ht.symm.trans ht')
      obtain ⟨b, hb, hid⟩ := List.mem_map.mp (Search.has_iff.mp hk)
      have hxb := hinv.grown.indexed hroot b hb
      rw [hid, hx] at hxb
      exact absurd (mem_decls.mpr ⟨b, hb, (Option.some.inj hxb).symm⟩) hd
    · cases hremarks with
      | nameless hnone =>
        rw [ht] at hnone
        cases hnone
      | absent t' ht' _ hx' =>
        rw [← Option.some.inj (ht.symm.trans ht'), hx] at hx'
        cases hx'
      | barred d' e ht' _ _ hb =>
        rw [(barrier_some_unlimited hdepth hb).1] at he
        rwa [Option.some.inj (ht.symm.trans ht')]

theorem excluded_expand (hdepth : p.maxDepth = none) (hroot : x.get? root.id = some root)
    (fuel : Nat) {n t : QName} : ∀ {s : Search}, Invariant p x root s →
    x.nodes.length ≤ fuel + s.followed →
    (.testExcluded n t ∈ (expand p x fuel s).diagnostics ↔ .testExcluded n t ∈ s.diagnostics ∨
      ∃ b ∈ (expand p x fuel s).nodes.drop s.followed,
        n = b.decl.id ∧ Misses p x (decls s.nodes) b.decl t) := by
  induction fuel with
  | zero =>
    intro s h hfuel
    have := h.grown.length_le hroot
    have hnone : s.nodes.drop s.followed = [] := List.drop_eq_nil_of_le (by omega)
    simp [expand, hnone]
  | succ fuel ih =>
    intro s h hfuel
    cases ha : s.nodes[s.followed]? with
    | none =>
      have hsame : expand p x (fuel + 1) s = s := by
        unfold expand
        rw [ha]
      rw [hsame, List.drop_eq_nil_of_le (List.getElem?_eq_none_iff.mp ha)]
      simp
    | some a =>
      have hstep : expand p x (fuel + 1) s = expand p x fuel (followNode p x s a) := by
        conv_lhs => unfold expand
        rw [ha]
      obtain ⟨hinv, hfollowed, hprefix⟩ := h.followNode ha
      obtain ⟨-, -, hrest⟩ := hinv.expand hroot fuel (by omega)
      have hlt : s.followed < s.nodes.length := (List.getElem?_eq_some_iff.mp ha).1
      have hdrop : (expand p x fuel (followNode p x s a)).nodes.drop s.followed =
          a :: (expand p x fuel (followNode p x s a)).nodes.drop (s.followed + 1) := by
        obtain ⟨rest, hnodes⟩ := hprefix.trans hrest
        obtain ⟨_, hget⟩ := List.getElem?_eq_some_iff.mp ha
        rw [← hnodes, List.drop_append_of_le_length (Nat.le_of_lt hlt),
          List.drop_eq_getElem_cons hlt, hget, List.drop_append_of_le_length hlt]
        rfl
      have hlater := ih hinv (by omega)
      rw [hfollowed] at hlater
      rw [hstep, hlater, excluded_followNode hdepth hroot h ha, hdrop]
      simp only [misses_followNode, List.exists_mem_cons_iff]
      rw [or_assoc]

/-- Two searches that have come equally far: the same nodes, of which the same are followed, and
the same tests left out. -/
structure Alike (s t : Search) : Prop where
  nodes : ∀ d, d ∈ decls s.nodes ↔ d ∈ decls t.nodes
  followed : ∀ d, d ∈ decls (s.nodes.take s.followed) ↔ d ∈ decls (t.nodes.take t.followed)
  excluded : ∀ n q, .testExcluded n q ∈ s.diagnostics ↔ .testExcluded n q ∈ t.diagnostics

theorem Alike.symm {s t : Search} (h : Alike s t) : Alike t s :=
  ⟨fun d => (h.nodes d).symm, fun d => (h.followed d).symm, fun n q => (h.excluded n q).symm⟩

theorem Alike.has {s t : Search} (h : Alike s t) (id : QName) : s.has id = t.has id := by
  have hids : ∀ u : Search, u.has id = true ↔ ∃ d ∈ decls u.nodes, d.id = id := fun u => by
    simp [Search.has_iff]
  rw [Bool.eq_iff_iff, hids, hids]
  exact exists_congr fun d => and_congr_left fun _ => h.nodes d

theorem Grown.mem_decls_drop {ns : List Admitted} (h : Grown p x root ns) (n : Nat)
    {d : Declaration} : d ∈ decls (ns.drop n) ↔ d ∈ decls ns ∧ d ∉ decls (ns.take n) := by
  have hnodup : (decls ns).Nodup := .of_map (·.id) <| by
    rw [decls, List.map_map]
    exact h.nodup
  unfold decls at hnodup ⊢
  rw [List.map_take, List.map_drop]
  generalize ns.map (·.decl) = ds at hnodup ⊢
  have hdisjoint := List.disjoint_take_drop hnodup (Nat.le_refl n)
  rw [← List.take_append_drop n ds, List.mem_append, List.take_append_drop]
  constructor
  · exact fun hd => ⟨Or.inr hd, fun ht => hdisjoint ht hd⟩
  · exact fun ⟨hd, ht⟩ => hd.resolve_left ht

theorem Alike.expand (hdepth : p.maxDepth = none) (hxy : x.Reordered y)
    (hroot : x.get? root.id = some root) {s t : Search} (hs : Invariant p x root s)
    (ht : Invariant p y root t) (h : Alike s t) :
    Alike (expand p x (x.nodes.length + 1) s) (expand p y (y.nodes.length + 1) t) := by
  have hroot' : y.get? root.id = some root := hxy.declarations root.id ▸ hroot
  obtain ⟨hs', hsall, hsprefix⟩ := hs.expand hroot (x.nodes.length + 1) (by omega)
  obtain ⟨ht', htall, htprefix⟩ := ht.expand hroot' (y.nodes.length + 1) (by omega)
  have hnodes : ∀ d, d ∈ decls (Closure.expand p x (x.nodes.length + 1) s).nodes ↔
      d ∈ decls (Closure.expand p y (y.nodes.length + 1) t).nodes := by
    intro d
    rw [mem_decls_expand hdepth hroot hs (by omega), mem_decls_expand hdepth hroot' ht (by omega)]
    exact ⟨fun hd => hd.reorder hxy fun c => (h.nodes c).mp,
      fun hd => hd.reorder hxy.symm fun c => (h.nodes c).mpr⟩
  refine ⟨hnodes, ?_, fun n q => ?_⟩
  · rw [hsall, htall, List.take_length, List.take_length]
    exact hnodes
  · have hfollows : ∀ (z : Index) (u : Search), Invariant p z root u →
        u.nodes <+: (Closure.expand p z (z.nodes.length + 1) u).nodes →
        Invariant p z root (Closure.expand p z (z.nodes.length + 1) u) → ∀ c,
        (c ∈ decls ((Closure.expand p z (z.nodes.length + 1) u).nodes.drop u.followed) ↔
          c ∈ decls (Closure.expand p z (z.nodes.length + 1) u).nodes ∧
            c ∉ decls (u.nodes.take u.followed)) := by
      intro z u hu hprefix hinv c
      rw [hinv.grown.mem_decls_drop]
      obtain ⟨rest, hrest⟩ := hprefix
      rw [← hrest, List.take_append_of_le_length hu.followed_le]
    have hexcluded : ∀ (z : Index) (u : Search),
        (∃ b ∈ (Closure.expand p z (z.nodes.length + 1) u).nodes.drop u.followed,
          n = b.decl.id ∧ Misses p z (decls u.nodes) b.decl q) ↔
        ∃ c ∈ decls ((Closure.expand p z (z.nodes.length + 1) u).nodes.drop u.followed),
          n = c.id ∧ Misses p z (decls u.nodes) c q := by
      simp
    rw [excluded_expand hdepth hroot _ hs (by omega), excluded_expand hdepth hroot' _ ht (by omega),
      h.excluded n q, hexcluded, hexcluded]
    refine or_congr_right (exists_congr fun c => and_congr ?_ (and_congr_right fun _ => ?_))
    · rw [hfollows x s hs hsprefix hs', hfollows y t ht htprefix ht', hnodes, h.followed]
    · exact ⟨fun hm => hm.reorder hxy fun e => (h.nodes e).mpr,
        fun hm => hm.reorder hxy.symm fun e => (h.nodes e).mp⟩

theorem Invariant.cut_unlimited (hdepth : p.maxDepth = none) {s : Search}
    (h : Invariant p x root s) {n q : QName} :
    Cut s.diagnostics n q ↔ .testExcluded n q ∈ s.diagnostics := by
  refine ⟨fun hc => hc.resolve_left fun hlimit => ?_, Or.inr⟩
  rcases h.accounts.caused _ hlimit with ⟨u, -, hr⟩ | ⟨b, -, c, -, he⟩
  · obtain ⟨d, -, -, -, -, hb⟩ := hr.barrier_of_cut (Or.inl rfl)
    cases (barrier_some_unlimited hdepth hb).1
  · cases he

theorem Alike.incoming (hdepth : p.maxDepth = none) (hxy : x.Reordered y) {s t : Search}
    (hs : Invariant p x root s) (ht : Invariant p y root t) (h : Alike s t) {q : QName}
    {k : Reference.Kind} (hk : (q, k) ∈ s.incoming) : (q, k) ∈ t.incoming := by
  rw [hs.accounts.incoming] at hk
  obtain ⟨hhas, ⟨a, r⟩, hu, htarget, hkind, hne, hc⟩ := hk
  obtain ⟨ha, hl, hr⟩ := mem_uses.mp hu
  obtain ⟨b, hb, hdecl⟩ := mem_decls.mp ((h.followed a.decl).mp (mem_decls.mpr ⟨a, ha, rfl⟩))
  rw [hs.cut_unlimited hdepth, h.excluded] at hc
  refine (ht.accounts.incoming q k).mpr ⟨h.has q ▸ hhas, (b, r), mem_uses.mpr ⟨hb, ?_, ?_⟩,
    htarget, hkind, ?_, ?_⟩
  · rwa [hdecl]
  · rw [hdecl]
    exact (hxy.references _).mem_iff.mp hr
  · rwa [hdecl]
  · rwa [hdecl, ht.cut_unlimited hdepth]

theorem Alike.inclusion (hdepth : p.maxDepth = none) (hxy : x.Reordered y) {s t : Search}
    (hs : Invariant p x root s) (ht : Invariant p y root t) (h : Alike s t) (id : QName)
    (d : Declaration) : inclusion p s id d = inclusion p t id d := by
  have hkinds : p.inclusionForAll (s.kindsInto d.id) = p.inclusionForAll (t.kindsInto d.id) := by
    refine Policy.inclusionForAll_congr fun k => ?_
    rw [Search.mem_kindsInto, Search.mem_kindsInto]
    exact ⟨h.incoming hdepth hxy hs ht, h.symm.incoming hdepth hxy.symm ht hs⟩
  simp only [Closure.inclusion, hkinds]

theorem Alike.keptWhole (hdepth : p.maxDepth = none) (hxy : x.Reordered y) {s t : Search}
    (hs : Invariant p x root s) (ht : Invariant p y root t) (h : Alike s t) (id owner : QName) :
    keptWhole p s id owner = keptWhole p t id owner := by
  have hdecls : ∀ u : Search, (∃ a ∈ u.nodes, a.decl.id = owner ∧
      Closure.inclusion p u id a.decl = .full) ↔
      ∃ d ∈ decls u.nodes, d.id = owner ∧ Closure.inclusion p u id d = .full := by
    simp
  rw [Bool.eq_iff_iff, keptWhole_iff hs.grown, keptWhole_iff ht.grown, hdecls, hdecls]
  refine exists_congr fun d => and_congr (h.nodes d) (and_congr_right fun _ => ?_)
  rw [h.inclusion hdepth hxy hs ht]

theorem Alike.needsCtors {s t : Search} (h : Alike s t) (d : Declaration)
    {ms ms' : List Declaration} (hperm : ms.Perm ms') :
    needsCtors s d ms = needsCtors t d ms' := by
  unfold Closure.needsCtors
  rw [hperm.any_eq]
  simp only [h.has]

theorem Alike.missing (hdepth : p.maxDepth = none) (hxy : x.Reordered y) {s t : Search}
    (hs : Invariant p x root s) (ht : Invariant p y root t) (h : Alike s t) {d : Declaration}
    (hd : d ∈ decls (missingCtors p x s root.id)) : d ∈ decls (missingCtors p y t root.id) := by
  obtain ⟨owner, ⟨a, ha, hl, howner⟩, hkept, ⟨T, hT, hneeds⟩, hm, hkind, hhas⟩ :=
    mem_missing_decls.mp hd
  obtain ⟨b, hb, hdecl⟩ := mem_decls.mp ((h.nodes a.decl).mp (mem_decls.mpr ⟨a, ha, rfl⟩))
  refine mem_missing_decls.mpr ⟨owner, ⟨b, hb, by rwa [hdecl], by rwa [hdecl]⟩, ?_, ⟨T, ?_, ?_⟩,
    (hxy.children owner).mem_iff.mp hm, hkind, ?_⟩
  · rw [← h.keptWhole hdepth hxy hs ht, hkept]
  · rw [← hxy.declarations, hT]
  · rw [← h.needsCtors T (hxy.children owner), hneeds]
  · rw [← h.has, hhas]

theorem Alike.bring {s t : Search} (h : Alike s t) (hsall : s.followed = s.nodes.length)
    (htall : t.followed = t.nodes.length) {more more' : List Admitted}
    (hmore : ∀ d, d ∈ decls more ↔ d ∈ decls more') (hs : (more.foldl Search.enter s).followed =
      s.followed) (ht : (more'.foldl Search.enter t).followed = t.followed) :
    Alike (more.foldl Search.enter s) (more'.foldl Search.enter t) := by
  obtain ⟨hsnodes, -, hscut⟩ := foldl_enter more s
  obtain ⟨htnodes, -, htcut⟩ := foldl_enter more' t
  refine ⟨fun d => ?_, fun d => ?_, fun n q => ?_⟩
  · rw [hsnodes, htnodes, decls, decls, List.map_append, List.map_append, List.mem_append,
      List.mem_append]
    exact or_congr (h.nodes d) (hmore d)
  · rw [hs, ht, hsnodes, htnodes, hsall, htall, List.take_left', List.take_left']
    · exact h.nodes d
    · rfl
    · rfl
  · rw [hscut _ (isCut_testExcluded n q), htcut _ (isCut_testExcluded n q), h.excluded]

theorem decls_eq_nil {ns : List Admitted} : ns = [] ↔ ∀ d, d ∉ decls ns := by
  rw [← List.eq_nil_iff_forall_not_mem, decls, List.map_eq_nil_iff]

/-- The rounds of two searches that are alike stay alike, for as many rounds as either takes. -/
theorem Alike.complete (hdepth : p.maxDepth = none) (hxy : x.Reordered y) (hx : x.Distinct)
    (hy : y.Distinct) (hroot : x.get? root.id = some root) (fuel : Nat) :
    ∀ {s t : Search} {fuel' : Nat}, Invariant p x root s → Invariant p y root t → Alike s t →
      x.nodes.length < fuel + s.nodes.length → y.nodes.length < fuel' + t.nodes.length →
      Alike (complete p x root.id fuel s) (complete p y root.id fuel' t) := by
  have hroot' : y.get? root.id = some root := hxy.declarations root.id ▸ hroot
  induction fuel with
  | zero =>
    intro s t fuel' hs _ _ hfuel _
    have := hs.grown.length_le hroot
    omega
  | succ fuel ih =>
    intro s t fuel' hs ht h hfuel hfuel'
    cases fuel' with
    | zero =>
      have := ht.grown.length_le hroot'
      omega
    | succ fuel' =>
      have halike := h.expand hdepth hxy hroot hs ht
      obtain ⟨hs', hsall, hsprefix⟩ := hs.expand hroot (x.nodes.length + 1) (by omega)
      obtain ⟨ht', htall, htprefix⟩ := ht.expand hroot' (y.nodes.length + 1) (by omega)
      have hsle := hsprefix.length_le
      have htle := htprefix.length_le
      have hmissing : ∀ d, d ∈ decls (missingCtors p x _ root.id) ↔
          d ∈ decls (missingCtors p y _ root.id) := fun d =>
        ⟨halike.missing hdepth hxy hs' ht', halike.symm.missing hdepth hxy.symm ht' hs'⟩
      have hnone : missingCtors p x (Closure.expand p x (x.nodes.length + 1) s) root.id = [] ↔
          missingCtors p y (Closure.expand p y (y.nodes.length + 1) t) root.id = [] := by
        rw [decls_eq_nil, decls_eq_nil]
        exact forall_congr' fun d => not_congr (hmissing d)
      obtain ⟨hsnext, hsfollowed, hsnodes⟩ := hs'.bringMissing hx
      obtain ⟨htnext, htfollowed, htnodes⟩ := ht'.bringMissing hy
      unfold Closure.complete
      dsimp only
      split
      · rename_i hsnone
        rw [hnone.mp hsnone]
        exact halike
      · rename_i hssome
        split
        · rename_i htnone
          exact absurd (hnone.mpr htnone) hssome
        · rename_i htsome
          have hspos := List.length_pos_iff.mpr hssome
          have htpos := List.length_pos_iff.mpr htsome
          refine ih hsnext htnext
            (halike.bring hsall htall hmissing hsfollowed htfollowed) ?_ ?_
          · rw [hsnodes, List.length_append]
            omega
          · rw [htnodes, List.length_append]
            omega

def Labelled (s : Search) : Prop :=
  ∀ a ∈ s.nodes, ∀ l, a.decl.origin.coordinate? = some l → .libraryLeft l ∈ s.diagnostics

theorem Registered.labelled {s : Search} (h : Registered s) : Labelled s := by
  intro a ha l hl
  have hl : l ∈ s.diagnostics.filterMap (·.library?) :=
    h.remarks ▸ mem_librariesIn.mpr ⟨a, ha, hl⟩
  obtain ⟨e, he, hel⟩ := List.mem_filterMap.mp hl
  exact Diagnostic.library?_eq_some.mp hel ▸ he

/-- Two closures that differ in nothing but the order and the distances of their members. -/
structure Agree (c c' : Closure) : Prop where
  root : c.root = c'.root
  members : ∀ d i, (∃ m ∈ c.members, m.decl = d ∧ m.inclusion = i) ↔
    ∃ m ∈ c'.members, m.decl = d ∧ m.inclusion = i
  libraries : ∀ l, l ∈ c.libraries ↔ l ∈ c'.libraries
  diagnostics : ∀ e, e ∈ c.diagnostics ↔ e ∈ c'.diagnostics

/-- Finished searches that are alike make the same remarks. -/
theorem Alike.diagnostics (hdepth : p.maxDepth = none) (hxy : x.Reordered y)
    (hroot : x.get? root.id = some root) {s t : Search} (hs : Finished p x root s)
    (ht : Finished p y root t) (hlabelled : Labelled t) (h : Alike s t) {e : Diagnostic}
    (he : e ∈ s.diagnostics) : e ∈ t.diagnostics := by
  have hindexed := ht.invariant.grown.indexed (hxy.declarations root.id ▸ hroot)
  have hnode : ∀ a ∈ s.nodes, ∃ b ∈ t.nodes, b.decl = a.decl := fun a ha =>
    mem_decls.mp ((h.nodes a.decl).mp (mem_decls.mpr ⟨a, ha, rfl⟩))
  have hdangling : ∀ a r, (a, r) ∈ uses x s.nodes → r.target ≠ some a.decl.id → Dangling y r →
      .unresolved a.decl.id r.name ∈ t.diagnostics := by
    intro a r hu hother hd
    obtain ⟨ha, hl, hr⟩ := mem_uses.mp hu
    obtain ⟨b, hb, hdecl⟩ := hnode a ha
    rw [← hdecl] at hl hr hother ⊢
    exact ht.accounts.remarked_of_dangling hindexed
      (mem_uses.mpr ⟨hb, hl, (hxy.references _).mem_iff.mp hr⟩) hother hd
  rcases hs.accounts.caused e he with ⟨⟨a, r⟩, hu, hr⟩ | ⟨a, ha, l, hl, rfl⟩
  · cases hr with
    | nameless hnone =>
      refine hdangling a r hu ?_ (Or.inl hnone)
      rw [show r.target = none from hnone]
      exact nofun
    | absent q hq hne hx =>
      refine hdangling a r hu ?_ (Or.inr ⟨q, hq, by rw [← hxy.declarations, hx]⟩)
      rw [show r.target = some q from hq]
      exact fun hown => hne (Option.some.inj hown)
    | barred d e _ _ _ hb =>
      obtain ⟨rfl, -⟩ := barrier_some_unlimited hdepth hb
      exact (h.excluded _ _).mp he
  · obtain ⟨b, hb, hdecl⟩ := hnode a ha
    exact hlabelled b hb l (by rw [hdecl, hl])

theorem Alike.agree (hdepth : p.maxDepth = none) (hxy : x.Reordered y)
    (hroot : x.get? root.id = some root) {s t : Search} (hs : Finished p x root s)
    (ht : Finished p y root t) (hslisted : Registered s) (htlisted : Registered t)
    (h : Alike s t) : Agree (ofSearch p root.id s) (ofSearch p root.id t) := by
  have hmembers : ∀ (u : Search) (d : Declaration) (i : Inclusion),
      (∃ m ∈ (ofSearch p root.id u).members, m.decl = d ∧ m.inclusion = i) ↔
        d ∈ decls u.nodes ∧ Closure.inclusion p u root.id d = i := by
    intro u d i
    constructor
    · rintro ⟨m, hm, rfl, rfl⟩
      obtain ⟨a, ha, rfl⟩ := mem_members.mp hm
      exact ⟨mem_decls.mpr ⟨a, ha, rfl⟩, rfl⟩
    · rintro ⟨hd, rfl⟩
      obtain ⟨a, ha, rfl⟩ := mem_decls.mp hd
      exact ⟨_, mem_memberOf ha, rfl, rfl⟩
  have hlibraries : ∀ u : Search, Registered u → ∀ l, l ∈ (ofSearch p root.id u).libraries ↔
      ∃ d ∈ decls u.nodes, d.origin.coordinate? = some l := by
    intro u hu l
    rw [ofSearch, hu.libraries, mem_librariesIn]
    simp [decls]
  refine ⟨rfl, fun d i => ?_, fun l => ?_, fun e => ⟨?_, ?_⟩⟩
  · rw [hmembers, hmembers, h.nodes,
      h.inclusion hdepth hxy hs.invariant ht.invariant]
  · rw [hlibraries s hslisted, hlibraries t htlisted]
    exact exists_congr fun d => and_congr_left fun _ => h.nodes d
  · exact h.diagnostics hdepth hxy hroot hs ht htlisted.labelled
  · exact h.symm.diagnostics hdepth hxy.symm (hxy.declarations root.id ▸ hroot) ht hs hslisted.labelled

/-- Whatever indices were built that differ in the order of references and members only, without a
depth limit the closures of a project declaration agree. -/
theorem closure_ignores_order (top top' : Path) (ops ops' : List Index.Operation) (p : Policy)
    (hdepth : p.maxDepth = none)
    (hxy : (Index.build top ops).Reordered (Index.build top' ops')) (name : String)
    (d : Declaration) (hd : (Index.build top ops).get? ⟨name⟩ = some d)
    (hp : d.isLibrary = false) :
    ∃ c c', resolve p (Index.build top ops) name = .ok c ∧
      resolve p (Index.build top' ops') name = .ok c' ∧ Agree c c' := by
  have hx := Index.build_distinct top ops
  have hy := Index.build_distinct top' ops'
  have hd' : (Index.build top' ops').get? ⟨name⟩ = some d := hxy.declarations ⟨name⟩ ▸ hd
  obtain ⟨hresolve, hfin⟩ := resolve_eq_searchOf (p := p) hx hd hp
  obtain ⟨hresolve', hfin'⟩ := resolve_eq_searchOf (p := p) hy hd' hp
  obtain ⟨-, hid⟩ := Index.get?_some hd
  have hroot : (Index.build top ops).get? d.id = some d := hid ▸ hd
  have hroot' : (Index.build top' ops').get? d.id = some d := hid ▸ hd'
  have halike : Alike (searchOf p (Index.build top ops) d)
      (searchOf p (Index.build top' ops') d) :=
    Alike.complete hdepth hxy hx hy hroot _ (.start hp) (.start hp)
      ⟨fun _ => Iff.rfl, fun _ => Iff.rfl, fun _ _ => Iff.rfl⟩ (by omega) (by omega)
  exact ⟨_, _, hresolve, hresolve', halike.agree hdepth hxy hroot hfin hfin'
    (registered_searchOf hx hroot hp) (registered_searchOf hy hroot' hp)⟩

def backwards : Index.Operation → Index.Operation
  | .references source rs => .references source rs.reverse
  | op => op

def shopBackwards : List Index.Operation :=
  (shopOperations.take 8).reverse ++ (shopOperations.drop 8).map backwards

theorem shop_reordered : shopIndex.Reordered (Index.build ⟨"/"⟩ shopBackwards) := by
  refine .of_nodes (Index.build_distinct _ _) (Index.build_distinct _ _)
    (List.reverse_perm _).symm fun n hn => ?_
  have hreversed : ∀ n ∈ shopIndex.nodes,
      (Index.build ⟨"/"⟩ shopBackwards).references n.decl.id = n.references.reverse := by
    decide
  rw [hreversed n hn]
  exact (List.reverse_perm _).symm

theorem shop_agrees_backwards :
    (({} : Policy).maxDepth = none ∧ shopIndex.Reordered (Index.build ⟨"/"⟩ shopBackwards) ∧
      shopIndex.get? ⟨"shop.Shop"⟩ = some (projectClass "Shop")) ∧
      ∃ c c', resolve {} shopIndex "shop.Shop" = .ok c ∧
        resolve {} (Index.build ⟨"/"⟩ shopBackwards) "shop.Shop" = .ok c' ∧ Agree c c' :=
  ⟨⟨rfl, shop_reordered, rfl⟩, closure_ignores_order ⟨"/"⟩ ⟨"/"⟩ shopOperations shopBackwards {}
    rfl shop_reordered "shop.Shop" (projectClass "Shop") rfl rfl⟩

end Closure

end Carve
