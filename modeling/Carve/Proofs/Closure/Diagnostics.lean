import Carve.Proofs.Closure.Companions

/-!
# No reference is lost

Every reference of a node leads to a node or is remarked upon with the reason, every remark on a
reference has such a reference behind it, and nothing is remarked twice.
-/

namespace Carve.Closure

variable {p : Policy} {x : Index} {root : Declaration}

/-- A reference to nothing that the index knows. -/
def Dangling (x : Index) (r : Reference) : Prop :=
  r.target = none ∨ ∃ t, r.target = some t ∧ x.get? t = none

/-- A test declaration of the project under a policy without tests. -/
def KeptOut (p : Policy) (d : Declaration) : Prop :=
  d.isLibrary = false ∧ d.scope = .test ∧ p.includeTests = false

/-- A declaration of the project, asked for at the greatest distance or beyond it. -/
def TooFar (p : Policy) (n : Member) (d : Declaration) : Prop :=
  d.isLibrary = false ∧ ∃ limit, p.maxDepth = some limit ∧ limit ≤ n.distance

/-- A reference of a member of the project to something else. -/
structure Refers (x : Index) (c : Closure) (n : Member) (r : Reference) : Prop where
  member : n ∈ c.members
  project : n.decl.isLibrary = false
  reference : r ∈ x.references n.decl.id
  other : r.target ≠ some n.decl.id

/-- The diagnostics tell exactly what became of the references. -/
structure Accounted (p : Policy) (x : Index) (c : Closure) : Prop where
  dangling : ∀ n r, Refers x c n r → Dangling x r → .unresolved n.decl.id r.name ∈ c.diagnostics
  resolved : ∀ n r t d, Refers x c n r → r.target = some t → x.get? t = some d →
    (∃ m ∈ c.members, m.decl.id = t) ∨
      (KeptOut p d ∧ .testExcluded n.decl.id t ∈ c.diagnostics) ∨
      (TooFar p n d ∧ .depthLimit n.decl.id t ∈ c.diagnostics)
  unresolved_cause : ∀ source name, .unresolved source name ∈ c.diagnostics →
    ∃ n r, Refers x c n r ∧ n.decl.id = source ∧ r.name = name ∧ Dangling x r
  excluded_cause : ∀ source t, .testExcluded source t ∈ c.diagnostics →
    ∃ n r d, Refers x c n r ∧ n.decl.id = source ∧ r.target = some t ∧ x.get? t = some d ∧
      KeptOut p d
  limit_cause : ∀ source t, .depthLimit source t ∈ c.diagnostics →
    ∃ n r d, Refers x c n r ∧ n.decl.id = source ∧ r.target = some t ∧ x.get? t = some d ∧
      TooFar p n d
  once : c.diagnostics.Nodup

def memberOf (p : Policy) (root : QName) (s : Search) (a : Admitted) : Member :=
  ⟨a.decl, inclusion p s root a.decl, a.distance⟩

theorem mem_members {root : QName} {s : Search} {n : Member} :
    n ∈ (ofSearch p root s).members ↔ ∃ a ∈ s.nodes, memberOf p root s a = n := by
  simp [ofSearch, memberOf]

theorem mem_memberOf {root : QName} {s : Search} {a : Admitted} (h : a ∈ s.nodes) :
    memberOf p root s a ∈ (ofSearch p root s).members :=
  mem_members.mpr ⟨a, h, rfl⟩

theorem mem_uses_of_refers {root : QName} {s : Search} {n : Member} {r : Reference}
    (h : Refers x (ofSearch p root s) n r) :
    ∃ a, memberOf p root s a = n ∧ (a, r) ∈ uses x s.nodes := by
  obtain ⟨a, ha, rfl⟩ := mem_members.mp h.member
  exact ⟨a, rfl, mem_uses.mpr ⟨ha, h.project, h.reference⟩⟩

theorem refers_of_mem_uses {root : QName} {s : Search} {u : Use} (h : u ∈ uses x s.nodes)
    (hother : u.2.target ≠ some u.1.decl.id) :
    Refers x (ofSearch p root s) (memberOf p root s u.1) u.2 := by
  obtain ⟨ha, hp, hr⟩ := mem_uses.mp h
  exact ⟨mem_memberOf ha, hp, hr, hother⟩

namespace Accounts

variable {s : Search}

theorem remarked_of_dangling (h : Accounts p x (uses x s.nodes) s)
    (hi : ∀ a ∈ s.nodes, x.get? a.decl.id = some a.decl) {u : Use} (hu : u ∈ uses x s.nodes)
    (hother : u.2.target ≠ some u.1.decl.id) (hd : Dangling x u.2) :
    .unresolved u.1.decl.id u.2.name ∈ s.diagnostics := by
  rcases h.settled u hu with hown | ⟨t, ht, hk⟩ | ⟨e, he, hr⟩
  · exact absurd hown hother
  · obtain ⟨a, ha, rfl⟩ := List.mem_map.mp (Search.has_iff.mp hk)
    have hknown := hi a ha
    rcases hd with hnone | ⟨t', ht', hx⟩
    · rw [ht] at hnone; cases hnone
    · rw [← Option.some.inj (ht.symm.trans ht'), hknown] at hx; cases hx
  · cases hr with
    | nameless => exact he
    | absent => exact he
    | barred d e ht _ hx hb =>
      rcases hd with hnone | ⟨t', ht', hx'⟩
      · rw [ht] at hnone; cases hnone
      · rw [← Option.some.inj (ht.symm.trans ht'), hx] at hx'; cases hx'

/-- A reference to a known declaration leads to a node or is cut by the barrier it meets. -/
theorem has_or_barred (h : Accounts p x (uses x s.nodes) s) {u : Use} (hu : u ∈ uses x s.nodes)
    (hother : u.2.target ≠ some u.1.decl.id) {t : QName} (ht : u.2.target = some t)
    {d : Declaration} (hx : x.get? t = some d) :
    s.has t = true ∨ ∃ e ∈ s.diagnostics, barrier p u.1 d = some e := by
  rcases h.settled u hu with hown | ⟨t', ht', hk⟩ | ⟨e, he, hr⟩
  · exact absurd hown hother
  · exact Or.inl (Option.some.inj (ht.symm.trans ht') ▸ hk)
  · cases hr with
    | nameless hnone => rw [ht] at hnone; cases hnone
    | absent t' ht' _ hx' => rw [← Option.some.inj (ht.symm.trans ht'), hx] at hx'; cases hx'
    | barred d' e ht' _ hx' hb =>
      rw [← Option.some.inj (ht.symm.trans ht'), hx] at hx'
      exact Or.inr ⟨e, he, Option.some.inj hx' ▸ hb⟩

theorem remarks_of_mem (h : Accounts p x (uses x s.nodes) s) {e : Diagnostic}
    (he : e ∈ s.diagnostics) (hlib : ∀ c, e ≠ .libraryLeft c) :
    ∃ u ∈ uses x s.nodes, u.2.target ≠ some u.1.decl.id ∧ Remarks p x u.1 u.2 e := by
  rcases h.caused e he with ⟨u, hu, hr⟩ | ⟨b, hb, c, hc, rfl⟩
  · refine ⟨u, hu, ?_, hr⟩
    cases hr with
    | nameless hnone => simp [hnone]
    | absent t ht hne => simpa [ht] using hne
    | barred d e ht hne => simpa [ht] using hne
  · exact absurd rfl (hlib c)

end Accounts

/-- A finished search has accounted for the references of all its members. -/
theorem Finished.accounted {s : Search} (h : Finished p x root s)
    (hroot : x.get? root.id = some root) : Accounted p x (ofSearch p root.id s) where
  dangling n r href hd := by
    obtain ⟨a, rfl, hu⟩ := mem_uses_of_refers href
    exact h.accounts.remarked_of_dangling (h.invariant.grown.indexed hroot) hu href.other hd
  resolved n r t d href ht hx := by
    obtain ⟨a, rfl, hu⟩ := mem_uses_of_refers href
    rcases h.accounts.has_or_barred hu href.other ht hx with hk | ⟨e, he, hb⟩
    · obtain ⟨b, hb, hid⟩ := List.mem_map.mp (Search.has_iff.mp hk)
      exact Or.inl ⟨_, mem_memberOf hb, hid⟩
    · obtain ⟨-, rfl⟩ := Index.get?_some hx
      obtain ⟨hl, ⟨hs, hi, rfl⟩ | ⟨-, hlimit, rfl⟩⟩ := barrier_eq_some_iff.mp hb
      · exact Or.inr (Or.inl ⟨⟨hl, hs, hi⟩, he⟩)
      · exact Or.inr (Or.inr ⟨⟨hl, hlimit⟩, he⟩)
  unresolved_cause source name he := by
    obtain ⟨u, hu, hother, hr⟩ := h.accounts.remarks_of_mem he (by simp)
    refine ⟨_, u.2, refers_of_mem_uses hu hother, ?_⟩
    generalize hform : Diagnostic.unresolved source name = e at hr
    cases hr with
    | nameless hnone =>
      obtain ⟨rfl, rfl⟩ := Diagnostic.unresolved.inj hform
      exact ⟨rfl, rfl, Or.inl hnone⟩
    | absent t ht _ hx =>
      obtain ⟨rfl, rfl⟩ := Diagnostic.unresolved.inj hform
      exact ⟨rfl, rfl, Or.inr ⟨t, ht, hx⟩⟩
    | barred d e _ _ _ hb => rcases cut_of_barrier hb with rfl | rfl <;> cases hform
  excluded_cause source t he := by
    obtain ⟨u, hu, hother, hr⟩ := h.accounts.remarks_of_mem he (by simp)
    obtain ⟨d, rfl, rfl, ht, hx, hb⟩ := hr.barrier_of_cut (Or.inr rfl)
    refine ⟨_, u.2, d, refers_of_mem_uses hu hother, rfl, ht, hx, ?_⟩
    obtain ⟨hl, ⟨hs, hi, -⟩ | ⟨-, -, hform⟩⟩ := barrier_eq_some_iff.mp hb
    · exact ⟨hl, hs, hi⟩
    · cases hform
  limit_cause source t he := by
    obtain ⟨u, hu, hother, hr⟩ := h.accounts.remarks_of_mem he (by simp)
    obtain ⟨d, rfl, rfl, ht, hx, hb⟩ := hr.barrier_of_cut (Or.inl rfl)
    refine ⟨_, u.2, d, refers_of_mem_uses hu hother, rfl, ht, hx, ?_⟩
    obtain ⟨hl, ⟨-, -, hform⟩ | ⟨-, hlimit, -⟩⟩ := barrier_eq_some_iff.mp hb
    · cases hform
    · exact ⟨hl, hlimit⟩
  once := h.accounts.once

/-- Whatever index was built and whichever declaration of the project is asked for, there is a
closure, and its diagnostics tell exactly what became of the references of its members. -/
theorem closure_accounts_for_references (root : Path) (ops : List Index.Operation) (p : Policy)
    (name : String) (d : Declaration) (hd : (Index.build root ops).get? ⟨name⟩ = some d)
    (hp : d.isLibrary = false) :
    ∃ c, resolve p (Index.build root ops) name = .ok c ∧ c.root = ⟨name⟩ ∧
      Accounted p (Index.build root ops) c := by
  obtain ⟨s, hs, hfin, -⟩ := resolve_finished (p := p) (Index.build_distinct root ops) hd hp
  obtain ⟨-, hid⟩ := Index.get?_some hd
  exact ⟨_, hs, hid, hfin.accounted (hid ▸ hd)⟩

section Shop

def projectClass (name : String) : Declaration :=
  { id := ⟨"shop." ++ name⟩, name, kind := .classType, origin := .project "app" }

def tillCtor : Declaration :=
  { id := ⟨"shop.Till.<init>"⟩, name := "<init>", kind := .ctor, origin := .project "app",
    parent := some ⟨"shop.Till"⟩,
    location := some
      { path := ⟨"Till.java"⟩, range := ⟨0, 0, 3, 1⟩,
        layout := { own := { span := ⟨0, 40⟩, ctorCall := some ⟨10, 20⟩ } } } }

/-- A shop with a till, a coin and the mint it comes from, a test and a library. The shop refers to
itself and to two things that do not exist, and the till refers back to the shop. -/
def shopOperations : List Index.Operation :=
  [.declaration (projectClass "Shop"), .declaration (projectClass "Till"),
    .declaration { projectClass "Till.open" with kind := .method, parent := some ⟨"shop.Till"⟩ },
    .declaration tillCtor, .declaration (projectClass "Coin"), .declaration (projectClass "Mint"),
    .declaration { projectClass "ShopTest" with scope := .test },
    .declaration (.library ⟨"log.Log"⟩ ⟨"log", "log", none⟩),
    .references ⟨"shop.Shop"⟩
      [⟨⟨"shop.Shop"⟩, some ⟨"shop.Till.open"⟩, .call, "open", none⟩,
        ⟨⟨"shop.Shop"⟩, some ⟨"shop.Till"⟩, .typeUse, "Till", none⟩,
        ⟨⟨"shop.Shop"⟩, some ⟨"shop.Shop"⟩, .typeUse, "Shop", none⟩,
        ⟨⟨"shop.Shop"⟩, none, .unresolved, "close", none⟩,
        ⟨⟨"shop.Shop"⟩, some ⟨"shop.Gone"⟩, .typeUse, "Gone", none⟩,
        ⟨⟨"shop.Shop"⟩, some ⟨"shop.ShopTest"⟩, .typeUse, "ShopTest", none⟩,
        ⟨⟨"shop.Shop"⟩, some ⟨"log.Log"⟩, .typeUse, "Log", none⟩],
    .references ⟨"shop.Till.open"⟩
      [⟨⟨"shop.Till.open"⟩, some ⟨"shop.Shop"⟩, .typeUse, "Shop", none⟩,
        ⟨⟨"shop.Till.open"⟩, some ⟨"shop.Coin"⟩, .instantiation, "Coin", none⟩],
    .references ⟨"shop.Coin"⟩ [⟨⟨"shop.Coin"⟩, some ⟨"shop.Mint"⟩, .call, "Mint", none⟩]]

def shopIndex : Index := Index.build ⟨"/"⟩ shopOperations

def twoSteps : Policy := { maxDepth := some 2 }

theorem shop_accounts_for_references :
    shopIndex.get? ⟨"shop.Shop"⟩ = some (projectClass "Shop") ∧
      ∃ c, resolve twoSteps shopIndex "shop.Shop" = .ok c ∧ c.root = ⟨"shop.Shop"⟩ ∧
        Accounted twoSteps shopIndex c :=
  ⟨rfl, closure_accounts_for_references ⟨"/"⟩ shopOperations twoSteps "shop.Shop"
    (projectClass "Shop") rfl rfl⟩

end Shop

end Carve.Closure
