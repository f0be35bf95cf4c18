import Carve.Proofs.Closure.Search

/-!
# What a search keeps account of

A search remembers by which kinds of reference a declaration was reached and remarks on every
reference that led nowhere. The invariant says that both records are exact for the references
followed so far, however late a declaration turns out to be a node.
-/

namespace Carve.Closure

variable {p : Policy} {x : Index} {root : Declaration}

abbrev Use := Admitted × Reference

def usesOf (x : Index) (a : Admitted) : List Use :=
  if a.decl.isLibrary then [] else (x.references a.decl.id).map (a, ·)

def uses (x : Index) (ns : List Admitted) : List Use := ns.flatMap (usesOf x)

theorem mem_uses {ns : List Admitted} {a : Admitted} {r : Reference} :
    (a, r) ∈ uses x ns ↔
      a ∈ ns ∧ a.decl.isLibrary = false ∧ r ∈ x.references a.decl.id := by
  simp only [uses, List.mem_flatMap, usesOf]
  constructor
  · rintro ⟨b, hb, hu⟩
    cases hl : b.decl.isLibrary with
    | true => simp [hl] at hu
    | false =>
      simp only [hl, Bool.false_eq_true, if_false, List.mem_map] at hu
      obtain ⟨r', hr, he⟩ := hu
      obtain ⟨rfl, rfl⟩ := Prod.mk.inj he
      exact ⟨hb, hl, hr⟩
  · rintro ⟨ha, hl, hr⟩
    exact ⟨a, ha, by simp [hl, hr]⟩

/-- The remark that a reference deserves when it leads nowhere. -/
inductive Remarks (p : Policy) (x : Index) (a : Admitted) (r : Reference) : Diagnostic → Prop where
  | nameless (h : r.target = none) : Remarks p x a r (.unresolved a.decl.id r.name)
  | absent (t : QName) (h : r.target = some t) (hne : t ≠ a.decl.id) (hx : x.get? t = none) :
      Remarks p x a r (.unresolved a.decl.id r.name)
  | barred (d : Declaration) (e : Diagnostic) (h : r.target = some d.id)
      (hne : d.id ≠ a.decl.id) (hx : x.get? d.id = some d) (hb : barrier p a d = some e) :
      Remarks p x a r e

/-- A reference to the node itself, to another node, or one that is remarked upon. -/
def Settled (p : Policy) (x : Index) (s : Search) (u : Use) : Prop :=
  u.2.target = some u.1.decl.id ∨ (∃ t, u.2.target = some t ∧ s.has t = true) ∨
    ∃ e ∈ s.diagnostics, Remarks p x u.1 u.2 e

/-- A reference of this kind from another node to the target, not cut by a limit. -/
def ReachesBy (ds : List Diagnostic) (t : QName) (k : Reference.Kind) (u : Use) : Prop :=
  u.2.target = some t ∧ u.2.kind = k ∧ t ≠ u.1.decl.id ∧ ¬ Cut ds u.1.decl.id t

structure Accounts (p : Policy) (x : Index) (done : List Use) (s : Search) : Prop where
  sources : ∀ u ∈ done, u.1 ∈ s.nodes
  settled : ∀ u ∈ done, Settled p x s u
  caused : ∀ e ∈ s.diagnostics, (∃ u ∈ done, Remarks p x u.1 u.2 e) ∨
    ∃ b ∈ s.nodes, ∃ c, b.decl.origin.coordinate? = some c ∧ e = .libraryLeft c
  once : s.diagnostics.Nodup
  incoming : ∀ t k, (t, k) ∈ s.incoming ↔
    s.has t = true ∧ ∃ u ∈ done, ReachesBy s.diagnostics t k u

/-- Only the root and constructors may have come in by no reference. -/
def Called (root : Declaration) (s : Search) : Prop :=
  ∀ b ∈ s.nodes, b.decl.id = root.id ∨ b.decl.kind = .ctor ∨ ∃ k, (b.decl.id, k) ∈ s.incoming

def Clear (a : Admitted) (s : Search) : Prop :=
  ∀ t, Cut s.diagnostics a.decl.id t → s.has t = false

theorem Remarks.barrier_of_cut {a : Admitted} {r : Reference} {e : Diagnostic}
    (h : Remarks p x a r e) {source t : QName}
    (he : e = .depthLimit source t ∨ e = .testExcluded source t) :
    ∃ d, a.decl.id = source ∧ d.id = t ∧ r.target = some t ∧ x.get? t = some d ∧
      barrier p a d = some e := by
  cases h with
  | nameless h => simp at he
  | absent t h hne hx => simp at he
  | barred d e h hne hx hb =>
    refine ⟨d, ?_⟩
    rcases cut_of_barrier hb with rfl | rfl <;> simp at he <;> obtain ⟨rfl, rfl⟩ := he <;>
      exact ⟨rfl, rfl, h, hx, hb⟩

theorem Settled.mono {s s' : Search} {u : Use} (h : Settled p x s u)
    (hn : ∀ id, s.has id = true → s'.has id = true)
    (hd : ∀ e ∈ s.diagnostics, e ∈ s'.diagnostics) : Settled p x s' u := by
  rcases h with h | ⟨t, ht, hk⟩ | ⟨e, he, hr⟩
  · exact Or.inl h
  · exact Or.inr (Or.inl ⟨t, ht, hn t hk⟩)
  · exact Or.inr (Or.inr ⟨e, hd e he, hr⟩)

namespace Accounts

variable {done : List Use} {s : Search}

theorem barrier_of_cut (h : Accounts p x done s) {source t : QName}
    (hc : Cut s.diagnostics source t) :
    ∃ u ∈ done, ∃ d e, u.1.decl.id = source ∧ d.id = t ∧ x.get? t = some d ∧
      barrier p u.1 d = some e := by
  obtain ⟨e, he, hform⟩ : ∃ e ∈ s.diagnostics, e = .depthLimit source t ∨
      e = .testExcluded source t :=
    hc.elim (fun h => ⟨_, h, Or.inl rfl⟩) (fun h => ⟨_, h, Or.inr rfl⟩)
  rcases h.caused e he with ⟨u, hu, hr⟩ | ⟨b, hb, c, hc, rfl⟩
  · obtain ⟨d, hsource, ht, -, hx, hb⟩ := hr.barrier_of_cut hform
    exact ⟨u, hu, d, e, hsource, ht, hx, hb⟩
  · simp at hform

theorem not_cut_of_open (h : Accounts p x done s) (hg : Grown p x root s.nodes)
    {a : Admitted} (ha : a ∈ s.nodes) {d : Declaration} (hx : x.get? d.id = some d)
    (hb : barrier p a d = none) : ¬ Cut s.diagnostics a.decl.id d.id := by
  intro hc
  obtain ⟨u, hu, d', e, hsource, -, hx', hb'⟩ := h.barrier_of_cut hc
  have hua : u.1 = a := hg.eq_of_id (h.sources u hu) ha hsource
  have hd : d' = d := Option.some.inj (hx'.symm.trans hx)
  rw [hua, hd, hb] at hb'
  cases hb'

/-- Who referred to a declaration before it became a node was kept from it by a limit. -/
theorem cut_of_not_has (h : Accounts p x done s) {u : Use} (hu : u ∈ done)
    {d : Declaration} (ht : u.2.target = some d.id) (hx : x.get? d.id = some d)
    (hne : d.id ≠ u.1.decl.id) (hk : s.has d.id = false) :
    Cut s.diagnostics u.1.decl.id d.id := by
  rcases h.settled u hu with hown | ⟨t, ht', hk'⟩ | ⟨e, he, hr⟩
  · exact absurd (Option.some.inj (ht.symm.trans hown)) hne
  · obtain rfl := Option.some.inj (ht.symm.trans ht')
    rw [hk] at hk'
    cases hk'
  · cases hr with
    | nameless h => rw [ht] at h; cases h
    | absent t h _ hx' =>
      obtain rfl := Option.some.inj (ht.symm.trans h)
      rw [hx] at hx'
      cases hx'
    | barred d' e h _ hx' hb =>
      have hid : d.id = d'.id := Option.some.inj (ht.symm.trans h)
      rw [hid]
      rcases cut_of_barrier hb with rfl | rfl
      · exact Or.inl he
      · exact Or.inr he

/-- The accounts of the references followed before stay right when a declaration is admitted. -/
theorem reachesBy_enter (h : Accounts p x done s) {b : Admitted} (hk : s.has b.decl.id = false)
    (hx : x.get? b.decl.id = some b.decl) (t : QName) (k : Reference.Kind) :
    ((s.enter b).has t = true ∧ ∃ u ∈ done, ReachesBy (s.enter b).diagnostics t k u) ↔
      s.has t = true ∧ ∃ u ∈ done, ReachesBy s.diagnostics t k u := by
  simp only [ReachesBy, Search.cut_enter, Search.enter_has]
  constructor
  · rintro ⟨ht | rfl, u, hu, htarget, hkind, hne, hc⟩
    · exact ⟨ht, u, hu, htarget, hkind, hne, hc⟩
    · exact absurd (h.cut_of_not_has hu htarget hx hne hk) hc
  · rintro ⟨ht, hrest⟩
    exact ⟨Or.inl ht, hrest⟩

theorem caused_enter (h : Accounts p x done s) (b : Admitted) :
    ∀ e ∈ (s.enter b).diagnostics, (∃ u ∈ done, Remarks p x u.1 u.2 e) ∨
      ∃ b' ∈ (s.enter b).nodes, ∃ c, b'.decl.origin.coordinate? = some c ∧ e = .libraryLeft c := by
  intro e he
  rcases Search.mem_enter.mp he with he | ⟨c, hc, rfl⟩
  · refine (h.caused e he).imp id ?_
    rintro ⟨b', hb', hrest⟩
    exact ⟨b', by simp [hb'], hrest⟩
  · exact Or.inr ⟨b, by simp, c, hc, rfl⟩

theorem enter (h : Accounts p x done s) {b : Admitted}
    (hx : x.get? b.decl.id = some b.decl) (hk : s.has b.decl.id = false) :
    Accounts p x done (s.enter b) where
  sources u hu := by simp [h.sources u hu]
  settled u hu := (h.settled u hu).mono (fun id hid => Search.enter_has.mpr (Or.inl hid))
    (fun e he => Search.mem_enter.mpr (Or.inl he))
  caused := h.caused_enter b
  once := Search.nodup_enter h.once b
  incoming t k := by
    rw [Search.enter_incoming, h.incoming, h.reachesBy_enter hk hx]

theorem note (h : Accounts p x done s) {a : Admitted} (ha : a ∈ s.nodes) {r : Reference}
    {e : Diagnostic} (he : Remarks p x a r e)
    (hcut : ∀ source t, e = .depthLimit source t ∨ e = .testExcluded source t → s.has t = false)
    (hnew : ∀ t, r.target = some t → s.has t = false) :
    Accounts p x (done ++ [(a, r)]) (s.note e) where
  sources u hu := by
    rcases List.mem_append.mp hu with hu | hu
    · exact h.sources u hu
    · rw [List.mem_singleton.mp hu]; exact ha
  settled u hu := by
    rcases List.mem_append.mp hu with hu | hu
    · exact (h.settled u hu).mono (fun _ hid => hid) (fun f hf => Search.mem_note.mpr (Or.inl hf))
    · rw [List.mem_singleton.mp hu]
      exact Or.inr (Or.inr ⟨e, by simp, he⟩)
  caused f hf := by
    rcases Search.mem_note.mp hf with hf | rfl
    · refine (h.caused f hf).imp ?_ id
      rintro ⟨u, hu, hr⟩
      exact ⟨u, by simp [hu], hr⟩
    · exact Or.inl ⟨(a, r), by simp, he⟩
  once := nodup_addNew h.once e
  incoming t k := by
    rw [Search.note_incoming, h.incoming, Search.note_has]
    constructor
    · rintro ⟨ht, u, hu, htarget, hkind, hne, hc⟩
      refine ⟨ht, u, by simp [hu], htarget, hkind, hne, ?_⟩
      rintro (hc' | hc')
      · rcases Search.mem_note.mp hc' with hc' | rfl
        · exact hc (Or.inl hc')
        · simp [hcut _ _ (Or.inl rfl)] at ht
      · rcases Search.mem_note.mp hc' with hc' | rfl
        · exact hc (Or.inr hc')
        · simp [hcut _ _ (Or.inr rfl)] at ht
    · rintro ⟨ht, u, hu, htarget, hkind, hne, hc⟩
      have hc' : ¬ Cut s.diagnostics u.1.decl.id t := fun hold =>
        hc (hold.imp (fun h => Search.mem_note.mpr (Or.inl h))
          (fun h => Search.mem_note.mpr (Or.inl h)))
      rcases List.mem_append.mp hu with hu | hu
      · exact ⟨ht, u, hu, htarget, hkind, hne, hc'⟩
      · rw [List.mem_singleton.mp hu] at htarget
        simp [hnew t htarget] at ht

theorem pass (h : Accounts p x done s) {a : Admitted} (ha : a ∈ s.nodes) {r : Reference}
    (hr : r.target = some a.decl.id) : Accounts p x (done ++ [(a, r)]) s where
  sources u hu := by
    rcases List.mem_append.mp hu with hu | hu
    · exact h.sources u hu
    · rw [List.mem_singleton.mp hu]; exact ha
  settled u hu := by
    rcases List.mem_append.mp hu with hu | hu
    · exact h.settled u hu
    · rw [List.mem_singleton.mp hu]; exact Or.inl hr
  caused e he := by
    refine (h.caused e he).imp ?_ id
    rintro ⟨u, hu, hru⟩
    exact ⟨u, by simp [hu], hru⟩
  once := h.once
  incoming t k := by
    rw [h.incoming]
    refine and_congr_right fun _ => ⟨?_, ?_⟩
    · rintro ⟨u, hu, hrest⟩
      exact ⟨u, by simp [hu], hrest⟩
    · rintro ⟨u, hu, htarget, hkind, hne, hc⟩
      rcases List.mem_append.mp hu with hu | hu
      · exact ⟨u, hu, htarget, hkind, hne, hc⟩
      · rw [List.mem_singleton.mp hu] at htarget hne
        exact absurd (Option.some.inj (htarget.symm.trans hr)) hne

theorem reach (h : Accounts p x done s) {a : Admitted} (ha : a ∈ s.nodes) {r : Reference}
    {t : QName} (hr : r.target = some t) (hne : t ≠ a.decl.id) (hk : s.has t = true)
    (hc : ¬ Cut s.diagnostics a.decl.id t) :
    Accounts p x (done ++ [(a, r)]) (s.reach t r.kind) where
  sources u hu := by
    rcases List.mem_append.mp hu with hu | hu
    · exact h.sources u hu
    · rw [List.mem_singleton.mp hu]; exact ha
  settled u hu := by
    rcases List.mem_append.mp hu with hu | hu
    · exact h.settled u hu
    · rw [List.mem_singleton.mp hu]
      exact Or.inr (Or.inl ⟨t, hr, hk⟩)
  caused e he := by
    refine (h.caused e he).imp ?_ id
    rintro ⟨u, hu, hru⟩
    exact ⟨u, by simp [hu], hru⟩
  once := h.once
  incoming t' k := by
    rw [Search.mem_reach, h.incoming]
    constructor
    · rintro (⟨rfl, rfl⟩ | ⟨ht, u, hu, hrest⟩)
      · exact ⟨hk, (a, r), by simp, hr, rfl, hne, hc⟩
      · exact ⟨ht, u, by simp [hu], hrest⟩
    · rintro ⟨ht, u, hu, htarget, hkind, hne', hc'⟩
      rcases List.mem_append.mp hu with hu | hu
      · exact Or.inr ⟨ht, u, hu, htarget, hkind, hne', hc'⟩
      · rw [List.mem_singleton.mp hu] at htarget hkind
        exact Or.inl ⟨Option.some.inj (htarget.symm.trans hr), hkind.symm⟩

end Accounts

end Carve.Closure
