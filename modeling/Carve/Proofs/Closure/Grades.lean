import Carve.Proofs.Closure.Diagnostics
import Mathlib.Order.MinMax

/-!
# How much of each member is kept

The grade of a member is determined by the references of the other members to it, wherever in the
search these came up: whichever of them asks for the most wins. A member without such references
is a constructor that its type brought along.
-/

namespace Carve

theorem Inclusion.le_rank_foldl_dominant (is : List Inclusion) (i : Inclusion) (n : Nat) :
    n ≤ (is.foldl dominant i).rank ↔ n ≤ i.rank ∨ ∃ j ∈ is, n ≤ j.rank := by
  induction is generalizing i with
  | nil => simp
  | cons j is ih =>
    rw [List.foldl_cons, ih, rank_dominant, le_max_iff]
    simp [or_assoc]

namespace Policy

/-- A stub is all that a reference of this kind asks for. -/
def ContentWithStub (p : Policy) (k : Reference.Kind) : Prop :=
  k ∈ p.stubKinds ∧ k ≠ .call ∧ k ≠ .supertype ∧ k ≠ .instantiation

theorem inclusionFor_of_content {p : Policy} {k : Reference.Kind} (h : p.ContentWithStub k) :
    p.inclusionFor k = .stub := by
  obtain ⟨hm, hcall, hsuper, hnew⟩ := h
  have hk : k.requiresFull = false := by cases k <;> simp_all [Reference.Kind.requiresFull]
  simp [inclusionFor, hk, hm]

theorem inclusionFor_of_not_content {p : Policy} {k : Reference.Kind}
    (h : ¬ p.ContentWithStub k) : p.inclusionFor k = .full := by
  unfold inclusionFor
  rw [if_neg]
  intro hk
  obtain ⟨hfull, hm⟩ := Bool.and_eq_true_iff.mp hk
  refine h ⟨by simpa using hm, ?_, ?_, ?_⟩ <;> rintro rfl <;>
    simp [Reference.Kind.requiresFull] at hfull

theorem inclusionForAll_eq_stub {p : Policy} {ks : List Reference.Kind}
    (h : ∀ k ∈ ks, p.ContentWithStub k) : p.inclusionForAll ks = .stub := by
  have hle : 1 ≤ (p.inclusionForAll ks).rank :=
    (Inclusion.le_rank_foldl_dominant _ _ 1).mpr (Or.inl (by decide))
  have hlt : ¬ 2 ≤ (p.inclusionForAll ks).rank := by
    intro hfull
    rcases (Inclusion.le_rank_foldl_dominant _ _ 2).mp hfull with hstub | ⟨i, hi, hrank⟩
    · exact absurd hstub (by decide)
    · obtain ⟨k, hk, rfl⟩ := List.mem_map.mp hi
      rw [inclusionFor_of_content (h k hk)] at hrank
      exact absurd hrank (by decide)
  cases hi : p.inclusionForAll ks <;> simp [hi, Inclusion.rank] at hle hlt ⊢

theorem inclusionForAll_eq_full {p : Policy} {ks : List Reference.Kind} {k : Reference.Kind}
    (hk : k ∈ ks) (h : ¬ p.ContentWithStub k) : p.inclusionForAll ks = .full := by
  have hle : 2 ≤ (p.inclusionForAll ks).rank := by
    refine (Inclusion.le_rank_foldl_dominant _ _ 2).mpr (Or.inr ⟨_, List.mem_map_of_mem hk, ?_⟩)
    rw [inclusionFor_of_not_content h]
    decide
  cases hi : p.inclusionForAll ks <;> simp [hi, Inclusion.rank] at hle ⊢

end Policy

namespace Closure

variable {p : Policy} {x : Index} {root : Declaration}

/-- A kind by which another member of the project refers to a declaration from which no limit cuts
it off. -/
def IncomingKind (x : Index) (c : Closure) (id : QName) (k : Reference.Kind) : Prop :=
  ∃ n ∈ c.members, n.decl.isLibrary = false ∧ n.decl.id ≠ id ∧
    ¬ Cut c.diagnostics n.decl.id id ∧ ∃ r ∈ x.references n.decl.id, r.target = some id ∧ r.kind = k

/-- The grades are those that the incoming references ask for. -/
structure Graded (p : Policy) (x : Index) (c : Closure) : Prop where
  library : ∀ m ∈ c.members, m.decl.isLibrary = true → m.inclusion = .external
  root : ∃ m rest, c.members = m :: rest ∧ m.decl.id = c.root ∧ m.inclusion = .full ∧
    m.distance = 0
  uncalled : ∀ m ∈ c.members, m.decl.isLibrary = false → m.decl.id ≠ c.root →
    (∀ k, ¬ IncomingKind x c m.decl.id k) → m.decl.kind = .ctor ∧ m.inclusion = .stub
  stub : ∀ m ∈ c.members, m.decl.isLibrary = false → m.decl.id ≠ c.root →
    (∀ k, IncomingKind x c m.decl.id k → p.ContentWithStub k) → m.inclusion = .stub
  full : ∀ m ∈ c.members, m.decl.isLibrary = false → m.decl.id ≠ c.root →
    ∀ k, IncomingKind x c m.decl.id k → ¬ p.ContentWithStub k → m.inclusion = .full

theorem Search.mem_kindsInto {s : Search} {id : QName} {k : Reference.Kind} :
    k ∈ s.kindsInto id ↔ (id, k) ∈ s.incoming := by
  simp [kindsInto]

namespace Finished

variable {s : Search}

/-- The kinds that the search has recorded are those of the incoming references. -/
theorem mem_incoming (h : Finished p x root s) {a : Admitted} (ha : a ∈ s.nodes)
    {k : Reference.Kind} :
    (a.decl.id, k) ∈ s.incoming ↔ IncomingKind x (ofSearch p root.id s) a.decl.id k := by
  rw [h.accounts.incoming]
  constructor
  · rintro ⟨-, u, hu, ht, hk, hne, hc⟩
    obtain ⟨hm, hp, hr⟩ := mem_uses.mp hu
    exact ⟨_, mem_memberOf hm, hp, hne.symm, hc, u.2, hr, ht, hk⟩
  · rintro ⟨n, hn, hp, hne, hc, r, hr, ht, hk⟩
    obtain ⟨b, hb, rfl⟩ := mem_members.mp hn
    exact ⟨Search.has_iff.mpr (List.mem_map_of_mem ha), (b, r), mem_uses.mpr ⟨hb, hp, hr⟩, ht, hk,
      hne.symm, hc⟩

theorem graded (h : Finished p x root s) (hp : root.isLibrary = false) :
    Graded p x (ofSearch p root.id s) where
  library m hm hl := by
    obtain ⟨a, -, rfl⟩ := mem_members.mp hm
    simp only [memberOf] at hl ⊢
    simp [inclusion, hl]
  root := by
    obtain ⟨rest, hnodes⟩ := List.head?_eq_some_iff.mp h.invariant.grown.head
    exact ⟨memberOf p root.id s ⟨root, 0⟩, rest.map (memberOf p root.id s),
      by simp [ofSearch, hnodes, memberOf], rfl, by simp [memberOf, inclusion, hp], rfl⟩
  uncalled m hm hl hroot hnone := by
    obtain ⟨a, ha, rfl⟩ := mem_members.mp hm
    simp only [memberOf] at hl hroot hnone ⊢
    have hempty : ∀ k, k ∉ s.kindsInto a.decl.id := fun k hk =>
      hnone k ((h.mem_incoming ha).mp (Search.mem_kindsInto.mp hk))
    have hctor : a.decl.kind = .ctor := by
      rcases h.invariant.called a ha with he | hc | ⟨k, hk⟩
      · exact absurd he hroot
      · exact hc
      · exact absurd (Search.mem_kindsInto.mpr hk) (hempty k)
    refine ⟨hctor, ?_⟩
    simp only [inclusion, hl, Bool.false_eq_true, if_false, beq_iff_eq]
    rw [if_neg (show a.decl.id ≠ root.id from hroot)]
    exact Policy.inclusionForAll_eq_stub fun k hk => absurd hk (hempty k)
  stub m hm hl hroot hcontent := by
    obtain ⟨a, ha, rfl⟩ := mem_members.mp hm
    simp only [memberOf] at hl hroot hcontent ⊢
    simp only [inclusion, hl, Bool.false_eq_true, if_false, beq_iff_eq]
    rw [if_neg (show a.decl.id ≠ root.id from hroot)]
    exact Policy.inclusionForAll_eq_stub fun k hk =>
      hcontent k ((h.mem_incoming ha).mp (Search.mem_kindsInto.mp hk))
  full m hm hl hroot k hk hnot := by
    obtain ⟨a, ha, rfl⟩ := mem_members.mp hm
    simp only [memberOf] at hl hroot hk ⊢
    simp only [inclusion, hl, Bool.false_eq_true, if_false, beq_iff_eq]
    rw [if_neg (show a.decl.id ≠ root.id from hroot)]
    exact Policy.inclusionForAll_eq_full
      (Search.mem_kindsInto.mpr ((h.mem_incoming ha).mpr hk)) hnot

end Finished

/-- Whatever index was built and whichever declaration of the project is asked for, the members of
the closure are kept as their incoming references ask for. -/
theorem closure_grades_by_incoming (root : Path) (ops : List Index.Operation) (p : Policy)
    (name : String) (d : Declaration) (hd : (Index.build root ops).get? ⟨name⟩ = some d)
    (hp : d.isLibrary = false) :
    ∃ c, resolve p (Index.build root ops) name = .ok c ∧ c.root = ⟨name⟩ ∧
      Graded p (Index.build root ops) c := by
  obtain ⟨s, hs, hfin, -⟩ := resolve_finished (p := p) (Index.build_distinct root ops) hd hp
  obtain ⟨-, hid⟩ := Index.get?_some hd
  exact ⟨_, hs, hid, hfin.graded hp⟩

theorem shop_grades_by_incoming :
    shopIndex.get? ⟨"shop.Shop"⟩ = some (projectClass "Shop") ∧
      ∃ c, resolve twoSteps shopIndex "shop.Shop" = .ok c ∧ c.root = ⟨"shop.Shop"⟩ ∧
        Graded twoSteps shopIndex c :=
  ⟨rfl, closure_grades_by_incoming ⟨"/"⟩ shopOperations twoSteps "shop.Shop"
    (projectClass "Shop") rfl rfl⟩

end Closure

end Carve
