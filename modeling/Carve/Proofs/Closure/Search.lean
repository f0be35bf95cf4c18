import Carve.Closure
import Carve.Proofs.Index.Building

/-!
# Steps of the search

What following one reference does, told by cases, and how the nodes of a search come about: each
one is justified by a reference of an earlier node or by being a constructor that an earlier node
brings along.
-/

namespace Carve.Closure

variable {p : Policy} {x : Index}

/-- A limit of the policy cuts the way from one declaration to another. -/
def Cut (ds : List Diagnostic) (source target : QName) : Prop :=
  .depthLimit source target ∈ ds ∨ .testExcluded source target ∈ ds

theorem mem_addNew {α : Type} [DecidableEq α] {xs : List α} {a b : α} :
    b ∈ addNew xs a ↔ b ∈ xs ∨ b = a := by
  unfold addNew
  split
  · exact ⟨Or.inl, fun h => h.elim id fun e => e ▸ ‹_›⟩
  · simp

theorem nodup_addNew {α : Type} [DecidableEq α] {xs : List α} (h : xs.Nodup) (a : α) :
    (addNew xs a).Nodup := by
  unfold addNew
  split
  · exact h
  · rename_i hnew
    rw [List.nodup_append]
    refine ⟨h, by simp, ?_⟩
    intro b hb c hc e
    simp only [List.mem_singleton] at hc
    exact hnew (hc ▸ e ▸ hb)

namespace Search

theorem has_iff {s : Search} {id : QName} :
    s.has id = true ↔ id ∈ s.nodes.map (·.decl.id) := by
  simp [has, List.any_eq_true]

@[simp] theorem note_nodes (s : Search) (e : Diagnostic) : (s.note e).nodes = s.nodes := rfl
@[simp] theorem note_incoming (s : Search) (e : Diagnostic) :
    (s.note e).incoming = s.incoming := rfl
@[simp] theorem note_followed (s : Search) (e : Diagnostic) :
    (s.note e).followed = s.followed := rfl
@[simp] theorem note_has (s : Search) (e : Diagnostic) (id : QName) :
    (s.note e).has id = s.has id := rfl

@[simp] theorem mem_note {s : Search} {e f : Diagnostic} :
    f ∈ (s.note e).diagnostics ↔ f ∈ s.diagnostics ∨ f = e := mem_addNew

@[simp] theorem reach_nodes (s : Search) (id : QName) (k : Reference.Kind) :
    (s.reach id k).nodes = s.nodes := rfl
@[simp] theorem reach_diagnostics (s : Search) (id : QName) (k : Reference.Kind) :
    (s.reach id k).diagnostics = s.diagnostics := rfl
@[simp] theorem reach_followed (s : Search) (id : QName) (k : Reference.Kind) :
    (s.reach id k).followed = s.followed := rfl
@[simp] theorem reach_has (s : Search) (t id : QName) (k : Reference.Kind) :
    (s.reach t k).has id = s.has id := rfl

@[simp] theorem mem_reach {s : Search} {t id : QName} {k l : Reference.Kind} :
    (id, l) ∈ (s.reach t k).incoming ↔ (id = t ∧ l = k) ∨ (id, l) ∈ s.incoming := by
  simp [reach]

@[simp] theorem enter_nodes (s : Search) (b : Admitted) : (s.enter b).nodes = s.nodes ++ [b] := by
  unfold enter; split <;> rfl
@[simp] theorem enter_incoming (s : Search) (b : Admitted) :
    (s.enter b).incoming = s.incoming := by
  unfold enter; split <;> rfl
@[simp] theorem enter_followed (s : Search) (b : Admitted) :
    (s.enter b).followed = s.followed := by
  unfold enter; split <;> rfl

theorem enter_has {s : Search} {b : Admitted} {id : QName} :
    (s.enter b).has id = true ↔ s.has id = true ∨ id = b.decl.id := by
  simp [has_iff]

theorem mem_enter {s : Search} {b : Admitted} {e : Diagnostic} :
    e ∈ (s.enter b).diagnostics ↔
      e ∈ s.diagnostics ∨ ∃ c, b.decl.origin.coordinate? = some c ∧ e = .libraryLeft c := by
  unfold enter
  split
  · rename_i c hc
    simp [hc]
  · rename_i hc
    simp [hc]

theorem nodup_enter {s : Search} (h : s.diagnostics.Nodup) (b : Admitted) :
    (s.enter b).diagnostics.Nodup := by
  unfold enter
  split
  · exact nodup_addNew h _
  · exact h

theorem cut_enter {s : Search} {b : Admitted} {source target : QName} :
    Cut (s.enter b).diagnostics source target ↔ Cut s.diagnostics source target := by
  simp [Cut, mem_enter]

theorem cut_note_unresolved {s : Search} {id source target : QName} {name : String} :
    Cut (s.note (.unresolved id name)).diagnostics source target ↔
      Cut s.diagnostics source target := by
  simp [Cut]

end Search

/-- A barrier is raised against tests and beyond the depth limit, never against libraries. -/
theorem barrier_eq_some_iff {a : Admitted} {d : Declaration} {e : Diagnostic} :
    barrier p a d = some e ↔ d.isLibrary = false ∧
      ((d.scope = .test ∧ p.includeTests = false ∧ .testExcluded a.decl.id d.id = e) ∨
        ((d.scope = .test → p.includeTests = true) ∧
          (∃ limit, p.maxDepth = some limit ∧ limit ≤ a.distance) ∧
          .depthLimit a.decl.id d.id = e)) := by
  unfold barrier
  cases hl : d.isLibrary <;> cases hs : d.scope <;> cases hi : p.includeTests <;>
    cases hm : p.maxDepth <;> simp

theorem barrier_eq_none_iff {a : Admitted} {d : Declaration} :
    barrier p a d = none ↔ d.isLibrary = true ∨
      ((d.scope = .test → p.includeTests = true) ∧
        ∀ limit, p.maxDepth = some limit → a.distance < limit) := by
  unfold barrier
  cases hl : d.isLibrary <;> cases hs : d.scope <;> cases hi : p.includeTests <;>
    cases hm : p.maxDepth <;> simp

theorem cut_of_barrier {a : Admitted} {d : Declaration} {e : Diagnostic}
    (h : barrier p a d = some e) :
    e = .depthLimit a.decl.id d.id ∨ e = .testExcluded a.decl.id d.id := by
  obtain ⟨-, ⟨-, -, he⟩ | ⟨-, -, he⟩⟩ := barrier_eq_some_iff.mp h
  · exact Or.inr he.symm
  · exact Or.inl he.symm

/-- What following a reference of a node comes to. -/
inductive Follows (p : Policy) (x : Index) (a : Admitted) (r : Reference) (s : Search) :
    Search → Prop where
  | nameless (h : r.target = none) :
      Follows p x a r s (s.note (.unresolved a.decl.id r.name))
  | own (h : r.target = some a.decl.id) : Follows p x a r s s
  | known (t : QName) (h : r.target = some t) (hne : t ≠ a.decl.id) (hk : s.has t = true) :
      Follows p x a r s (s.reach t r.kind)
  | absent (t : QName) (h : r.target = some t) (hne : t ≠ a.decl.id) (hk : s.has t = false)
      (hx : x.get? t = none) : Follows p x a r s (s.note (.unresolved a.decl.id r.name))
  | barred (d : Declaration) (e : Diagnostic) (h : r.target = some d.id)
      (hne : d.id ≠ a.decl.id) (hk : s.has d.id = false) (hx : x.get? d.id = some d)
      (hb : barrier p a d = some e) : Follows p x a r s (s.note e)
  | admitted (d : Declaration) (h : r.target = some d.id) (hne : d.id ≠ a.decl.id)
      (hk : s.has d.id = false) (hx : x.get? d.id = some d) (hb : barrier p a d = none) :
      Follows p x a r s ((s.reach d.id r.kind).enter ⟨d, a.distance + 1⟩)

theorem follow_follows (a : Admitted) (s : Search) (r : Reference) :
    Follows p x a r s (follow p x a s r) := by
  unfold follow
  split
  · exact .nameless ‹_›
  · rename_i t ht
    by_cases hown : t = a.decl.id
    · simpa [hown] using Follows.own (hown ▸ ht)
    by_cases hk : s.has t = true
    · simpa [hown, hk] using Follows.known t ht hown hk
    simp only [beq_iff_eq, hown, if_false, hk, if_false, Bool.false_eq_true]
    rw [Bool.not_eq_true] at hk
    cases hx : x.get? t with
    | none => exact .absent t ht hown hk hx
    | some d =>
      obtain ⟨-, rfl⟩ := Index.get?_some hx
      dsimp only
      cases hb : barrier p a d with
      | some e => exact .barred d e ht hown hk hx hb
      | none => exact .admitted d ht hown hk hx hb

/-- The type whose members a declaration counts among: a type counts for itself. -/
def ownerOf (d : Declaration) : Option QName := if d.kind.isType then some d.id else d.parent

/-- A constructor of a type that a node belongs to. -/
structure BringsAlong (x : Index) (a : Admitted) (d : Declaration) : Prop where
  project : a.decl.isLibrary = false
  owner : ∃ owner, ownerOf a.decl = some owner ∧ d.parent = some owner
  ctor : d.kind = .ctor
  indexed : x.get? d.id = some d

/-- A reference of a node of the project to a declaration that no limit keeps out. -/
structure LeadsTo (p : Policy) (x : Index) (a : Admitted) (d : Declaration) : Prop where
  project : a.decl.isLibrary = false
  reference : ∃ r ∈ x.references a.decl.id, r.target = some d.id
  indexed : x.get? d.id = some d
  open_ : barrier p a d = none

/-- What lets a declaration in behind a node. -/
def Justifies (p : Policy) (x : Index) (a : Admitted) (d : Declaration) : Prop :=
  LeadsTo p x a d ∨ BringsAlong x a d

theorem Justifies.indexed {a : Admitted} {d : Declaration} (h : Justifies p x a d) :
    x.get? d.id = some d :=
  h.elim LeadsTo.indexed BringsAlong.indexed

/-- How the nodes of a search come about, one after the other. -/
inductive Grown (p : Policy) (x : Index) (root : Declaration) : List Admitted → Prop where
  | start : Grown p x root [⟨root, 0⟩]
  | next {ns : List Admitted} {a : Admitted} {d : Declaration} : Grown p x root ns → a ∈ ns →
      Justifies p x a d → d.id ∉ ns.map (·.decl.id) → Grown p x root (ns ++ [⟨d, a.distance + 1⟩])

namespace Grown

variable {root : Declaration} {ns : List Admitted}

theorem nodup (h : Grown p x root ns) : (ns.map (·.decl.id)).Nodup := by
  induction h with
  | start => simp
  | next _ _ _ hnew ih =>
    rw [List.map_append, List.nodup_append]
    refine ⟨ih, by simp, ?_⟩
    intro b hb c hc e
    simp only [List.map_cons, List.map_nil, List.mem_singleton] at hc
    exact hnew (hc ▸ e ▸ hb)

theorem indexed (h : Grown p x root ns) (hroot : x.get? root.id = some root) :
    ∀ a ∈ ns, x.get? a.decl.id = some a.decl := by
  induction h with
  | start => simpa using hroot
  | next _ _ hj _ ih =>
    intro b hb
    rcases List.mem_append.mp hb with hb | hb
    · exact ih b hb
    · simp only [List.mem_singleton] at hb
      exact hb ▸ hj.indexed

theorem head (h : Grown p x root ns) : ns.head? = some ⟨root, 0⟩ := by
  induction h with
  | start => rfl
  | next _ _ _ _ ih => simp [List.head?_append, ih]

theorem length_le (h : Grown p x root ns) (hroot : x.get? root.id = some root) :
    ns.length ≤ x.nodes.length := by
  have hx : ∀ id ∈ ns.map (·.decl.id), (x.get? id).isSome := by
    intro id hid
    obtain ⟨a, ha, rfl⟩ := List.mem_map.mp hid
    simp [h.indexed hroot a ha]
  simpa using Index.length_le_of_indexed h.nodup hx

theorem eq_of_id (h : Grown p x root ns) {a b : Admitted} (ha : a ∈ ns) (hb : b ∈ ns)
    (hid : a.decl.id = b.decl.id) : a = b :=
  List.inj_on_of_nodup_map h.nodup ha hb hid

/-- Every node but the first follows one that justifies it at a distance of one less. -/
theorem justified (h : Grown p x root ns) {i : Nat} {b : Admitted} (hi : ns[i]? = some b) :
    i = 0 ∨ ∃ j a, j < i ∧ ns[j]? = some a ∧ b.distance = a.distance + 1 ∧
      Justifies p x a b.decl := by
  induction h with
  | start =>
    obtain ⟨hlt, -⟩ := List.getElem?_eq_some_iff.mp hi
    exact Or.inl (by simpa using hlt)
  | @next ns a d _ ha hj _ ih =>
    rw [List.getElem?_append] at hi
    split at hi
    · rename_i hlt
      refine (ih hi).imp id ?_
      rintro ⟨j, c, hjlt, hc, hrest⟩
      exact ⟨j, c, hjlt, by rw [List.getElem?_append_left (by omega)]; exact hc, hrest⟩
    · rename_i hge
      obtain ⟨j, hjlt, hja⟩ := List.mem_iff_getElem.mp ha
      obtain rfl : b = ⟨d, a.distance + 1⟩ := by simpa using List.mem_of_getElem? hi
      refine Or.inr ⟨j, a, by omega, ?_, rfl, hj⟩
      rw [List.getElem?_append_left hjlt, List.getElem?_eq_getElem hjlt, hja]

end Grown

end Carve.Closure
