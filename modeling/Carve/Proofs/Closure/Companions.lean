import Carve.Proofs.Closure.Run

/-!
# Rounds of the search

When nothing is left to follow, types that are trimmed may still lack constructors. They are
brought in, each once and one step behind a node of the type, and followed in turn. The rounds end
with no constructor missing, and then the search stands finished.
-/

namespace Carve.Closure

variable {p : Policy} {x : Index} {root : Declaration}

structure Owners (ns : List Admitted) (os : List (QName × Nat)) : Prop where
  once : (os.map (·.1)).Nodup
  source : ∀ o ∈ os, ∃ a ∈ ns, a.decl.isLibrary = false ∧ ownerOf a.decl = some o.1 ∧
    a.distance = o.2

theorem addOwner_eq (os : List (QName × Nat)) (a : Admitted) :
    addOwner os a =
      if a.decl.isLibrary then os
      else
        match ownerOf a.decl with
        | none => os
        | some owner =>
          if os.any (·.1 == owner) then
            os.map fun o => if o.1 == owner then (o.1, min o.2 a.distance) else o
          else os ++ [(owner, a.distance)] := rfl

theorem Owners.mono {ns : List Admitted} {os : List (QName × Nat)} (h : Owners ns os)
    (a : Admitted) : Owners (ns ++ [a]) os := by
  refine ⟨h.once, fun o ho => ?_⟩
  obtain ⟨b, hb, hrest⟩ := h.source o ho
  exact ⟨b, by simp [hb], hrest⟩

theorem Owners.lower {ns : List Admitted} {os : List (QName × Nat)} (h : Owners ns os)
    {a : Admitted} {owner : QName} (hl : a.decl.isLibrary = false)
    (ho : ownerOf a.decl = some owner) :
    Owners (ns ++ [a])
      (os.map fun o => if o.1 == owner then (o.1, min o.2 a.distance) else o) := by
  constructor
  · have hnames : (os.map fun o => if o.1 == owner then (o.1, min o.2 a.distance) else o).map
        (·.1) = os.map (·.1) := by
      rw [List.map_map]
      exact List.map_congr_left fun o _ => by simp only [Function.comp]; split <;> rfl
    rw [hnames]
    exact h.once
  · intro o ho'
    obtain ⟨o', hm, rfl⟩ := List.mem_map.mp ho'
    obtain ⟨b, hb, hbl, hbo, hbd⟩ := h.source o' hm
    split
    · rename_i heq
      have heq : o'.1 = owner := by simpa using heq
      rcases Nat.le_total o'.2 a.distance with hle | hle
      · exact ⟨b, by simp [hb], hbl, hbo, by simp [hbd, hle]⟩
      · exact ⟨a, by simp, hl, by simp [ho, heq], by simp [hle]⟩
    · exact ⟨b, by simp [hb], hbl, hbo, hbd⟩

theorem Owners.gain {ns : List Admitted} {os : List (QName × Nat)} (h : Owners ns os)
    {a : Admitted} {owner : QName} (hl : a.decl.isLibrary = false)
    (ho : ownerOf a.decl = some owner) (hnew : owner ∉ os.map (·.1)) :
    Owners (ns ++ [a]) (os ++ [(owner, a.distance)]) := by
  constructor
  · rw [List.map_append, List.nodup_append]
    refine ⟨h.once, by simp, ?_⟩
    intro b hb c hc e
    simp only [List.map_cons, List.map_nil, List.mem_singleton] at hc
    exact hnew (hc ▸ e ▸ hb)
  · intro o ho'
    rcases List.mem_append.mp ho' with ho' | ho'
    · exact (h.mono a).source o ho'
    · obtain rfl := List.mem_singleton.mp ho'
      exact ⟨a, by simp, hl, ho, rfl⟩

theorem Owners.add {ns : List Admitted} {os : List (QName × Nat)} (h : Owners ns os)
    (a : Admitted) : Owners (ns ++ [a]) (addOwner os a) := by
  rw [addOwner_eq]
  cases hl : a.decl.isLibrary with
  | true => exact h.mono a
  | false =>
    cases ho : ownerOf a.decl with
    | none => exact h.mono a
    | some owner =>
      simp only [Bool.false_eq_true, if_false]
      by_cases hany : os.any (·.1 == owner) = true
      · rw [if_pos hany]
        exact h.lower hl ho
      · rw [if_neg hany]
        refine h.gain hl ho fun hm => ?_
        obtain ⟨o, hmem, rfl⟩ := List.mem_map.mp hm
        exact hany (List.any_eq_true.mpr ⟨o, hmem, by simp⟩)

theorem owners_owners (s : Search) : Owners s.nodes (owners s) := by
  have main : ∀ (ns : List Admitted) (done : List Admitted) (os : List (QName × Nat)),
      Owners done os → Owners (done ++ ns) (ns.foldl addOwner os) := by
    intro ns
    induction ns with
    | nil => exact fun done os h => by simpa using h
    | cons a ns ih =>
      intro done os h
      simpa using ih (done ++ [a]) (addOwner os a) (h.add a)
  simpa [owners] using main s.nodes [] [] ⟨List.nodup_nil, by simp⟩

def missingOf (p : Policy) (x : Index) (s : Search) (root : QName) (o : QName × Nat) :
    List Admitted :=
  if keptWhole p s root o.1 then []
  else
    match x.get? o.1 with
    | none => []
    | some d =>
      let members := x.children o.1
      let missing := members.filter fun m => m.kind == .ctor && !s.has m.id
      if needsCtors s d members then missing.map fun m => ⟨m, o.2 + 1⟩ else []

theorem missingCtors_eq (s : Search) (root : QName) :
    missingCtors p x s root = (owners s).flatMap (missingOf p x s root) := rfl

theorem mem_missingOf {s : Search} {root : QName} {o : QName × Nat} {b : Admitted} :
    b ∈ missingOf p x s root o ↔ keptWhole p s root o.1 = false ∧
      (∃ d, x.get? o.1 = some d ∧ needsCtors s d (x.children o.1) = true) ∧
      b.decl ∈ x.children o.1 ∧ b.decl.kind = .ctor ∧ s.has b.decl.id = false ∧
      b.distance = o.2 + 1 := by
  unfold missingOf
  cases hk : keptWhole p s root o.1 with
  | true => simp
  | false =>
    cases hd : x.get? o.1 with
    | none => simp
    | some d =>
      cases hn : needsCtors s d (x.children o.1) with
      | false => simp [hn]
      | true =>
        simp only [Bool.false_eq_true, if_false, hn, if_true, List.mem_map, List.mem_filter,
          Bool.and_eq_true, beq_iff_eq, Bool.not_eq_true', true_and, Option.some.injEq,
          exists_eq_left']
        constructor
        · rintro ⟨m, ⟨hm, hkind, hhas⟩, rfl⟩
          exact ⟨hm, hkind, hhas, rfl⟩
        · rintro ⟨hm, hkind, hhas, hdist⟩
          exact ⟨b.decl, ⟨hm, hkind, hhas⟩, by rw [← hdist]⟩

theorem brought_of_missing (hx : x.Distinct) {s : Search} {root : QName} {b : Admitted}
    (h : b ∈ missingCtors p x s root) : s.has b.decl.id = false ∧
      ∃ a ∈ s.nodes, BringsAlong x a b.decl ∧ b.distance = a.distance + 1 := by
  rw [missingCtors_eq, List.mem_flatMap] at h
  obtain ⟨o, ho, hm⟩ := h
  obtain ⟨-, -, hm, hkind, hhas, hdist⟩ := mem_missingOf.mp hm
  obtain ⟨a, ha, hl, howner, hd⟩ := (owners_owners s).source o ho
  obtain ⟨hdecl, hparent⟩ := Index.mem_children.mp hm
  exact ⟨hhas, a, ha, ⟨hl, ⟨o.1, howner, hparent⟩, hkind, Index.get?_of_mem hx hdecl⟩, by omega⟩

theorem nodup_missingOf (hx : x.Distinct) (s : Search) (root : QName) (o : QName × Nat) :
    ((missingOf p x s root o).map (·.decl.id)).Nodup := by
  unfold missingOf
  split
  · exact List.nodup_nil
  split
  · exact List.nodup_nil
  dsimp only
  split
  · rw [List.map_map]
    exact (Index.nodup_children hx o.1).sublist (List.filter_sublist.map _)
  · exact List.nodup_nil

/-- No constructor is missing twice: one type has it, and has it once. -/
theorem nodup_missingCtors (hx : x.Distinct) (s : Search) (root : QName) :
    ((missingCtors p x s root).map (·.decl.id)).Nodup := by
  rw [missingCtors_eq, List.map_flatMap, List.nodup_flatMap]
  refine ⟨fun o _ => nodup_missingOf hx s root o, ?_⟩
  have hnames : (owners s).Pairwise fun o o' => o.1 ≠ o'.1 :=
    List.pairwise_map.mp (owners_owners s).once
  refine hnames.imp fun {o o'} hne => ?_
  intro id hid hid'
  obtain ⟨b, hb, rfl⟩ := List.mem_map.mp hid
  obtain ⟨b', hb', he⟩ := List.mem_map.mp hid'
  obtain ⟨hdecl, hparent⟩ := Index.mem_children.mp (mem_missingOf.mp hb).2.2.1
  obtain ⟨hdecl', hparent'⟩ := Index.mem_children.mp (mem_missingOf.mp hb').2.2.1
  have hx' := Index.get?_of_mem hx hdecl'
  rw [he, Index.get?_of_mem hx hdecl] at hx'
  rw [← Option.some.inj hx', hparent] at hparent'
  exact hne (Option.some.inj hparent')

namespace Invariant

variable {s : Search}

theorem bring (more : List Admitted) : ∀ {s : Search}, Invariant p x root s →
    (∀ b ∈ more, s.has b.decl.id = false ∧
      ∃ a ∈ s.nodes, BringsAlong x a b.decl ∧ b.distance = a.distance + 1) →
    (more.map (·.decl.id)).Nodup →
    Invariant p x root (more.foldl Search.enter s) ∧
      (more.foldl Search.enter s).followed = s.followed ∧
      (more.foldl Search.enter s).nodes = s.nodes ++ more := by
  induction more with
  | nil => exact fun h _ _ => ⟨h, rfl, by simp⟩
  | cons b more ih =>
    intro s h hmore hnodup
    obtain ⟨hhas, a, ha, hbrings, hdist⟩ := hmore b List.mem_cons_self
    rw [List.map_cons, List.nodup_cons] at hnodup
    have hnew : b.decl.id ∉ s.nodes.map (·.decl.id) := fun hm => by
      simp [Search.has_iff.mpr hm] at hhas
    have hgrown := h.grown.next ha (Or.inr hbrings) hnew
    rw [← hdist] at hgrown
    have hinv : Invariant p x root (s.enter b) := by
      refine ⟨?_, ?_, h.called.enter (Or.inl hbrings.ctor), ?_⟩
      · rw [Search.enter_nodes]; exact hgrown
      · rw [Search.enter_nodes, Search.enter_followed,
          uses_take_of_prefix (List.prefix_append _ _) h.followed_le]
        exact h.accounts.enter hbrings.indexed hhas
      · simpa using Nat.le_succ_of_le h.followed_le
    have hrest : ∀ b' ∈ more, (s.enter b).has b'.decl.id = false ∧
        ∃ a ∈ (s.enter b).nodes, BringsAlong x a b'.decl ∧ b'.distance = a.distance + 1 := by
      intro b' hb'
      obtain ⟨hhas', a', ha', hrest⟩ := hmore b' (List.mem_cons_of_mem _ hb')
      refine ⟨?_, a', by simp [ha'], hrest⟩
      rw [← Bool.not_eq_true, Search.enter_has]
      rintro (hh | he)
      · simp [hh] at hhas'
      · exact hnodup.1 (he ▸ List.mem_map_of_mem hb')
    obtain ⟨hfinal, hfollowed, hnodes⟩ := ih hinv hrest hnodup.2
    exact ⟨hfinal, by simpa using hfollowed, by simpa using hnodes⟩

end Invariant

/-- A search at its end. -/
structure Finished (p : Policy) (x : Index) (root : Declaration) (s : Search) : Prop where
  invariant : Invariant p x root s
  followed : s.followed = s.nodes.length
  complete : missingCtors p x s root.id = []

theorem Finished.accounts {s : Search} (h : Finished p x root s) :
    Accounts p x (uses x s.nodes) s := by
  have hacc := h.invariant.accounts
  rwa [h.followed, List.take_length] at hacc

/-- Every round admits a declaration, so there are no more rounds than declarations. The nodes of
the first expansion come first. -/
theorem complete_finished (hx : x.Distinct) (hroot : x.get? root.id = some root) (fuel : Nat) :
    ∀ {s : Search}, Invariant p x root s → x.nodes.length < fuel + s.nodes.length →
      Finished p x root (complete p x root.id fuel s) ∧
        (expand p x (x.nodes.length + 1) s).nodes <+: (complete p x root.id fuel s).nodes := by
  induction fuel with
  | zero =>
    intro s h hfuel
    have := h.grown.length_le hroot
    omega
  | succ fuel ih =>
    intro s h hfuel
    obtain ⟨hinv, hfollowed, hprefix⟩ := h.expand hroot (x.nodes.length + 1) (by omega)
    have hlen := hprefix.length_le
    unfold complete
    dsimp only
    split
    · exact ⟨⟨hinv, hfollowed, ‹_›⟩, List.prefix_refl _⟩
    · rename_i hmissing
      have hmore := nodup_missingCtors (p := p) hx (expand p x (x.nodes.length + 1) s) root.id
      obtain ⟨hnext, -, hnodes⟩ := hinv.bring (missingCtors p x _ root.id)
        (fun b hb => brought_of_missing hx hb) hmore
      have hpos := List.length_pos_iff.mpr hmissing
      obtain ⟨hfin, hfirst⟩ := ih hnext (by
        rw [hnodes, List.length_append]
        omega)
      obtain ⟨-, -, hagain⟩ := hnext.expand hroot (x.nodes.length + 1) (by omega)
      refine ⟨hfin, List.IsPrefix.trans ?_ (hagain.trans hfirst)⟩
      rw [hnodes]
      exact List.prefix_append _ _

/-- The closure of a project declaration is that of a finished search which begins with the
expansion of the root. -/
theorem resolve_finished (hx : x.Distinct) {name : String} {d : Declaration}
    (hd : x.get? ⟨name⟩ = some d) (hp : d.isLibrary = false) :
    ∃ s, resolve p x name = .ok (ofSearch p d.id s) ∧ Finished p x d s ∧
      (expand p x (x.nodes.length + 1) (Search.enter {} ⟨d, 0⟩)).nodes <+: s.nodes := by
  have hroot : x.get? d.id = some d := by
    obtain ⟨-, hid⟩ := Index.get?_some hd
    rw [hid]; exact hd
  refine ⟨complete p x d.id (x.nodes.length + 1) (Search.enter {} ⟨d, 0⟩), ?_, ?_⟩
  · simp [resolve, Index.resolve, hd, hp, bind, Except.bind, pure, Except.pure]
  · exact complete_finished hx hroot (x.nodes.length + 1) (.start hp) (by omega)

end Carve.Closure
