import Carve.Proofs.Closure.Companions

/-!
# What the rounds preserve

A property that following a node and bringing in the missing constructors both preserve holds of
the search at its end. Beside it stands what one round does: which nodes following adds, which
remarks it makes, and which constructors are missing, told by the nodes alone.
-/

namespace Carve.Closure

variable {p : Policy} {x : Index} {root : Declaration}

/-- The search for the closure of a declaration, from its start to its end. -/
def searchOf (p : Policy) (x : Index) (root : Declaration) : Search :=
  complete p x root.id (x.nodes.length + 1) (Search.enter {} ⟨root, 0⟩)

section

variable {J : Search → Prop}

theorem expand_preserves
    (hfollow : ∀ s a, Invariant p x root s → s.nodes[s.followed]? = some a → J s →
      J (followNode p x s a)) (fuel : Nat) :
    ∀ {s : Search}, Invariant p x root s → J s → J (expand p x fuel s) := by
  induction fuel with
  | zero => exact fun _ hj => hj
  | succ fuel ih =>
    intro s h hj
    unfold expand
    cases ha : s.nodes[s.followed]? with
    | none => exact hj
    | some a => exact ih (h.followNode ha).1 (hfollow s a h ha hj)

theorem Invariant.bringMissing (hx : x.Distinct) {s : Search} (h : Invariant p x root s) :
    Invariant p x root ((missingCtors p x s root.id).foldl Search.enter s) ∧
      ((missingCtors p x s root.id).foldl Search.enter s).followed = s.followed ∧
      ((missingCtors p x s root.id).foldl Search.enter s).nodes =
        s.nodes ++ missingCtors p x s root.id :=
  h.bring (missingCtors p x s root.id) (fun _ hb => brought_of_missing hx hb)
    (nodup_missingCtors hx s root.id)

theorem complete_preserves (hx : x.Distinct) (hroot : x.get? root.id = some root)
    (hfollow : ∀ s a, Invariant p x root s → s.nodes[s.followed]? = some a → J s →
      J (followNode p x s a))
    (hbring : ∀ s, Invariant p x root s → s.followed = s.nodes.length → J s →
      J ((missingCtors p x s root.id).foldl Search.enter s)) (fuel : Nat) :
    ∀ {s : Search}, Invariant p x root s → x.nodes.length < fuel + s.nodes.length → J s →
      J (complete p x root.id fuel s) := by
  induction fuel with
  | zero =>
    intro s h hfuel
    have := h.grown.length_le hroot
    omega
  | succ fuel ih =>
    intro s h hfuel hj
    obtain ⟨hinv, hall, hprefix⟩ := h.expand hroot (x.nodes.length + 1) (by omega)
    have hexpanded := expand_preserves hfollow (x.nodes.length + 1) h hj
    have hlen := hprefix.length_le
    unfold complete
    dsimp only
    split
    · exact hexpanded
    · rename_i hmissing
      obtain ⟨hnext, -, hnodes⟩ := hinv.bringMissing hx
      have hpos := List.length_pos_iff.mpr hmissing
      refine ih hnext ?_ (hbring _ hinv hall hexpanded)
      rw [hnodes, List.length_append]
      omega

theorem searchOf_preserves (hx : x.Distinct) (hroot : x.get? root.id = some root)
    (hp : root.isLibrary = false)
    (hfollow : ∀ s a, Invariant p x root s → s.nodes[s.followed]? = some a → J s →
      J (followNode p x s a))
    (hbring : ∀ s, Invariant p x root s → s.followed = s.nodes.length → J s →
      J ((missingCtors p x s root.id).foldl Search.enter s))
    (hstart : J (Search.enter {} ⟨root, 0⟩)) : J (searchOf p x root) :=
  complete_preserves hx hroot hfollow hbring _ (.start hp) (by omega) hstart

end

/-- The closure of a project declaration shows the search for it, which is finished. -/
theorem resolve_eq_searchOf (hx : x.Distinct) {name : String} {d : Declaration}
    (hd : x.get? ⟨name⟩ = some d) (hp : d.isLibrary = false) :
    resolve p x name = .ok (ofSearch p d.id (searchOf p x d)) ∧
      Finished p x d (searchOf p x d) := by
  obtain ⟨-, hid⟩ := Index.get?_some hd
  have hroot : x.get? d.id = some d := hid ▸ hd
  refine ⟨?_, (complete_finished hx hroot (x.nodes.length + 1) (.start hp) (by omega)).1⟩
  simp [resolve, Index.resolve, hd, hp, bind, Except.bind, pure, Except.pure, searchOf]

theorem exists_of_resolve {name : String} {c : Closure} (h : resolve p x name = .ok c) :
    ∃ d, x.get? ⟨name⟩ = some d ∧ d.isLibrary = false := by
  unfold resolve Index.resolve at h
  cases hd : x.get? ⟨name⟩ with
  | none =>
    rw [hd] at h
    cases h
  | some d =>
    refine ⟨d, rfl, Bool.eq_false_iff.mpr fun hlibrary => ?_⟩
    rw [hd] at h
    simp [hlibrary, bind, Except.bind, throw, throwThe, MonadExceptOf.throw] at h

/-- The members of a closure are the declarations that the index has under their names. -/
theorem indexed_of_resolve (hx : x.Distinct) {name : String} {c : Closure}
    (h : resolve p x name = .ok c) :
    (c.members.map (·.decl.id)).Nodup ∧ ∀ m ∈ c.members,
      x.get? m.decl.id = some m.decl ∧ (m.decl.isLibrary = true → m.inclusion = .external) := by
  obtain ⟨d, hd, hp⟩ := exists_of_resolve h
  obtain ⟨hresolve, hfin⟩ := resolve_eq_searchOf (p := p) hx hd hp
  obtain rfl := Except.ok.inj (hresolve.symm.trans h)
  obtain ⟨-, hid⟩ := Index.get?_some hd
  refine ⟨by simpa [ofSearch, Function.comp_def] using hfin.invariant.grown.nodup, ?_⟩
  intro m hm
  obtain ⟨a, ha, rfl⟩ := List.mem_map.mp hm
  refine ⟨hfin.invariant.grown.indexed (hid ▸ hd) a ha, fun hlibrary => ?_⟩
  show inclusion p _ d.id a.decl = .external
  unfold inclusion
  rw [if_pos hlibrary]

theorem mem_followAll_nodes (a : Admitted) (rs : List Reference) : ∀ {s : Search} {b : Admitted},
    b ∈ (rs.foldl (follow p x a) s).nodes → b ∈ s.nodes ∨ b.distance = a.distance + 1 ∧
      x.get? b.decl.id = some b.decl ∧ barrier p a b.decl = none ∧
      ∃ r ∈ rs, r.target = some b.decl.id := by
  induction rs with
  | nil => exact fun hb => Or.inl hb
  | cons r rs ih =>
    intro s b hb
    rcases ih hb with hb | ⟨hdist, hx, hopen, r', hr', ht⟩
    · have hf := follow_follows (p := p) (x := x) a s r
      generalize follow p x a s r = s' at hf hb
      cases hf with
      | admitted d ht _ _ hx hopen =>
        rw [Search.enter_nodes, Search.reach_nodes, List.mem_append] at hb
        rcases hb with hb | hb
        · exact Or.inl hb
        · obtain rfl := List.mem_singleton.mp hb
          exact Or.inr ⟨rfl, hx, hopen, r, List.mem_cons_self, ht⟩
      | _ => exact Or.inl hb
    · exact Or.inr ⟨hdist, hx, hopen, r', List.mem_cons_of_mem _ hr', ht⟩

theorem mem_followNode_nodes {s : Search} {a b : Admitted}
    (hb : b ∈ (followNode p x s a).nodes) :
    b ∈ s.nodes ∨ b.distance = a.distance + 1 ∧ LeadsTo p x a b.decl := by
  unfold followNode at hb
  cases hl : a.decl.isLibrary with
  | true => exact Or.inl (by simpa [hl] using hb)
  | false =>
    simp only [hl, Bool.false_eq_true, if_false] at hb
    rcases mem_followAll_nodes a _ hb with hb | ⟨hdist, hx, hopen, r, hr, ht⟩
    · exact Or.inl hb
    · exact Or.inr ⟨hdist, hl, ⟨r, hr, ht⟩, hx, hopen⟩

theorem subset_followAll (a : Admitted) (rs : List Reference) :
    ∀ s : Search, s.nodes ⊆ (rs.foldl (follow p x a) s).nodes := by
  induction rs with
  | nil => exact fun _ _ hb => hb
  | cons r rs ih => exact fun s _ hb => ih _ ((extends_follow a s r).nodes.subset hb)

theorem subset_followNode (s : Search) (a : Admitted) :
    s.nodes ⊆ (followNode p x s a).nodes := by
  unfold followNode
  cases a.decl.isLibrary with
  | true => exact fun _ hb => hb
  | false => exact subset_followAll a _ { s with followed := s.followed + 1 }

theorem subset_follow_diagnostics (a : Admitted) (s : Search) (r : Reference) :
    s.diagnostics ⊆ (follow p x a s r).diagnostics := by
  have hf := follow_follows (p := p) (x := x) a s r
  generalize follow p x a s r = s' at hf ⊢
  intro e he
  cases hf with
  | own => exact he
  | known => exact he
  | admitted => exact Search.mem_enter.mpr (Or.inl he)
  | _ => exact Search.mem_note.mpr (Or.inl he)

theorem subset_followNode_diagnostics (s : Search) (a : Admitted) :
    s.diagnostics ⊆ (followNode p x s a).diagnostics := by
  have hall : ∀ (rs : List Reference) (s' : Search),
      s'.diagnostics ⊆ (rs.foldl (follow p x a) s').diagnostics := by
    intro rs
    induction rs with
    | nil => exact fun _ _ he => he
    | cons r rs ih => exact fun s' e he => ih _ (subset_follow_diagnostics a s' r he)
  unfold followNode
  cases a.decl.isLibrary with
  | true => exact fun _ he => he
  | false => exact hall _ { s with followed := s.followed + 1 }

/-- A remark that a limit of the policy calls for. -/
def IsCut : Diagnostic → Prop
  | .depthLimit _ _ | .testExcluded _ _ => True
  | _ => False

theorem isCut_depthLimit (source t : QName) : IsCut (.depthLimit source t) := trivial

theorem isCut_testExcluded (source t : QName) : IsCut (.testExcluded source t) := trivial

theorem foldl_enter (more : List Admitted) : ∀ s : Search,
    (more.foldl Search.enter s).nodes = s.nodes ++ more ∧
      (more.foldl Search.enter s).incoming = s.incoming ∧
      ∀ e, IsCut e → (e ∈ (more.foldl Search.enter s).diagnostics ↔ e ∈ s.diagnostics) := by
  induction more with
  | nil => intro s; simp
  | cons b more ih =>
    intro s
    obtain ⟨hnodes, hincoming, hcut⟩ := ih (s.enter b)
    refine ⟨by simp [hnodes], by simp [hincoming], fun e he => ?_⟩
    rw [List.foldl_cons, hcut e he, Search.mem_enter, or_iff_left]
    rintro ⟨c, -, rfl⟩
    exact he

/-- A reference of a node is kept by a limit from what is no node yet. -/
def Bars (p : Policy) (x : Index) (s : Search) (a : Admitted) (r : Reference) (e : Diagnostic) :
    Prop :=
  ∃ d, r.target = some d.id ∧ d.id ≠ a.decl.id ∧ s.has d.id = false ∧ x.get? d.id = some d ∧
    barrier p a d = some e

theorem Bars.before {s s' : Search} {a : Admitted} {r : Reference} {e : Diagnostic}
    (h : Bars p x s' a r e) (hsub : s.nodes ⊆ s'.nodes) : Bars p x s a r e := by
  obtain ⟨d, ht, hne, hk, hrest⟩ := h
  refine ⟨d, ht, hne, ?_, hrest⟩
  rw [← Bool.not_eq_true, Search.has_iff] at hk ⊢
  exact fun hm => hk (List.map_subset _ hsub hm)

theorem bars_of_followAll (a : Admitted) (rs : List Reference) {e : Diagnostic} (he : IsCut e) :
    ∀ {s : Search}, e ∈ (rs.foldl (follow p x a) s).diagnostics →
      e ∈ s.diagnostics ∨ ∃ r ∈ rs, Bars p x s a r e := by
  induction rs with
  | nil => exact fun hm => Or.inl hm
  | cons r rs ih =>
    intro s hm
    rcases ih hm with hm | ⟨r', hr', hbars⟩
    · have hf := follow_follows (p := p) (x := x) a s r
      generalize follow p x a s r = s' at hf hm
      cases hf with
      | own => exact Or.inl hm
      | known => exact Or.inl hm
      | admitted d =>
        refine Or.inl ((Search.mem_enter.mp hm).resolve_right ?_)
        rintro ⟨c, -, rfl⟩
        exact he
      | barred d e' ht hne hk hx hb =>
        refine (Search.mem_note.mp hm).imp (fun hold => hold) ?_
        rintro rfl
        exact ⟨r, List.mem_cons_self, d, ht, hne, hk, hx, hb⟩
      | _ =>
        refine Or.inl ((Search.mem_note.mp hm).resolve_right ?_)
        rintro rfl
        exact he
    · exact Or.inr ⟨r', List.mem_cons_of_mem _ hr',
        hbars.before (extends_follow a s r).nodes.subset⟩

theorem bars_of_followNode {s : Search} {a : Admitted} {e : Diagnostic} (he : IsCut e)
    (hm : e ∈ (followNode p x s a).diagnostics) : e ∈ s.diagnostics ∨
      a.decl.isLibrary = false ∧ ∃ r ∈ x.references a.decl.id, Bars p x s a r e := by
  unfold followNode at hm
  cases hl : a.decl.isLibrary with
  | true => exact Or.inl (by simpa [hl] using hm)
  | false =>
    simp only [hl, Bool.false_eq_true, if_false] at hm
    exact (bars_of_followAll a _ he hm).imp id fun hbars => ⟨rfl, hbars⟩

def Listed (ns : List Admitted) (os : List (QName × Nat)) : Prop :=
  ∀ a ∈ ns, a.decl.isLibrary = false → ∀ owner, ownerOf a.decl = some owner →
    ∃ n, (owner, n) ∈ os ∧ n ≤ a.distance

theorem Listed.add {ns : List Admitted} {os : List (QName × Nat)} (h : Listed ns os)
    (a : Admitted) : Listed (ns ++ [a]) (addOwner os a) := by
  have hkeep : ∀ owner n, (owner, n) ∈ os → ∃ m, (owner, m) ∈ addOwner os a ∧ m ≤ n := by
    intro owner n hmem
    rw [addOwner_eq]
    split
    · exact ⟨n, hmem, Nat.le_refl n⟩
    split
    · exact ⟨n, hmem, Nat.le_refl n⟩
    rename_i o _
    split
    · by_cases heq : owner = o
      · exact ⟨min n a.distance, List.mem_map.mpr ⟨_, hmem, by simp [heq]⟩, Nat.min_le_left _ _⟩
      · exact ⟨n, List.mem_map.mpr ⟨_, hmem, by simp [heq]⟩, Nat.le_refl n⟩
    · exact ⟨n, List.mem_append_left _ hmem, Nat.le_refl n⟩
  intro b hb hl owner howner
  rcases List.mem_append.mp hb with hb | hb
  · obtain ⟨n, hmem, hle⟩ := h b hb hl owner howner
    obtain ⟨m, hmem', hle'⟩ := hkeep owner n hmem
    exact ⟨m, hmem', Nat.le_trans hle' hle⟩
  · obtain rfl := List.mem_singleton.mp hb
    rw [addOwner_eq]
    simp only [hl, Bool.false_eq_true, if_false, howner]
    split
    · rename_i hany
      obtain ⟨⟨o, n⟩, hmem, heq⟩ := List.any_eq_true.mp hany
      have heq : o = owner := by simpa using heq
      exact ⟨min n b.distance, List.mem_map.mpr ⟨_, hmem, by simp [heq]⟩, Nat.min_le_right _ _⟩
    · exact ⟨b.distance, by simp, Nat.le_refl _⟩

theorem listed_owners (s : Search) : Listed s.nodes (owners s) := by
  have main : ∀ (ns done : List Admitted) (os : List (QName × Nat)),
      Listed done os → Listed (done ++ ns) (ns.foldl addOwner os) := by
    intro ns
    induction ns with
    | nil => exact fun done os h => by simpa using h
    | cons a ns ih =>
      intro done os h
      simpa using ih (done ++ [a]) (addOwner os a) (h.add a)
  simpa [owners] using main s.nodes [] [] (by intro a ha; cases ha)

/-- A missing constructor stands one step behind the nearest node of its type. -/
theorem nearest_of_missing {s : Search} {id : QName} {b : Admitted}
    (h : b ∈ missingCtors p x s id) : ∃ owner, b.decl.parent = some owner ∧ b.decl.kind = .ctor ∧
      (∃ a ∈ s.nodes, a.decl.isLibrary = false ∧ ownerOf a.decl = some owner ∧
        b.distance = a.distance + 1) ∧
      ∀ a ∈ s.nodes, a.decl.isLibrary = false → ownerOf a.decl = some owner →
        b.distance ≤ a.distance + 1 := by
  rw [missingCtors_eq, List.mem_flatMap] at h
  obtain ⟨o, ho, hm⟩ := h
  obtain ⟨-, -, hm, hkind, -, hdist⟩ := mem_missingOf.mp hm
  obtain ⟨-, hparent⟩ := Index.mem_children.mp hm
  obtain ⟨a, ha, hl, howner, hd⟩ := (owners_owners s).source o ho
  refine ⟨o.1, hparent, hkind, ⟨a, ha, hl, howner, by omega⟩, fun c hc hcl hcowner => ?_⟩
  obtain ⟨n, hmem, hle⟩ := listed_owners s c hc hcl o.1 hcowner
  have hsame : (o.1, n) = o :=
    List.inj_on_of_nodup_map (owners_owners s).once hmem ho rfl
  have : n = o.2 := congrArg Prod.snd hsame
  omega

theorem mem_missing_decls {s : Search} {id : QName} {d : Declaration} :
    d ∈ (missingCtors p x s id).map (·.decl) ↔ ∃ owner,
      (∃ a ∈ s.nodes, a.decl.isLibrary = false ∧ ownerOf a.decl = some owner) ∧
      keptWhole p s id owner = false ∧
      (∃ T, x.get? owner = some T ∧ needsCtors s T (x.children owner) = true) ∧
      d ∈ x.children owner ∧ d.kind = .ctor ∧ s.has d.id = false := by
  rw [missingCtors_eq, List.mem_map]
  constructor
  · rintro ⟨b, hb, rfl⟩
    obtain ⟨o, ho, hm⟩ := List.mem_flatMap.mp hb
    obtain ⟨hkept, hneeds, hm, hkind, hhas, -⟩ := mem_missingOf.mp hm
    obtain ⟨a, ha, hl, howner, -⟩ := (owners_owners s).source o ho
    exact ⟨o.1, ⟨a, ha, hl, howner⟩, hkept, hneeds, hm, hkind, hhas⟩
  · rintro ⟨owner, ⟨a, ha, hl, howner⟩, hkept, hneeds, hm, hkind, hhas⟩
    obtain ⟨n, hmem, -⟩ := listed_owners s a ha hl owner howner
    have hmissing : (⟨d, n + 1⟩ : Admitted) ∈ missingOf p x s id (owner, n) :=
      mem_missingOf.mpr ⟨hkept, hneeds, hm, hkind, hhas, rfl⟩
    exact ⟨⟨d, n + 1⟩, List.mem_flatMap.mpr ⟨_, hmem, hmissing⟩, rfl⟩

theorem keptWhole_iff {s : Search} (h : Grown p x root s.nodes) {id owner : QName} :
    keptWhole p s id owner = true ↔
      ∃ a ∈ s.nodes, a.decl.id = owner ∧ inclusion p s id a.decl = .full := by
  unfold keptWhole
  cases hfind : s.nodes.find? (·.decl.id == owner) with
  | none =>
    have hnone := List.find?_eq_none.mp hfind
    constructor
    · intro hfalse
      cases hfalse
    · rintro ⟨a, ha, hid, -⟩
      exact absurd (by simpa using hid) (hnone a ha)
  | some b =>
    have hb := List.mem_of_find?_eq_some hfind
    have hid : b.decl.id = owner := by simpa using List.find?_some hfind
    simp only [beq_iff_eq]
    constructor
    · exact fun hfull => ⟨b, hb, hid, hfull⟩
    · rintro ⟨a, ha, hida, hfull⟩
      rwa [h.eq_of_id hb ha (hid.trans hida.symm)]

end Carve.Closure
