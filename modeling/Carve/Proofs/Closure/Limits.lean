import Carve.Proofs.Closure.Distance
import Carve.Proofs.Closure.Rounds

/-!
# How far the limits reach

The limits of the policy hold for whatever references lead to. Constructors that a trimmed type
brings along are let in without a look at them: they may stand one step beyond the depth limit or
come from the tests, and what they refer to follows them. Nothing else is beyond a limit, and
nothing else that a limit cut off is a member after all.
-/

namespace Carve.Closure

variable {p : Policy} {x : Index} {root : Declaration} {limit : Nat}

def admitted (c : Closure) : List Admitted := c.members.map fun m => ⟨m.decl, m.distance⟩

theorem admitted_ofSearch (id : QName) (s : Search) : (ofSearch p id s).admitted = s.nodes := by
  simp [admitted, ofSearch, Function.comp_def]

/-- A constructor one step behind a declaration of the project that belongs to its type. -/
def Attendant (ns : List Admitted) (b : Admitted) : Prop :=
  b.decl.kind = .ctor ∧ ∃ a ∈ ns, a.decl.isLibrary = false ∧ b.distance = a.distance + 1 ∧
    ∃ owner, ownerOf a.decl = some owner ∧ b.decl.parent = some owner

/-- An attendant, or what stands behind one. -/
inductive Trailing (x : Index) (ns : List Admitted) : Admitted → Prop where
  | attendant {b : Admitted} : b ∈ ns → Attendant ns b → Trailing x ns b
  | behind {a b : Admitted} : Trailing x ns a → b ∈ ns → b.distance = a.distance + 1 →
      (∃ r ∈ x.references a.decl.id, r.target = some b.decl.id) → Trailing x ns b

theorem Attendant.mono {ns ns' : List Admitted} {b : Admitted} (h : Attendant ns b)
    (hsub : ns ⊆ ns') : Attendant ns' b := by
  obtain ⟨hkind, a, ha, hrest⟩ := h
  exact ⟨hkind, a, hsub ha, hrest⟩

theorem Trailing.mono {ns ns' : List Admitted} {b : Admitted} (h : Trailing x ns b)
    (hsub : ns ⊆ ns') : Trailing x ns' b := by
  induction h with
  | attendant hb hatt => exact .attendant (hsub hb) (hatt.mono hsub)
  | behind _ hb hdist href ih => exact .behind ih (hsub hb) hdist href

theorem attendant_of_missing {s : Search} {id : QName} {b : Admitted}
    (hb : b ∈ missingCtors p x s id) : Attendant s.nodes b := by
  obtain ⟨owner, hparent, hkind, ⟨a, ha, hl, howner, hdist⟩, -⟩ := nearest_of_missing hb
  exact ⟨hkind, a, ha, hl, hdist, owner, howner, hparent⟩

/-- The depth limit holds but for attendants, which stand one step beyond it at most, and for
libraries, which stand one step beyond what refers to them. -/
structure Bounded (x : Index) (limit : Nat) (ns : List Admitted) : Prop where
  project : ∀ b ∈ ns, b.decl.isLibrary = false →
    b.distance ≤ limit ∨ b.distance = limit + 1 ∧ Attendant ns b
  library : ∀ b ∈ ns, b.decl.isLibrary = true →
    b.distance ≤ limit + 1 ∨ b.distance = limit + 2 ∧
      ∃ a ∈ ns, a.distance = limit + 1 ∧ Attendant ns a ∧
        ∃ r ∈ x.references a.decl.id, r.target = some b.decl.id

namespace Bounded

variable {s : Search}

theorem start (hp : root.isLibrary = false) : Bounded x limit [⟨root, 0⟩] := by
  constructor
  · intro b hb _
    obtain rfl := List.mem_singleton.mp hb
    exact Or.inl (Nat.zero_le limit)
  · intro b hb hl
    obtain rfl := List.mem_singleton.mp hb
    rw [hp] at hl
    cases hl

theorem extend {ns ns' : List Admitted} (h : Bounded x limit ns) (hsub : ns ⊆ ns')
    (hproject : ∀ b ∈ ns', b ∉ ns → b.decl.isLibrary = false →
      b.distance ≤ limit ∨ b.distance = limit + 1 ∧ Attendant ns' b)
    (hlibrary : ∀ b ∈ ns', b ∉ ns → b.decl.isLibrary = true →
      b.distance ≤ limit + 1 ∨ b.distance = limit + 2 ∧
        ∃ a ∈ ns', a.distance = limit + 1 ∧ Attendant ns' a ∧
          ∃ r ∈ x.references a.decl.id, r.target = some b.decl.id) :
    Bounded x limit ns' := by
  constructor
  · intro b hb hl
    by_cases hold : b ∈ ns
    · rcases h.project b hold hl with hle | ⟨heq, hatt⟩
      · exact Or.inl hle
      · exact Or.inr ⟨heq, hatt.mono hsub⟩
    · exact hproject b hb hold hl
  · intro b hb hl
    by_cases hold : b ∈ ns
    · rcases h.library b hold hl with hle | ⟨heq, a, ha, hdist, hatt, href⟩
      · exact Or.inl hle
      · exact Or.inr ⟨heq, a, hsub ha, hdist, hatt.mono hsub, href⟩
    · exact hlibrary b hb hold hl

theorem followNode (hlimit : p.maxDepth = some limit) (h : Bounded x limit s.nodes) {a : Admitted}
    (ha : a ∈ s.nodes) : Bounded x limit (followNode p x s a).nodes := by
  have hsub : s.nodes ⊆ (Closure.followNode p x s a).nodes := subset_followNode s a
  refine h.extend hsub ?_ ?_
  · intro b hb hnew hl
    obtain ⟨hdist, hleads⟩ := (mem_followNode_nodes hb).resolve_left hnew
    rcases barrier_eq_none_iff.mp hleads.open_ with hlib | ⟨-, hlt⟩
    · rw [hl] at hlib
      cases hlib
    · have := hlt limit hlimit
      exact Or.inl (by omega)
  · intro b hb hnew _
    obtain ⟨hdist, hleads⟩ := (mem_followNode_nodes hb).resolve_left hnew
    rcases h.project a ha hleads.project with hle | ⟨heq, hatt⟩
    · exact Or.inl (by omega)
    · exact Or.inr ⟨by omega, a, hsub ha, heq, hatt.mono hsub, hleads.reference⟩

/-- An attendant at the farthest place has a companion of its type one step nearer, so that the
constructors of this type come no farther out than it. -/
theorem missing_le (h : Bounded x limit s.nodes) {id : QName} {b : Admitted}
    (hb : b ∈ missingCtors p x s id) : b.distance ≤ limit + 1 := by
  obtain ⟨owner, -, -, ⟨a, ha, hl, howner, hdist⟩, hnearest⟩ := nearest_of_missing hb
  rcases h.project a ha hl with hle | ⟨heq, hkind, c, hc, hcl, hcdist, o, hco, hparent⟩
  · omega
  · have hmember : a.decl.parent = some owner := by
      simpa [ownerOf, hkind, Declaration.Kind.isType] using howner
    obtain rfl : o = owner := Option.some.inj (hparent.symm.trans hmember)
    have := hnearest c hc hcl hco
    omega

theorem bring (h : Bounded x limit s.nodes) (id : QName) :
    Bounded x limit (s.nodes ++ missingCtors p x s id) := by
  have hsub : s.nodes ⊆ s.nodes ++ missingCtors p x s id := List.subset_append_left _ _
  have hmissing : ∀ b ∈ s.nodes ++ missingCtors p x s id, b ∉ s.nodes →
      b.distance ≤ limit + 1 ∧ Attendant (s.nodes ++ missingCtors p x s id) b := by
    intro b hb hnew
    have hb := (List.mem_append.mp hb).resolve_left hnew
    exact ⟨h.missing_le hb, (attendant_of_missing hb).mono hsub⟩
  refine h.extend hsub ?_ ?_
  · intro b hb hnew _
    obtain ⟨hle, hatt⟩ := hmissing b hb hnew
    by_cases hfar : b.distance = limit + 1
    · exact Or.inr ⟨hfar, hatt⟩
    · exact Or.inl (by omega)
  · intro b hb hnew _
    exact Or.inl (hmissing b hb hnew).1

end Bounded

/-- Without tests in the policy only attendants come from the tests. -/
def Untested (root : Declaration) (ns : List Admitted) : Prop :=
  ∀ b ∈ ns, b.decl.isLibrary = false → b.decl.id ≠ root.id →
    b.decl.scope = .main ∨ Attendant ns b

theorem Untested.followNode (htests : p.includeTests = false) {s : Search}
    (h : Untested root s.nodes) (a : Admitted) :
    Untested root (followNode p x s a).nodes := by
  intro b hb hl hne
  rcases mem_followNode_nodes hb with hold | ⟨-, hleads⟩
  · exact (h b hold hl hne).imp id fun hatt => hatt.mono (subset_followNode s a)
  · rcases barrier_eq_none_iff.mp hleads.open_ with hlib | ⟨ht, -⟩
    · rw [hl] at hlib
      cases hlib
    · left
      cases hs : b.decl.scope with
      | main => rfl
      | test =>
        rw [htests] at ht
        cases ht hs

theorem Untested.bring {s : Search} (h : Untested root s.nodes) (id : QName) :
    Untested root (s.nodes ++ missingCtors p x s id) := by
  have hsub : s.nodes ⊆ s.nodes ++ missingCtors p x s id := List.subset_append_left _ _
  intro b hb hl hne
  rcases List.mem_append.mp hb with hold | hnew
  · exact (h b hold hl hne).imp (fun hmain => hmain) fun hatt => hatt.mono hsub
  · exact Or.inr ((attendant_of_missing hnew).mono hsub)

/-- Everything that a way in reach leads to is a node. -/
def ReachedAll (p : Policy) (x : Index) (root : Declaration) (s : Search) : Prop :=
  ∀ n d, Way p x root n d → InReach p d n → s.has d.id = true

def CutsUnreached (p : Policy) (x : Index) (root : Declaration) (s : Search) : Prop :=
  ∀ source t, .depthLimit source t ∈ s.diagnostics → ∀ n d, Way p x root n d → d.id = t →
    ¬ InReach p d n

/-- By the time a node is followed, ways no longer than its distance have been gone. -/
theorem Layered.found_of_short_way {s : Search} (h : Layered p x root s)
    (hstart : Found s.nodes root 0) {a : Admitted} (ha : s.nodes[s.followed]? = some a) {n : Nat}
    {d : Declaration} (hw : Way p x root n d) :
    n ≤ a.distance → InReach p d n → Found s.nodes d n := by
  induction hw with
  | start => exact fun _ _ => hstart
  | @step n c d r _ hc hr ht hx hwel ih =>
    intro hn hreach
    obtain ⟨b, hb, rfl, hdist⟩ := ih (by omega) (hreach.pred hc)
    have hleads : LeadsTo p x b d :=
      ⟨hc, ⟨r, hr, ht⟩, hx, open_of_inReach hwel hreach hdist⟩
    have htake : b ∈ s.nodes.take s.followed := by
      obtain ⟨j, hj, rfl⟩ := List.mem_iff_getElem.mp hb
      by_cases hlt : j < s.followed
      · exact List.mem_take_iff_getElem.mpr ⟨j, by omega, rfl⟩
      · obtain ⟨hfollowed, rfl⟩ := List.getElem?_eq_some_iff.mp ha
        rcases Nat.lt_or_eq_of_le (Nat.le_of_not_lt hlt) with hlater | heq
        · have := List.pairwise_iff_getElem.mp h.ordered.sorted _ _ hfollowed hj hlater
          omega
        · subst heq
          omega
    obtain ⟨e, he, hdecl, hle⟩ := h.spread b htake d hleads
    exact ⟨e, he, hdecl, by omega⟩

theorem Found.has {s : Search} {d : Declaration} {n : Nat} (h : Found s.nodes d n) :
    s.has d.id = true := by
  obtain ⟨b, hb, rfl, -⟩ := h
  exact Search.has_iff.mpr (List.mem_map_of_mem hb)

theorem found_root {s : Search} (h : Invariant p x root s) : Found s.nodes root 0 :=
  ⟨⟨root, 0⟩, List.mem_of_head? h.grown.head, rfl, Nat.le_refl 0⟩

theorem CutsUnreached.followNode {s : Search} (hroot : x.get? root.id = some root)
    (hinv : Invariant p x root s) (h : CutsUnreached p x root s) {a : Admitted}
    (ha : s.nodes[s.followed]? = some a) (hfound : Layered p x root s ∨ ReachedAll p x root s) :
    CutsUnreached p x root (followNode p x s a) := by
  intro source t he n d hway hid hreach
  rcases bars_of_followNode (isCut_depthLimit source t) he with
    hold | ⟨-, r, -, d', -, -, hk, hx, hb⟩
  · exact h source t hold n d hway hid hreach
  obtain ⟨hl, ⟨-, -, hform⟩ | ⟨-, ⟨limit, hlimit, hle⟩, hform⟩⟩ := barrier_eq_some_iff.mp hb
  · cases hform
  obtain ⟨-, rfl⟩ := Diagnostic.depthLimit.inj hform
  have hd := hway.indexed hroot
  rw [hid, hx] at hd
  obtain rfl := Option.some.inj hd
  have hn : n ≤ limit := by
    have := hreach limit hlimit
    simpa [hl] using this
  have hhas : s.has d'.id = true := by
    rcases hfound with hlayered | hall
    · exact (hlayered.found_of_short_way (found_root hinv) ha hway (by omega) hreach).has
    · exact hall n d' hway hreach
  rw [hk] at hhas
  cases hhas

/-- A node stands at the end of a way in reach, or it trails behind an attendant. -/
theorem Grown.way_or_trailing {ns : List Admitted} (h : Grown p x root ns)
    (hp : root.isLibrary = false) : ∀ b ∈ ns,
      Way p x root b.distance b.decl ∧ InReach p b.decl b.distance ∨ Trailing x ns b := by
  induction h with
  | start =>
    intro b hb
    obtain rfl := List.mem_singleton.mp hb
    refine Or.inl ⟨.start, fun limit _ => ?_⟩
    simp [hp]
  | @next ns a d _ ha hj _ ih =>
    intro b hb
    have hsub : ns ⊆ ns ++ [⟨d, a.distance + 1⟩] := List.subset_append_left _ _
    rcases List.mem_append.mp hb with hold | hnew
    · exact (ih b hold).imp (fun hway => hway) fun htrail => htrail.mono hsub
    obtain rfl := List.mem_singleton.mp hnew
    rcases hj with hleads | hbrings
    · rcases ih a ha with ⟨hway, hreach⟩ | htrail
      · left
        obtain ⟨r, hr, ht⟩ := hleads.reference
        refine ⟨hway.step hleads.project hr ht hleads.indexed (welcome_of_open hleads.open_), ?_⟩
        intro limit hlimit
        have hle := hreach limit hlimit
        simp only [hleads.project, Bool.false_eq_true, if_false] at hle
        dsimp only
        split
        · omega
        · rename_i hlib
          have hlt := (barrier_eq_none_iff.mp hleads.open_).resolve_left hlib
          have := hlt.2 limit hlimit
          omega
      · exact Or.inr (.behind (htrail.mono hsub) hb rfl hleads.reference)
    · obtain ⟨owner, howner, hparent⟩ := hbrings.owner
      exact Or.inr (.attendant hb
        ⟨hbrings.ctor, a, hsub ha, hbrings.project, rfl, owner, howner, hparent⟩)

def RootOpen (root : Declaration) (s : Search) : Prop :=
  ∀ source, ¬ Cut s.diagnostics source root.id

theorem RootOpen.followNode {s : Search} (hinv : Invariant p x root s) (h : RootOpen root s)
    (a : Admitted) : RootOpen root (followNode p x s a) := by
  intro source hc
  have hhas : s.has root.id = true := (found_root hinv).has
  have hnew : ∀ e, IsCut e → (e = .depthLimit source root.id ∨ e = .testExcluded source root.id) →
      e ∈ (Closure.followNode p x s a).diagnostics → e ∈ s.diagnostics := by
    intro e hcut hform he
    refine (bars_of_followNode hcut he).resolve_right ?_
    rintro ⟨-, r, -, d, -, -, hk, -, hb⟩
    have hid : root.id = d.id := by
      rcases hform with rfl | rfl
      · rcases cut_of_barrier hb with hsame | hsame
        · exact (Diagnostic.depthLimit.inj hsame).2
        · cases hsame
      · rcases cut_of_barrier hb with hsame | hsame
        · cases hsame
        · exact (Diagnostic.testExcluded.inj hsame).2
    rw [← hid, hhas] at hk
    cases hk
  rcases hc with hc | hc
  · exact h source (Or.inl (hnew _ (isCut_depthLimit _ _) (Or.inl rfl) hc))
  · exact h source (Or.inr (hnew _ (isCut_testExcluded _ _) (Or.inr rfl) hc))

/-- What the limits of the policy keep out, and what comes in beyond them. -/
structure Limited (p : Policy) (x : Index) (root : Declaration) (c : Closure) : Prop where
  depth : ∀ limit, p.maxDepth = some limit → Bounded x limit c.admitted
  tests : p.includeTests = false → Untested root c.admitted
  unreached : ∀ source t, .depthLimit source t ∈ c.diagnostics → ∀ n d, Way p x root n d →
    d.id = t → ¬ InReach p d n
  cut : ∀ source t, .depthLimit source t ∈ c.diagnostics → ∀ b ∈ c.admitted, b.decl.id = t →
    Trailing x c.admitted b
  excluded : ∀ source t, .testExcluded source t ∈ c.diagnostics → ∀ b ∈ c.admitted,
    b.decl.id = t → Attendant c.admitted b

structure Restrained (p : Policy) (x : Index) (root : Declaration) (s : Search) : Prop where
  depth : ∀ limit, p.maxDepth = some limit → Bounded x limit s.nodes
  tests : p.includeTests = false → Untested root s.nodes
  found : Layered p x root s ∨ ReachedAll p x root s
  cuts : CutsUnreached p x root s
  open_ : RootOpen root s

namespace Restrained

variable {s : Search}

theorem start (hp : root.isLibrary = false) :
    Restrained p x root (Search.enter {} ⟨root, 0⟩) := by
  have hnodes : (Search.enter {} ⟨root, 0⟩).nodes = [⟨root, 0⟩] := by simp
  have hclean : ∀ e, IsCut e → e ∉ (Search.enter {} ⟨root, 0⟩).diagnostics := by
    intro e hcut he
    rcases Search.mem_enter.mp he with hnone | ⟨c, -, rfl⟩
    · cases hnone
    · exact hcut
  constructor
  · intro limit _
    rw [hnodes]
    exact .start hp
  · intro _ b hb _ hne
    rw [hnodes] at hb
    obtain rfl := List.mem_singleton.mp hb
    exact absurd rfl hne
  · exact Or.inl (.start _ hnodes (by simp))
  · intro source t he
    exact absurd he (hclean _ (isCut_depthLimit source t))
  · rintro source (hc | hc)
    · exact hclean _ (isCut_depthLimit source root.id) hc
    · exact hclean _ (isCut_testExcluded source root.id) hc

theorem followNode (hroot : x.get? root.id = some root) (hinv : Invariant p x root s)
    (h : Restrained p x root s) {a : Admitted} (ha : s.nodes[s.followed]? = some a) :
    Restrained p x root (followNode p x s a) where
  depth limit hlimit := (h.depth limit hlimit).followNode hlimit (List.mem_of_getElem? ha)
  tests htests := (h.tests htests).followNode htests a
  found := by
    rcases h.found with hlayered | hall
    · exact Or.inl (hlayered.followNode hroot ha)
    · right
      intro n d hway hreach
      have hold := Search.has_iff.mp (hall n d hway hreach)
      exact Search.has_iff.mpr (List.map_subset _ (subset_followNode s a) hold)
  cuts := h.cuts.followNode hroot hinv ha h.found
  open_ := h.open_.followNode hinv a

theorem bring (hinv : Invariant p x root s) (hall : s.followed = s.nodes.length)
    (h : Restrained p x root s) :
    Restrained p x root ((missingCtors p x s root.id).foldl Search.enter s) := by
  obtain ⟨hnodes, -, hcuts⟩ := foldl_enter (missingCtors p x s root.id) s
  constructor
  · intro limit hlimit
    rw [hnodes]
    exact (h.depth limit hlimit).bring root.id
  · intro htests
    rw [hnodes]
    exact (h.tests htests).bring root.id
  · right
    intro n d hway hreach
    have hfound : s.has d.id = true := by
      rcases h.found with hlayered | hreached
      · exact (hlayered.found_of_way hall (found_root hinv) hway hreach).has
      · exact hreached n d hway hreach
    rw [Search.has_iff] at hfound ⊢
    rw [hnodes, List.map_append]
    exact List.mem_append_left _ hfound
  · intro source t he
    exact h.cuts source t ((hcuts _ (isCut_depthLimit source t)).mp he)
  · rintro source (hc | hc)
    · exact h.open_ source (Or.inl ((hcuts _ (isCut_depthLimit source root.id)).mp hc))
    · exact h.open_ source (Or.inr ((hcuts _ (isCut_testExcluded source root.id)).mp hc))

/-- At the end of the search the limits have kept out what they can. -/
theorem limited (h : Restrained p x root s) (hfin : Finished p x root s)
    (hroot : x.get? root.id = some root) (hp : root.isLibrary = false) :
    Limited p x root (ofSearch p root.id s) := by
  have hgrown := hfin.invariant.grown
  have hnodes : (ofSearch p root.id s).admitted = s.nodes := admitted_ofSearch root.id s
  constructor
  · rw [hnodes]
    exact h.depth
  · rw [hnodes]
    exact h.tests
  · exact h.cuts
  · intro source t he b hb hid
    rw [hnodes] at hb ⊢
    rcases hgrown.way_or_trailing hp b hb with ⟨hway, hreach⟩ | htrail
    · exact absurd hreach (h.cuts source t he _ _ hway hid)
    · exact htrail
  · intro source t he b hb hid
    rw [hnodes] at hb ⊢
    obtain ⟨-, -, d, -, -, -, hx, hl, hscope, htests⟩ :=
      (hfin.accounted hroot).excluded_cause source t he
    have hb' := hgrown.indexed hroot b hb
    rw [hid, hx] at hb'
    obtain rfl := Option.some.inj hb'
    have hne : b.decl.id ≠ root.id := by
      intro heq
      exact h.open_ source (Or.inr (heq ▸ hid ▸ he))
    rcases h.tests htests b hb hl hne with hmain | hatt
    · rw [hscope] at hmain
      cases hmain
    · exact hatt

end Restrained

/-- Whatever index was built and whichever declaration of the project is asked for, only
constructors that their types bring along get past the limits, with what stands behind them. -/
theorem closure_limits_all_but_attendants (top : Path) (ops : List Index.Operation) (p : Policy)
    (name : String) (d : Declaration) (hd : (Index.build top ops).get? ⟨name⟩ = some d)
    (hp : d.isLibrary = false) :
    ∃ c, resolve p (Index.build top ops) name = .ok c ∧ c.root = ⟨name⟩ ∧
      Limited p (Index.build top ops) d c := by
  have hx := Index.build_distinct top ops
  obtain ⟨-, hid⟩ := Index.get?_some hd
  have hroot : (Index.build top ops).get? d.id = some d := hid ▸ hd
  obtain ⟨hresolve, hfin⟩ := resolve_eq_searchOf (p := p) hx hd hp
  have hend : Restrained p (Index.build top ops) d (searchOf p (Index.build top ops) d) :=
    searchOf_preserves hx hroot hp (fun s a hinv ha h => h.followNode hroot hinv ha)
      (fun s hinv hall h => h.bring hinv hall) (.start hp)
  exact ⟨_, hresolve, hid, hend.limited hfin hroot hp⟩

/-- With a depth limit of one, the till still brings its constructor along, at distance two. -/
def oneStep : Policy := { maxDepth := some 1 }

theorem till_constructor_stands_beyond_limit :
    shopIndex.get? ⟨"shop.Shop"⟩ = some (projectClass "Shop") ∧
      ∃ c, resolve oneStep shopIndex "shop.Shop" = .ok c ∧
        Limited oneStep shopIndex (projectClass "Shop") c ∧
        ∃ b ∈ c.admitted, b.decl = tillCtor ∧ b.distance = 2 ∧ Attendant c.admitted b := by
  obtain ⟨c, hc, -, hlimited⟩ := closure_limits_all_but_attendants ⟨"/"⟩ shopOperations oneStep
    "shop.Shop" (projectClass "Shop") rfl rfl
  have hsearch : (searchOf oneStep shopIndex (projectClass "Shop")).nodes[4]? =
      some ⟨tillCtor, 2⟩ := rfl
  have hadmitted : ⟨tillCtor, 2⟩ ∈ c.admitted := by
    have hshop : shopIndex.get? ⟨"shop.Shop"⟩ = some (projectClass "Shop") := rfl
    obtain ⟨hresolve, -⟩ := resolve_eq_searchOf (p := oneStep)
      (Index.build_distinct ⟨"/"⟩ shopOperations) hshop rfl
    obtain rfl := Except.ok.inj (hc.symm.trans hresolve)
    rw [admitted_ofSearch]
    exact List.mem_of_getElem? hsearch
  refine ⟨rfl, c, hc, hlimited, _, hadmitted, rfl, rfl, ?_⟩
  rcases (hlimited.depth 1 rfl).project _ hadmitted rfl with hle | ⟨-, hatt⟩
  · exact absurd hle (by decide)
  · exact hatt

end Carve.Closure
