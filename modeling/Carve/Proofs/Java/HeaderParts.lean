import Carve.Proofs.Java.Origins

/-!
# The parts of a header

A walk through the header of a type finds in each part what it would find there had it seen nothing
else of the header: only the type parameters are hidden.
-/

namespace Carve.Java

def Typeless (n : Node) : Prop := ∀ m ∈ n.nodes, m.kind ∉ localTypeKinds

/-- A use site that a walk finds in some part of the header if it starts there. The components of a
record declare no types; if they did, these would hide supertypes that are written after them. -/
inductive HeaderSite (source : List Char) (hidden : List String) (n : Node) (s : UseSite) : Prop
  | mark : s ∈ (modifierAnnotations source n.children { hidden }).sites →
      HeaderSite source hidden n s
  | bound {params : Node} : n.child? .typeParameters = some params →
      s ∈ (typeParameterRefs source params { hidden }).sites → HeaderSite source hidden n s
  | supertype {t : Node} : (∀ c ∈ n.named, c.kind = .formalParameters → Typeless c) →
      t ∈ Reader.listedSupertypes n → s ∈ (typeRefs source .supertype t { hidden }).sites →
      HeaderSite source hidden n s
  | component {c : Node} : n.firstOf? .formalParameters = some c →
      s ∈ (visitParameters source c { hidden }).sites → HeaderSite source hidden n s

def Adds (f : Walk → Walk) : Prop :=
  ∀ w, f w = { w with found := (f { hidden := w.hidden }).found ++ w.found }

theorem respects_adds (source : List Char) : RespectsTypes source Adds where
  stay _ := rfl
  comp {f g} hf hg w := by
    have hfirst : (f { hidden := w.hidden }).hidden = w.hidden := by rw [hf]
    dsimp only
    rw [hg (f w), hg (f { hidden := w.hidden }), hfirst, hf w]
    simp
  mention _ n w := by
    unfold mentionType
    dsimp only
    split
    · rfl
    · split <;> rfl
  mark n w := by
    unfold annotationMention
    split <;> rfl

def Walk.after (w : Walk) (old : List UseSite) : Walk := { w with found := w.found ++ old }

def Continues (f : Walk → Walk) : Prop := ∀ w old, f (w.after old) = (f w).after old

theorem respects_continues (source : List Char) :
    Respects source (fun _ => True) Continues where
  stay _ _ := rfl
  comp hf hg w old := by
    dsimp only
    rw [hf w old, hg]
  mention _ n w old := by
    unfold mentionType Walk.after
    dsimp only
    split
    · rfl
    · split <;> rfl
  mark n w old := by
    unfold annotationMention
    split <;> rfl
  children _ _ _ := trivial
  lone n w old := by
    have hlocal : (w.after old).local? (n.text source) = w.local? (n.text source) := rfl
    dsimp only
    rw [hlocal]
    split <;> rfl
  call cs name w old := by
    have hframes : (w.after old).frames = w.frames := rfl
    dsimp only
    rw [objectReceiver_congr source hframes]
    rfl
  field cs name w old := by
    have hframes : (w.after old).frames = w.frames := rfl
    dsimp only
    rw [objectReceiver_congr source hframes]
    rfl
  refer n q _ _ _ name w old := by
    have hframes : (w.after old).frames = w.frames := rfl
    dsimp only
    rw [qualifierReceiver_congr source hframes]
    rfl
  declare name type w old := by
    unfold Walk.declare Walk.after
    dsimp only
    split <;> rfl
  hide _ _ _ _ _ _ := rfl
  inFrame {f} hf w old := by
    have hinner : f (w.after old).enter = (f w.enter).after old := hf w.enter old
    show (f (w.after old).enter).leave = _
    rw [hinner]
    rfl

def HidesOnly (source : List Char) (roots : List Node) (w w' : Walk) : Prop :=
  ∃ names, w'.hidden = names ++ w.hidden ∧
    ∀ x ∈ names, ∃ d ∈ Node.nodesIn roots, LocalType source d x

theorem HidesOnly.of_eq {source : List Char} {roots : List Node} {w w' : Walk}
    (h : w'.hidden = w.hidden) : HidesOnly source roots w w' := ⟨[], h, by simp⟩

theorem respects_hidden (source : List Char) (roots : List Node) :
    Respects source (· ∈ Node.nodesIn roots) fun f => ∀ w, HidesOnly source roots w (f w) where
  stay _ := .of_eq rfl
  comp {f g} hf hg w := by
    obtain ⟨names, hnames, hlocal⟩ := hf w
    obtain ⟨names', hnames', hlocal'⟩ := hg (f w)
    refine ⟨names' ++ names, by rw [hnames', hnames, List.append_assoc], fun x hx => ?_⟩
    exact (List.mem_append.mp hx).elim (hlocal' x) (hlocal x)
  mention _ n w := by
    unfold mentionType
    dsimp only
    split
    · exact .of_eq rfl
    · split <;> exact .of_eq rfl
  mark n w := by
    unfold annotationMention
    split <;> exact .of_eq rfl
  children hn c hc := Node.nodesIn_closed hn c hc
  lone n w := by
    dsimp only
    split <;> exact .of_eq rfl
  call _ _ _ := .of_eq rfl
  field _ _ _ := .of_eq rfl
  refer _ _ _ _ _ _ _ := .of_eq rfl
  declare name type w := by
    unfold Walk.declare
    dsimp only
    split <;> exact .of_eq rfl
  hide n hn name hlocal w := ⟨[name], rfl, by simpa using ⟨n, hn, hlocal⟩⟩
  inFrame hf w := hf w.enter

theorem HidesOnly.eq_of_typeless {source : List Char} {c : Node} {w w' : Walk}
    (h : HidesOnly source [c] w w') (hc : Typeless c) : w'.hidden = w.hidden := by
  obtain ⟨names, hnames, hlocal⟩ := h
  cases names with
  | nil => exact hnames
  | cons x names =>
    obtain ⟨d, hd, hkind, -⟩ := hlocal x List.mem_cons_self
    obtain ⟨c', hc', hbelow⟩ := Node.mem_nodesIn.mp hd
    obtain rfl := List.mem_singleton.mp hc'
    exact absurd hkind (hc d hbelow)

theorem Leads.mem_sites {w w' : Walk} (h : Leads w w') {s : UseSite} (hs : s ∈ w.sites) :
    s ∈ w'.sites := by
  obtain ⟨new, hnew, -⟩ := h.found
  rw [Walk.sites, List.mem_reverse] at hs ⊢
  exact hnew ▸ List.mem_append_right _ hs

theorem Adds.mem_sites {f : Walk → Walk} (h : Adds f) {w : Walk} {s : UseSite}
    (hs : s ∈ (f { hidden := w.hidden }).sites) : s ∈ (f w).sites := by
  rw [Walk.sites, List.mem_reverse] at hs ⊢
  rw [h w]
  exact List.mem_append_left _ hs

theorem Continues.mem_sites {f : Walk → Walk} (h : Continues f) {w : Walk}
    (hframes : w.frames = [[]]) {s : UseSite} (hs : s ∈ (f { hidden := w.hidden }).sites) :
    s ∈ (f w).sites := by
  have hw : w = ({ hidden := w.hidden } : Walk).after w.found := by
    cases w
    simp only at hframes
    simp [Walk.after, hframes]
  rw [Walk.sites, List.mem_reverse] at hs ⊢
  rw [hw, h]
  exact List.mem_append_left _ hs

/-! ### The steps through a header -/

variable {source : List Char}

theorem adds_supertypes (ts : List Node) :
    Adds fun w => ts.foldl (fun w t => typeRefs source .supertype t w) w :=
  (respects_adds source).foldl fun t _ => (respects_adds source).typeRefs (by simp) t

theorem adds_headerStep {c : Node} (hc : c.kind ≠ .formalParameters) :
    Adds fun w => headerStep source w c := by
  unfold headerStep
  split
  iterate 3
    · exact adds_supertypes _
  · rename_i hkind
    exact absurd hkind hc
  · exact fun _ => rfl

theorem hidden_headerStep {c : Node} (hc : c.kind = .formalParameters → Typeless c) (w : Walk) :
    (headerStep source w c).hidden = w.hidden := by
  by_cases hkind : c.kind = .formalParameters
  · unfold headerStep
    rw [hkind]
    have hself : c ∈ Node.nodesIn [c] := Node.mem_nodesIn.mpr ⟨c, by simp, c.self_mem_nodes⟩
    exact ((respects_hidden source [c]).visitParameters c hself w).eq_of_typeless (hc hkind)
  · have hstep : headerStep source w c = _ := adds_headerStep hkind w
    rw [hstep]

theorem hidden_headerSteps {cs : List Node}
    (hcs : ∀ c ∈ cs, c.kind = .formalParameters → Typeless c) (w : Walk) :
    (cs.foldl (headerStep source) w).hidden = w.hidden := by
  induction cs generalizing w with
  | nil => rfl
  | cons c cs ih =>
    obtain ⟨hc, hcs⟩ := List.forall_mem_cons.mp hcs
    exact (ih hcs _).trans (hidden_headerStep hc w)

theorem frames_headerSteps {cs : List Node} (hcs : ∀ c ∈ cs, c.kind ≠ .formalParameters)
    (w : Walk) : (cs.foldl (headerStep source) w).frames = w.frames := by
  induction cs generalizing w with
  | nil => rfl
  | cons c cs ih =>
    obtain ⟨hc, hcs⟩ := List.forall_mem_cons.mp hcs
    have hstep : headerStep source w c = _ := adds_headerStep hc w
    refine (ih hcs _).trans ?_
    rw [hstep]

/-- Each part of a header has its use sites among those of the header. -/
theorem mem_headerSites (r : Reader) {n : Node} {s : UseSite}
    (h : HeaderSite r.source (r.walk (r.typeParameterNames n)).hidden n s) :
    s ∈ r.headerSites n := by
  unfold Reader.headerSites
  extract_lets w₀ w₁ w₂ w₃
  have hadds : Adds (modifierAnnotations r.source n.children) :=
    (respects_adds r.source).modifierAnnotations _
  have hbounds : ∀ params, Adds (typeParameterRefs r.source params) := fun params =>
    (respects_adds r.source).typeParameterRefs params
  have h₁ : w₁.hidden = w₀.hidden ∧ w₁.frames = w₀.frames := by
    have hw₁ : w₁ = modifierAnnotations r.source n.children w₀ := rfl
    rw [hw₁, hadds w₀]
    exact ⟨rfl, rfl⟩
  have h₂ : w₂.hidden = w₀.hidden ∧ w₂.frames = w₀.frames := by
    simp only [w₂]
    split
    · rw [hbounds _ w₁]
      exact h₁
    · exact h₁
  have hlater : ∀ (cs : List Node) (w : Walk), Leads w (cs.foldl (headerStep r.source) w) :=
    fun cs w => .foldl (fun w c => (respects_leads r.source).headerStep (c := c) trivial w) cs w
  have hw₃ : w₃ = n.named.foldl (headerStep r.source) w₂ := rfl
  cases h with
  | mark hs =>
    have hlead := (respects_leads r.source).optional (n.child? .typeParameters) fun c _ =>
      (respects_leads r.source).typeParameterRefs c
    rw [hw₃]
    exact ((hlead w₁).trans (hlater _ _)).mem_sites hs
  | @bound params hparams hs =>
    have hw₂ : w₂ = typeParameterRefs r.source params w₁ := by
      simp only [w₂, hparams]
    rw [hw₃]
    refine (hlater _ _).mem_sites ?_
    rw [hw₂]
    refine (hbounds _).mem_sites ?_
    rw [h₁.1]
    exact hs
  | @supertype t htypeless ht hs =>
    obtain ⟨c, hc, ht⟩ := List.mem_flatMap.mp ht
    obtain ⟨before, after, hsplit⟩ := List.append_of_mem hc
    have hbefore : ∀ c ∈ before, c.kind = .formalParameters → Typeless c := fun c hc =>
      htypeless c (hsplit ▸ List.mem_append_left _ hc)
    rw [hw₃, hsplit, List.foldl_append, List.foldl_cons]
    refine (hlater _ _).mem_sites ?_
    generalize hw : before.foldl (headerStep r.source) w₂ = w
    have hhidden : w.hidden = w₀.hidden := by
      rw [← hw, hidden_headerSteps hbefore]
      exact h₂.1
    have hstep : ∀ ts : List Node, t ∈ ts →
        s ∈ (ts.foldl (fun w t => typeRefs r.source .supertype t w) w).sites := by
      intro ts ht
      obtain ⟨front, rest, rfl⟩ := List.append_of_mem ht
      rw [List.foldl_append, List.foldl_cons]
      refine (Leads.foldl (fun w t => leads_typeRefs _ (by simp) t w) _ _).mem_sites ?_
      refine ((respects_adds r.source).typeRefs (by simp) t).mem_sites ?_
      have hfront : front.foldl (fun w t => typeRefs r.source .supertype t w) w = _ :=
        adds_supertypes front w
      rw [hfront]
      exact hhidden ▸ hs
    unfold headerStep
    split at ht
    iterate 3
      · rename_i hkind
        rw [hkind]
        exact hstep _ ht
    · cases ht
  | @component c hc hs =>
    obtain ⟨hkind, before, after, hsplit, hnone⟩ := List.find?_eq_some_iff_append.mp hc
    have hbefore : ∀ c ∈ before, c.kind ≠ .formalParameters := fun c hc => by
      simpa using hnone c hc
    rw [hw₃, hsplit, List.foldl_append, List.foldl_cons]
    refine (hlater _ _).mem_sites ?_
    generalize hw : before.foldl (headerStep r.source) w₂ = w
    have hhidden : w.hidden = w₀.hidden := by
      rw [← hw, hidden_headerSteps fun c hc hparams => absurd hparams (hbefore c hc)]
      exact h₂.1
    have hframes : w.frames = [[]] := by
      rw [← hw, frames_headerSteps hbefore]
      exact h₂.2
    unfold headerStep
    rw [beq_iff_eq.mp hkind]
    refine Continues.mem_sites ((respects_continues r.source).visitParameters c trivial) hframes ?_
    rw [hhidden]
    exact hs

end Carve.Java
