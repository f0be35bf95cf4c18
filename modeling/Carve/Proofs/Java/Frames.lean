import Carve.Proofs.Java.Hiding

/-!
# The stack of variables

A walk keeps the variables in reach on a stack with a frame for each block. No step reaches below
the top of the stack, so only the frame of the block that a piece of syntax stands in can change
with it; and where the syntax is walked in a frame of its own, nothing that is declared in it is
left behind.
-/

namespace Carve.Java

/-- What is walked in a frame of its own: blocks and bodies of all sorts, the statements and lambdas
with variables for their bodies, and the declarations of methods, constructors and local types. No
annotation type is local. -/
def scopedKinds : List Kind :=
  framedKinds ++ [.switchBlock, .classBody, .lambda, .enhancedForStatement] ++ localTypeKinds

/-- A compact constructor is walked without a frame of its own: all it declares stands in the block
behind its name. -/
structure IsCompactCtor (n : Node) : Prop where
  kind : n.kind = .compactCtorDeclaration
  parts : ∀ c ∈ n.children, c.isNamed = true →
    c.kind = .modifiers ∨ c.kind = .identifier ∨ c.kind = .comment ∨ c.kind = .block

variable (source : List Char)

theorem leads_visitParts (skipName : Bool) (cs : List Node) (w : Walk) :
    Leads w (visitParts source skipName cs w) :=
  (respects_leads source).visitParts skipName cs (fun _ _ => trivial) w

theorem visit_eq_inFrame {n : Node} (hn : n.kind ∈ scopedKinds) (w : Walk) :
    ∃ (w₀ : Walk) (f : Walk → Walk),
      w₀.frames = w.frames ∧ (∀ w, Leads w (f w)) ∧ visit source n w = w₀.inFrame f := by
  obtain ⟨k, r, e, cs⟩ := n
  have h := respects_leads source
  have hcs : ∀ c ∈ cs, True := fun _ _ => trivial
  have hparts := leads_visitParts source true cs
  simp only [scopedKinds, List.mem_append, List.mem_cons, List.not_mem_nil, or_false] at hn
  obtain (hframed | rfl | rfl | rfl | rfl) | htype := hn
  · exact ⟨w, _, rfl, hparts, visit_framed hframed w⟩
  · exact ⟨w, _, rfl, hparts, by rw [visit]⟩
  · exact ⟨w, _, rfl, hparts, by rw [visit]⟩
  · exact ⟨w, _, rfl, h.comp (h.visitLambdaParameters cs hcs) (h.visitRole .body cs hcs),
      by rw [visit]⟩
  · refine ⟨w, _, rfl, ?_, by rw [visit]⟩
    refine h.comp ?_ (h.visitRole .body cs hcs)
    refine h.comp ?_ (h.declareRole _ cs _)
    exact h.comp (h.typeRefsOfRole (by simp) .type cs) (h.visitRole .value cs hcs)
  · replace htype : k ∈ localTypeKinds := htype
    cases hname : textOfRole source .name cs with
    | some x =>
      have hn : LocalType source (.mk k r e cs) x := ⟨htype, hname⟩
      exact ⟨w.hide x, _, rfl, hparts, visit_localType hn w⟩
    | none =>
      refine ⟨w, _, rfl, hparts, ?_⟩
      simp only [localTypeKinds, List.mem_cons, List.not_mem_nil, or_false] at htype
      rcases htype with rfl | rfl | rfl | rfl <;> rw [visit, hname]

theorem frames_visit_of_scoped {n : Node} (hn : n.kind ∈ scopedKinds) (w : Walk) :
    (visit source n w).frames = w.frames := by
  obtain ⟨w₀, f, hframes, hleads, hvisit⟩ := visit_eq_inFrame source hn w
  rw [hvisit, (hleads w₀.enter).frames_inFrame, hframes]

theorem frames_visitParts {cs : List Node} (h : ∀ c ∈ cs, c.isNamed = true →
      ∀ w, (visit source c w).frames = w.frames) (skipName : Bool) (w : Walk) :
    (visitParts source skipName cs w).frames = w.frames := by
  induction cs generalizing skipName w with
  | nil => rw [visitParts]
  | cons c cs ih =>
    obtain ⟨hc, hcs⟩ := List.forall_mem_cons.mp h
    rw [visitParts]
    split
    · exact ih hcs false w
    · rw [ih hcs]
      split
      · rename_i hnamed
        exact hc hnamed w
      · rfl

theorem frames_visit_of_compactCtor {n : Node} (hn : IsCompactCtor n) (w : Walk) :
    (visit source n w).frames = w.frames := by
  obtain ⟨k, r, e, cs⟩ := n
  obtain rfl : k = .compactCtorDeclaration := hn.kind
  unfold visit
  dsimp only
  refine frames_visitParts source (fun c hc hnamed w => ?_) true w
  obtain ⟨k, r, e, inner⟩ := c
  rcases hn.parts _ hc hnamed with hk | hk | hk | hk <;> obtain rfl : k = _ := hk
  · rw [visit]
  · rw [visit]
    split <;> rfl
  · rw [visit]
  · exact frames_visit_of_scoped source (by simp [scopedKinds, framedKinds, Node.kind]) w

/-- No step reaches below the top of the stack, none forgets a use site, and no variable that is
declared in syntax with a frame of its own is in reach behind it. -/
theorem visit_keeps_stack (n : Node) (w : Walk) :
    (visit source n w).frames.length = w.frames.length ∧
      (visit source n w).frames.tail = w.frames.tail ∧
      (∃ new, (visit source n w).sites = w.sites ++ new) ∧
      (n.kind ∈ scopedKinds ∨ IsCompactCtor n →
        (visit source n w).frames = w.frames ∧
          ∀ name, (visit source n w).local? name = w.local? name) := by
  have hleads := leads_visit source n w
  refine ⟨hleads.depth, hleads.below, hleads.sites, fun hn => ?_⟩
  have hframes : (visit source n w).frames = w.frames :=
    hn.elim (frames_visit_of_scoped source · w) (frames_visit_of_compactCtor source · w)
  refine ⟨hframes, fun name => ?_⟩
  unfold Walk.local?
  rw [hframes]

def counted : List Char :=
  ("class T \x7b void m(int n) \x7b for (int k = 0; k < n; k++) run(k); " ++
    "record P(int x) \x7b P \x7b int y = x; \x7d \x7d \x7d \x7d").toList

/-- Neither the variable of a loop nor that of a compact constructor is left behind. -/
theorem counted_keeps_stack :
    let w : Walk := { hidden := [], frames := [[("n", some "int")]] }
    (∃ n ∈ Node.nodesIn (parse counted).children, n.kind = .forStatement ∧
      (∃ new, (visit counted n w).sites = w.sites ++ new) ∧
      (visit counted n w).frames = w.frames ∧ (visit counted n w).local? "k" = none) ∧
    ∃ n ∈ Node.nodesIn (parse counted).children, n.kind = .compactCtorDeclaration ∧
      (visit counted n w).frames = w.frames ∧ (visit counted n w).local? "y" = none := by
  intro w
  have hnodes : (∃ n ∈ Node.nodesIn (parse counted).children, n.kind = .forStatement) ∧
      ∃ m ∈ Node.nodesIn (parse counted).children, m.kind = .compactCtorDeclaration ∧
        ∀ c ∈ m.children, c.isNamed = true →
          c.kind = .modifiers ∨ c.kind = .identifier ∨ c.kind = .comment ∨ c.kind = .block := by
    decide +kernel
  obtain ⟨⟨n, hn, hkind⟩, m, hm, hmkind, hmparts⟩ := hnodes
  obtain ⟨-, -, hsites, hscoped⟩ := visit_keeps_stack counted n w
  obtain ⟨hframes, hlocal⟩ := hscoped (.inl (by simp [scopedKinds, framedKinds, hkind]))
  obtain ⟨-, -, -, hctor⟩ := visit_keeps_stack counted m w
  obtain ⟨hmframes, hmlocal⟩ := hctor (.inr ⟨hmkind, hmparts⟩)
  exact ⟨⟨n, hn, hkind, hsites, hframes, (hlocal "k").trans rfl⟩,
    m, hm, hmkind, hmframes, (hmlocal "y").trans rfl⟩

end Carve.Java
