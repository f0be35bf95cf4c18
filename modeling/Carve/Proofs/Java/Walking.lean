import Carve.Proofs.Java.Steps

/-!
# What a walk leaves behind

A walk below a piece of syntax only adds use sites, each of a kind that a declaration can answer,
and leaves the stack of variables as deep as it found it and untouched below its top.
-/

namespace Carve.Java

/-- Sites of kinds that a declaration can answer. -/
def Proper (sites : List UseSite) : Prop := ∀ s ∈ sites, s.kind ≠ .unresolved

/-- The second walk goes on from the first and is back in the same block. -/
structure Leads (w w' : Walk) : Prop where
  found : ∃ new, w'.found = new ++ w.found ∧ Proper new
  depth : w'.frames.length = w.frames.length
  below : w'.frames.tail = w.frames.tail

namespace Leads

variable {w w' w'' : Walk}

theorem refl (w : Walk) : Leads w w := ⟨⟨[], rfl, by simp [Proper]⟩, rfl, rfl⟩

theorem trans (h : Leads w w') (k : Leads w' w'') : Leads w w'' := by
  obtain ⟨new, hnew, hkinds⟩ := h.found
  obtain ⟨new', hnew', hkinds'⟩ := k.found
  refine ⟨⟨new' ++ new, by rw [hnew', hnew, List.append_assoc], fun s hs => ?_⟩,
    k.depth.trans h.depth, k.below.trans h.below⟩
  exact (List.mem_append.mp hs).elim (hkinds' s) (hkinds s)

theorem record {site : UseSite} (hk : site.kind ≠ .unresolved) : Leads w (w.record site) :=
  ⟨⟨[site], rfl, by simpa [Proper] using hk⟩, rfl, rfl⟩

theorem declare (w : Walk) (name : String) (type : Option String) :
    Leads w (w.declare name type) := by
  unfold Walk.declare
  split
  · exact refl w
  · rename_i top outer hframes
    exact ⟨⟨[], rfl, by simp [Proper]⟩, by simp [hframes], by simp [hframes]⟩

theorem hide (w : Walk) (name : String) : Leads w (w.hide name) :=
  ⟨⟨[], rfl, by simp [Proper]⟩, rfl, rfl⟩

/-- What is declared in a frame of its own is gone with it. -/
theorem frames_inFrame {f : Walk → Walk} (h : Leads w.enter (f w.enter)) :
    (w.inFrame f).frames = w.frames :=
  h.below

theorem inFrame {f : Walk → Walk} (h : Leads w.enter (f w.enter)) : Leads w (w.inFrame f) :=
  ⟨h.found, by rw [h.frames_inFrame], by rw [h.frames_inFrame]⟩

theorem foldl {α : Type} {f : Walk → α → Walk} (h : ∀ w a, Leads w (f w a)) (as : List α)
    (w : Walk) : Leads w (as.foldl f w) := by
  induction as generalizing w with
  | nil => exact refl w
  | cons a as ih => exact (h w a).trans (ih (f w a))

theorem sites (h : Leads w w') : ∃ new, w'.sites = w.sites ++ new := by
  obtain ⟨new, hnew, -⟩ := h.found
  exact ⟨new.reverse, by rw [Walk.sites, hnew, List.reverse_append, Walk.sites]⟩

theorem proper (h : Leads w w') (hw : w.found = []) : Proper w'.sites := by
  obtain ⟨new, hnew, hkinds⟩ := h.found
  intro s hs
  rw [Walk.sites, hnew, hw, List.append_nil] at hs
  exact hkinds s (List.mem_reverse.mp hs)

end Leads

structure LeadsWith (Q : Walk → Prop) (R : UseSite → Prop) (w w' : Walk) : Prop where
  state : Q w'
  found : ∃ new, w'.found = new ++ w.found ∧ ∀ s ∈ new, R s

namespace LeadsWith

variable {Q : Walk → Prop} {R : UseSite → Prop} {w w' w'' : Walk}

theorem of_found_eq (hw : Q w') (h : w'.found = w.found) : LeadsWith Q R w w' :=
  ⟨hw, [], h, fun _ hs => absurd hs List.not_mem_nil⟩

theorem refl (hw : Q w) : LeadsWith Q R w w := of_found_eq hw rfl

theorem trans (h : LeadsWith Q R w w') (k : LeadsWith Q R w' w'') : LeadsWith Q R w w'' := by
  obtain ⟨new, hnew, hsites⟩ := h.found
  obtain ⟨new', hnew', hsites'⟩ := k.found
  refine ⟨k.state, new' ++ new, by rw [hnew', hnew, List.append_assoc], fun s hs => ?_⟩
  exact (List.mem_append.mp hs).elim (hsites' s) (hsites s)

theorem record {site : UseSite} (hw : Q (w.record site)) (h : R site) :
    LeadsWith Q R w (w.record site) :=
  ⟨hw, [site], rfl, by simpa using h⟩

theorem sites (h : LeadsWith Q R w w') : ∃ new, w'.sites = w.sites ++ new ∧ ∀ s ∈ new, R s := by
  obtain ⟨new, hnew, hsites⟩ := h.found
  refine ⟨new.reverse, ?_, fun s hs => hsites s (List.mem_reverse.mp hs)⟩
  rw [Walk.sites, hnew, List.reverse_append, Walk.sites]

end LeadsWith

variable (source : List Char)

/-- Wherever a walk is, it leads on from there. -/
theorem respects_leads : Respects source (fun _ => True) fun f => ∀ w, Leads w (f w) where
  stay := .refl
  comp hf hg w := (hf w).trans (hg _)
  mention hk n w := by
    unfold mentionType
    dsimp only
    split
    · exact .refl w
    · split
      · exact .refl w
      · exact .record hk
  mark n w := by
    unfold annotationMention
    split
    · exact .record (by simp)
    · exact .refl w
  children _ _ _ := trivial
  lone n w := by
    dsimp only
    split
    · exact .refl w
    · exact .record (by simp)
  call _ _ _ := .record (by simp)
  field _ _ _ := .record (by simp)
  refer _ _ _ _ _ _ _ := .record (by simp)
  declare name type w := .declare w name type
  hide _ _ name _ w := .hide w name
  inFrame hf w := .inFrame (hf w.enter)

theorem leads_typeRefs {kind : Reference.Kind} (hk : kind ≠ .unresolved) (n : Node) (w : Walk) :
    Leads w (typeRefs source kind n w) := (respects_leads source).typeRefs hk n w

theorem leads_modifierAnnotations (cs : List Node) (w : Walk) :
    Leads w (modifierAnnotations source cs w) := (respects_leads source).modifierAnnotations cs w

theorem leads_visit (n : Node) (w : Walk) : Leads w (visit source n w) :=
  (respects_leads source).visit n trivial w

end Carve.Java
