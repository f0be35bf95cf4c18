import Carve.Proofs.Java.Variables

/-!
# Names that hide types

Type parameters and the types that a body declares hide the types of their names: a walk that has
such a name among the hidden ones finds no use of a type that begins with it.
-/

namespace Carve.Java

variable {source : List Char} {x : String}

/-- The site uses a type whose written name begins with this one. An annotation is apart, because
neither a type parameter nor a type that a body declares can be one. -/
def Begins (x : String) (s : UseSite) : Prop :=
  s.kind ≠ .annotationUse ∧ ∃ name, s.mention = .type name ∧ firstSegment name = x

/-- The name stays hidden and no use of a type begins with it. -/
abbrev Hides (x : String) : Walk → Walk → Prop := LeadsWith (x ∈ ·.hidden) fun s => ¬ Begins x s

theorem respects_hides (source : List Char) (x : String) :
    Respects source (fun _ => True) fun f => ∀ w, x ∈ w.hidden → Hides x w (f w) where
  stay w hx := .refl hx
  comp hf hg w hx := (hf w hx).trans (hg _ (hf w hx).state)
  mention hk n w hx := by
    unfold mentionType
    dsimp only
    split
    · exact .refl hx
    · split
      · exact .refl hx
      · rename_i hfree
        refine .record hx ?_
        rintro ⟨-, name, hname, hfirst⟩
        obtain rfl := Mention.type.inj hname
        rw [hfirst] at hfree
        exact hfree (List.contains_iff_mem.mpr hx)
  mark n w hx := by
    unfold annotationMention
    split
    · exact .record hx (by simp [Begins])
    · exact .refl hx
  children _ _ _ := trivial
  lone n w hx := by
    dsimp only
    split
    · exact .refl hx
    · exact .record hx (by simp [Begins])
  call _ _ _ hx := .record hx (by simp [Begins])
  field _ _ _ hx := .record hx (by simp [Begins])
  refer _ _ _ _ _ _ _ hx := .record hx (by simp [Begins])
  declare name type w hx := by
    unfold Walk.declare
    dsimp only
    split
    · exact .refl hx
    · exact .of_found_eq hx rfl
  hide _ _ name _ w hx := .of_found_eq (List.mem_cons_of_mem _ hx) rfl
  inFrame hf w hx := ⟨(hf w.enter hx).state, (hf w.enter hx).found⟩

/-! ### Types that a body declares -/

theorem visit_localType {d : Node} (h : LocalType source d x) (w : Walk) :
    visit source d w = (w.hide x).inFrame (visitParts source true d.children) := by
  obtain ⟨k, r, e, cs⟩ := d
  obtain ⟨hkind, hname⟩ := h
  replace hkind : k ∈ localTypeKinds := hkind
  replace hname : textOfRole source .name cs = some x := hname
  simp only [localTypeKinds, List.mem_cons, List.not_mem_nil, or_false] at hkind
  rcases hkind with rfl | rfl | rfl | rfl
  all_goals
    unfold visit
    rw [hname]
    rfl

theorem LocalType.isNamed {d : Node} (h : LocalType source d x) : d.isNamed = true := by
  obtain ⟨hkind, -⟩ := h
  unfold Node.isNamed
  simp only [localTypeKinds, List.mem_cons, List.not_mem_nil, or_false] at hkind
  rcases hkind with h | h | h | h <;> simp [h]

/-- Where a body declares a type, no use of a type begins with its name from there to the end of
the block, neither in the type nor after it. -/
theorem localType_hides {n d : Node} {before after : List Node} (hn : n.kind ∈ framedKinds)
    (hsplit : n.children = before ++ d :: after) (hrole : d.role ≠ some .name)
    (hd : LocalType source d x) (w : Walk) :
    ∃ new, (visit source n w).sites = (visitParts source true before w.enter).sites ++ new ∧
      ∀ s ∈ new, ¬ Begins x s := by
  have hhides := respects_hides source x
  obtain ⟨skip, happend⟩ := visitParts_append source true before (d :: after) w.enter
  rw [visit_framed hn, hsplit]
  unfold Walk.inFrame
  rw [happend, visitParts_cons hd.isNamed hrole, visit_localType hd]
  have hsteps := hhides.comp
    (hhides.inFrame (hhides.visitParts true d.children fun _ _ => trivial))
    (hhides.visitParts skip after fun _ _ => trivial)
  exact (hsteps (Walk.hide _ x) List.mem_cons_self).sites

end Carve.Java
