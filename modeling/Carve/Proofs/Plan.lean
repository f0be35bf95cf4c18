import Carve.Plan

/-!
# What a plan keeps

Each piece of a plan is decided by its declaration alone: one that is kept in full is a piece by
itself, and a type around pieces is a piece that holds them.
-/

namespace Carve.Plan

/-- What is kept of one declaration, if anything. -/
def pieceOf? (x : Index) (sel : Selection) (depth : Nat) (d : Declaration) : Option Piece :=
  match sel.lookup d.id with
  | some .full => some ⟨d, .full, []⟩
  | some .stub =>
    some ⟨d, .stub, if d.kind.isType then piecesOf x sel depth (x.children d.id) else []⟩
  | _ =>
    match piecesOf x sel depth (x.children d.id) with
    | [] => none
    | kept => some ⟨d, .shell, kept⟩

variable {x : Index} {sel : Selection} {depth : Nat} {ds : List Declaration} {d : Declaration}
  {p : Piece}

theorem piecesOf_succ (x : Index) (sel : Selection) (depth : Nat) (ds : List Declaration) :
    piecesOf x sel (depth + 1) ds = ds.filterMap (pieceOf? x sel depth) := rfl

theorem pieceOf?_decl (h : pieceOf? x sel depth d = some p) : p.decl = d := by
  unfold pieceOf? at h
  split at h
  · exact Option.some.inj h ▸ rfl
  · exact Option.some.inj h ▸ rfl
  · split at h
    · cases h
    · exact Option.some.inj h ▸ rfl

theorem mem_piecesOf : p ∈ piecesOf x sel (depth + 1) ds ↔
    p.decl ∈ ds ∧ pieceOf? x sel depth p.decl = some p := by
  rw [piecesOf_succ, List.mem_filterMap]
  constructor
  · rintro ⟨d, hd, hp⟩
    rw [pieceOf?_decl hp]
    exact ⟨hd, hp⟩
  · rintro ⟨hd, hp⟩
    exact ⟨p.decl, hd, hp⟩

theorem pieceOf?_full (h : sel.lookup d.id = some .full) :
    pieceOf? x sel depth d = some ⟨d, .full, []⟩ := by
  unfold pieceOf?
  rw [h]

theorem pieceOf?_around (htype : d.kind.isType = true) (hpart : sel.lookup d.id ≠ some .full)
    (hp : p ∈ piecesOf x sel depth (x.children d.id)) :
    ∃ mode, mode ≠ .full ∧
      pieceOf? x sel depth d = some ⟨d, mode, piecesOf x sel depth (x.children d.id)⟩ := by
  unfold pieceOf?
  split
  · rename_i hfull
    exact absurd hfull hpart
  · exact ⟨.stub, by simp, by rw [if_pos htype]⟩
  · split
    · rename_i hnone
      rw [hnone] at hp
      cases hp
    · exact ⟨.shell, by simp, rfl⟩

theorem pieceOf?_childless (hnone : x.children d.id = []) (h : pieceOf? x sel depth d = some p) :
    p = ⟨d, .full, []⟩ ∨ p = ⟨d, .stub, []⟩ := by
  have hempty : piecesOf x sel depth [] = [] := by cases depth <;> rfl
  unfold pieceOf? at h
  rw [hnone, hempty] at h
  split at h
  · exact Or.inl (Option.some.inj h).symm
  · rw [ite_self] at h
    exact Or.inr (Option.some.inj h).symm
  · cases h

/-! ### All that a plan holds -/

/-- A piece stands in a plan, at the top of it or inside of another piece. -/
inductive Stands : List Piece → Piece → Prop
  | top {ps : List Piece} {p : Piece} : p ∈ ps → Stands ps p
  | inside {ps : List Piece} {p q : Piece} : p ∈ ps → Stands p.children q → Stands ps q

theorem pieceOf?_children (h : pieceOf? x sel depth d = some p) :
    p.children ⊆ piecesOf x sel depth (x.children d.id) := by
  unfold pieceOf? at h
  split at h
  · obtain rfl := Option.some.inj h
    exact List.nil_subset _
  · obtain rfl := Option.some.inj h
    dsimp only
    split
    · exact List.Subset.refl _
    · exact List.nil_subset _
  · split at h
    · cases h
    · obtain rfl := Option.some.inj h
      exact List.Subset.refl _

/-- A piece is there because it is selected, or it is a shell of something. -/
theorem pieceOf?_reason (h : pieceOf? x sel depth d = some p) :
    (∃ i, (d.id, i) ∈ sel) ∨ p.mode = .shell ∧ ∃ q, q ∈ p.children := by
  have hselected : ∀ i, sel.lookup d.id = some i → ∃ i, (d.id, i) ∈ sel := by
    intro i hi
    obtain ⟨before, after, rfl, -⟩ := List.lookup_eq_some_iff.mp hi
    exact ⟨i, by simp⟩
  unfold pieceOf? at h
  split at h
  · rename_i hfull
    exact Or.inl (hselected _ hfull)
  · rename_i hstub
    exact Or.inl (hselected _ hstub)
  · split at h
    · cases h
    · rename_i hne
      obtain rfl := Option.some.inj h
      exact Or.inr ⟨rfl, List.exists_mem_of_ne_nil _ fun hnil => hne hnil⟩

/-- What holds of the declarations at the top and is handed down to what these enclose holds of
every declaration in the plan. -/
theorem Stands.induction {P : Declaration → Prop}
    (hdown : ∀ d, P d → ∀ c ∈ x.children d.id, P c) {ps : List Piece} (h : Stands ps p) :
    ∀ {depth ds}, ps ⊆ piecesOf x sel depth ds → (∀ d ∈ ds, P d) →
      P p.decl ∧ ∃ depth, pieceOf? x sel depth p.decl = some p := by
  induction h with
  | top hp =>
    intro depth ds hps hds
    cases depth with
    | zero => cases hps hp
    | succ depth =>
      obtain ⟨hd, hpiece⟩ := mem_piecesOf.mp (hps hp)
      exact ⟨hds _ hd, depth, hpiece⟩
  | inside hp _ ih =>
    intro depth ds hps hds
    cases depth with
    | zero => cases hps hp
    | succ depth =>
      obtain ⟨hd, hpiece⟩ := mem_piecesOf.mp (hps hp)
      exact ih (pieceOf?_children hpiece) (hdown _ (hds _ hd))

end Carve.Plan
