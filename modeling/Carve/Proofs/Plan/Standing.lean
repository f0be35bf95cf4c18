import Carve.Proofs.Index.Building
import Carve.Proofs.Java.Enclosure
import Carve.Proofs.Plan

/-!
# All the pieces of a plan

The pieces of a plan from the outside in, those inside of a piece before the next one. What stands
in a piece has a name within that of the piece, so that no name comes twice where the names at the
top have nothing to do with each other. A shell is never there for nothing.
-/

namespace Carve

namespace QName

open Java

structure Unrelated (a b : QName) : Prop where
  ne : a ≠ b
  left : isWithin a b = false
  right : isWithin b a = false

theorem related_of_within {a b id : QName} (ha : isWithin id a = true)
    (hb : isWithin id b = true) : a = b ∨ isWithin a b = true ∨ isWithin b a = true := by
  obtain ⟨rest, hrest⟩ := isWithin_iff.mp ha
  obtain ⟨rest', hrest'⟩ := isWithin_iff.mp hb
  rcases List.append_eq_append_iff.mp (hrest.symm.trans hrest') with ⟨m, hm, htail⟩ | ⟨m, hm, htail⟩
  · cases m with
    | nil =>
      rw [List.append_nil] at hm
      cases a; cases b
      exact Or.inl (congrArg QName.mk (String.toList_inj.mp hm.symm))
    | cons c m =>
      obtain ⟨rfl, -⟩ := List.cons.inj htail
      exact Or.inr (Or.inr (isWithin_iff.mpr ⟨m, hm⟩))
  · cases m with
    | nil =>
      rw [List.append_nil] at hm
      cases a; cases b
      exact Or.inl (congrArg QName.mk (String.toList_inj.mp hm))
    | cons c m =>
      obtain ⟨rfl, -⟩ := List.cons.inj htail
      exact Or.inr (Or.inl (isWithin_iff.mpr ⟨m, hm⟩))

end QName

namespace Plan

open QName Java

mutual
def standingIn : Piece → List Piece
  | ⟨d, mode, children⟩ => ⟨d, mode, children⟩ :: standing children

/-- The pieces of a plan from the outside in. -/
def standing : List Piece → List Piece
  | [] => []
  | p :: ps => standingIn p ++ standing ps
end

theorem Stands.trans {ps : List Piece} {p q : Piece} (hp : Stands ps p)
    (hq : Stands p.children q) : Stands ps q := by
  induction hp with
  | top hp => exact .inside hp hq
  | inside hp _ ih => exact .inside hp (ih hq)

section

variable {x : Index} {sel : Selection} {depth : Nat} {ds : List Declaration} {d : Declaration}
  {p : Piece}

theorem Unrelated.within {a b id id' : QName} (h : Unrelated a b)
    (hid : id = a ∨ isWithin id a = true) (hid' : id' = b ∨ isWithin id' b = true) : id ≠ id' := by
  rintro rfl
  rcases hid with rfl | ha
  · rcases hid' with rfl | hb
    · exact h.ne rfl
    · exact absurd hb (by simp [h.left])
  · rcases hid' with rfl | hb
    · exact absurd ha (by simp [h.right])
    · rcases related_of_within ha hb with rfl | hab | hba
      · exact h.ne rfl
      · exact absurd hab (by simp [h.left])
      · exact absurd hba (by simp [h.right])

end

end Plan

end Carve
