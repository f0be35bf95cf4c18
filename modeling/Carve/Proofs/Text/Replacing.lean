import Carve.Proofs.QName
import Carve.Text.Split
import Mathlib.Data.List.Infix

/-!
# Replacing a pattern

Breaking a text at the first occurrence of a pattern, and replacing all occurrences. A character
that the pattern does not have keeps what stands before it apart from what stands behind it, so
that a text can be worked on piece by piece.
-/

namespace Carve.Text

variable {p v xs front rest : List Char} {d : Char}

theorem breakOn_eq_none (h : ¬ p <:+: xs) : breakOn p xs = none := by
  induction xs with
  | nil =>
    cases p with
    | nil => exact absurd List.nil_infix h
    | cons => rfl
  | cons c xs ih =>
    have hhere : stripStart p (c :: xs) = none := by
      rw [Option.eq_none_iff_forall_ne_some]
      intro rest hrest
      exact h (stripStart_eq_some.mp hrest ▸ (List.prefix_append p rest).isInfix)
    have hlater : ¬ p <:+: xs := fun hpiece => h (List.infix_cons hpiece)
    simp [breakOn, hhere, ih hlater]

theorem eq_of_breakOn (h : breakOn p xs = some (front, rest)) : xs = front ++ p ++ rest := by
  induction xs generalizing front with
  | nil =>
    cases p with
    | nil =>
      obtain ⟨rfl, rfl⟩ := Prod.mk.inj (Option.some.inj h)
      rfl
    | cons => cases h
  | cons c xs ih =>
    unfold breakOn at h
    split at h
    · rename_i hhere
      obtain ⟨rfl, rfl⟩ := Prod.mk.inj (Option.some.inj h)
      exact stripStart_eq_some.mp hhere
    · obtain ⟨⟨f, r⟩, hbreak, heq⟩ := Option.map_eq_some_iff.mp h
      obtain ⟨rfl, rfl⟩ := Prod.mk.inj heq
      rw [ih hbreak]
      rfl

theorem breakOn_append {c : Char} (hc : c ∉ front) :
    breakOn (c :: p) (front ++ (c :: p ++ rest)) = some (front, rest) := by
  induction front with
  | nil =>
    have hhere : stripStart (c :: p) (c :: (p ++ rest)) = some rest := stripStart_eq_some.mpr rfl
    simp [breakOn, hhere]
  | cons b front ih =>
    obtain ⟨hb, hrest⟩ := List.ne_and_not_mem_of_not_mem_cons hc
    have hnone : stripStart (c :: p) (b :: (front ++ (c :: p ++ rest))) = none := by
      simp [stripStart, hb]
    rw [List.cons_append, breakOn, hnone, ih hrest]
    rfl

theorem stripStart_append_cons (hd : d ∉ p) (xs ys : List Char) :
    stripStart p (xs ++ d :: ys) = (stripStart p xs).map (· ++ d :: ys) := by
  induction p generalizing xs with
  | nil => simp [stripStart]
  | cons c p ih =>
    obtain ⟨hc, hp⟩ := List.ne_and_not_mem_of_not_mem_cons hd
    cases xs with
    | nil => simp [stripStart, Ne.symm hc]
    | cons x xs =>
      by_cases hx : c = x
      · simp [stripStart, hx, ih hp]
      · simp [stripStart, hx]

/-- No occurrence reaches over a character that the pattern does not have. -/
theorem breakOn_append_cons (hd : d ∉ p) (xs ys : List Char) :
    breakOn p (xs ++ d :: ys) =
      match breakOn p xs with
      | some (front, rest) => some (front, rest ++ d :: ys)
      | none => (breakOn p ys).map fun (front, rest) => (xs ++ d :: front, rest) := by
  induction xs with
  | nil =>
    cases p with
    | nil => rfl
    | cons c p =>
      have hc : c ≠ d := fun h => hd (h ▸ List.mem_cons_self)
      simp [breakOn, stripStart, hc]
  | cons x xs ih =>
    have hhere := stripStart_append_cons hd (x :: xs) ys
    rw [List.cons_append] at hhere ⊢
    rw [breakOn, breakOn, hhere, ih]
    cases stripStart p (x :: xs) with
    | some rest => rfl
    | none => cases breakOn p xs <;> cases breakOn p ys <;> rfl

/-- Every occurrence replaced. A text has no more occurrences than characters. -/
def replaceAll (p v xs : List Char) : List Char := replaceUpTo xs.length p v xs

theorem replaced_toList (pattern value s : String) :
    (replaced pattern value s).toList = replaceAll pattern.toList value.toList s.toList := by
  rw [replaced, String.toList_ofList, replaceAll, String.length_toList]

theorem length_lt_of_breakOn (hp : p ≠ []) (h : breakOn p xs = some (front, rest)) :
    rest.length < xs.length := by
  have := List.length_pos_iff.mpr hp
  rw [eq_of_breakOn h]
  simp only [List.length_append]
  omega

theorem replaceUpTo_eq_replaceAll (hp : p ≠ []) {n : Nat} (hn : xs.length ≤ n) :
    replaceUpTo n p v xs = replaceAll p v xs := by
  have hmany : ∀ n m (xs : List Char), xs.length ≤ n → xs.length ≤ m →
      replaceUpTo n p v xs = replaceUpTo m p v xs := by
    intro n
    induction n with
    | zero =>
      intro m xs hn _
      obtain rfl := List.length_eq_zero_iff.mp (Nat.le_zero.mp hn)
      cases m with
      | zero => rfl
      | succ m => simp [replaceUpTo, breakOn, List.isEmpty_iff, hp]
    | succ n ih =>
      intro m xs hn hm
      cases m with
      | zero =>
        obtain rfl := List.length_eq_zero_iff.mp (Nat.le_zero.mp hm)
        simp [replaceUpTo, breakOn, List.isEmpty_iff, hp]
      | succ m =>
        unfold replaceUpTo
        split
        · rfl
        · rename_i front rest hbreak
          have := length_lt_of_breakOn hp hbreak
          rw [ih m rest (by omega) (by omega)]
  exact hmany n xs.length xs hn (Nat.le_refl _)

theorem replaceAll_of_breakOn (hp : p ≠ []) (h : breakOn p xs = some (front, rest)) :
    replaceAll p v xs = front ++ v ++ replaceAll p v rest := by
  have hlt := length_lt_of_breakOn hp h
  rw [← replaceUpTo_eq_replaceAll hp (Nat.le_succ xs.length), replaceUpTo, h]
  dsimp only
  rw [replaceUpTo_eq_replaceAll hp (Nat.le_of_lt hlt)]

theorem replaceAll_of_none (h : breakOn p xs = none) : replaceAll p v xs = xs := by
  unfold replaceAll
  cases xs.length with
  | zero => rfl
  | succ n => rw [replaceUpTo, h]

theorem replaceAll_of_lacking (hp : d ∈ p) (h : d ∉ xs) : replaceAll p v xs = xs :=
  replaceAll_of_none (breakOn_eq_none fun hpiece => h (hpiece.subset hp))

theorem replaceAll_self (hp : p ≠ []) : replaceAll p v p = v := by
  have hbreak : breakOn p p = some ([], []) := by
    cases p with
    | nil => exact absurd rfl hp
    | cons c p =>
      have h : breakOn (c :: p) ([] ++ (c :: p ++ [])) = some ([], []) :=
        breakOn_append List.not_mem_nil
      rwa [List.nil_append, List.append_nil] at h
  rw [replaceAll_of_breakOn hp hbreak]
  simp [replaceAll, replaceUpTo]

/-- The pieces on either side of a character that the pattern does not have are worked on each for
itself. -/
theorem replaceAll_append_cons (hp : p ≠ []) (hd : d ∉ p) (xs ys : List Char) :
    replaceAll p v (xs ++ d :: ys) = replaceAll p v xs ++ d :: replaceAll p v ys := by
  induction hlen : xs.length using Nat.strong_induction_on generalizing xs with
  | h n ih =>
    have hbreak := breakOn_append_cons hd xs ys
    cases hxs : breakOn p xs with
    | some cut =>
      obtain ⟨front, rest⟩ := cut
      have hlt := length_lt_of_breakOn hp hxs
      rw [hxs] at hbreak
      rw [replaceAll_of_breakOn hp hbreak, replaceAll_of_breakOn hp hxs,
        ih rest.length (hlen ▸ hlt) rest rfl]
      simp
    | none =>
      rw [hxs] at hbreak
      rw [replaceAll_of_none hxs]
      cases hys : breakOn p ys with
      | some cut =>
        obtain ⟨front, rest⟩ := cut
        rw [hys] at hbreak
        rw [replaceAll_of_breakOn hp hbreak, replaceAll_of_breakOn hp hys]
        simp
      | none =>
        rw [hys] at hbreak
        rw [replaceAll_of_none hbreak, replaceAll_of_none hys]

end Carve.Text
