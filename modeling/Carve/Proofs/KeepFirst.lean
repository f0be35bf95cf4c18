import Carve.Reference
import Mathlib.Data.List.Nodup

/-!
# The first of every key

A list that takes in an element only if its key is new holds the first element of every key. Where
no two elements share a key, nothing is passed over, and the order of the elements does not matter
for what is found under a key.
-/

namespace Carve

open Reference (keepFirst)

section

variable {α κ : Type} [DecidableEq κ] {key : α → κ} {as bs : List α} {seen : List κ}

theorem keepFirst_cons (key : α → κ) (seen : List κ) (a : α) (as : List α) :
    keepFirst key seen (a :: as) =
      if key a ∈ seen then keepFirst key seen as else a :: keepFirst key (key a :: seen) as := rfl

theorem mem_keepFirst {a : α} (h : a ∈ keepFirst key seen as) : a ∈ as := by
  induction as generalizing seen with
  | nil => exact h
  | cons b as ih =>
    rw [keepFirst_cons] at h
    split at h
    · exact List.mem_cons_of_mem _ (ih h)
    · rcases List.mem_cons.mp h with rfl | h
      · exact List.mem_cons_self
      · exact List.mem_cons_of_mem _ (ih h)

theorem exists_keepFirst {a : α} (ha : a ∈ as) (hseen : key a ∉ seen) :
    ∃ b ∈ keepFirst key seen as, key b = key a := by
  induction as generalizing seen with
  | nil => exact absurd ha List.not_mem_nil
  | cons c as ih =>
    rw [keepFirst_cons]
    by_cases hc : key c ∈ seen
    · rw [if_pos hc]
      rcases List.mem_cons.mp ha with rfl | ha
      · exact absurd hc hseen
      · exact ih ha hseen
    · rw [if_neg hc]
      by_cases hkey : key c = key a
      · exact ⟨c, List.mem_cons_self, hkey⟩
      · have ha' : a ∈ as := (List.mem_cons.mp ha).resolve_left fun h => hkey (h ▸ rfl)
        have hseen' : key a ∉ key c :: seen := by simp [hseen, Ne.symm hkey]
        obtain ⟨b, hb, hbkey⟩ := ih ha' hseen'
        exact ⟨b, List.mem_cons_of_mem _ hb, hbkey⟩

theorem keepFirst_congr {taken : List κ} (h : ∀ k, k ∈ seen ↔ k ∈ taken) :
    keepFirst key seen as = keepFirst key taken as := by
  induction as generalizing seen taken with
  | nil => rfl
  | cons a as ih =>
    rw [keepFirst_cons, keepFirst_cons]
    by_cases ha : key a ∈ seen
    · rw [if_pos ha, if_pos ((h _).mp ha), ih h]
    · rw [if_neg ha, if_neg fun ha' => ha ((h _).mpr ha')]
      exact congrArg (a :: ·) (ih fun k => by simp [h k])

theorem keepFirst_of_nodup (h : (as.map key).Nodup) (hseen : ∀ a ∈ as, key a ∉ seen) :
    keepFirst key seen as = as := by
  induction as generalizing seen with
  | nil => rfl
  | cons a as ih =>
    obtain ⟨ha, hrest⟩ := List.nodup_cons.mp h
    rw [keepFirst_cons]
    rw [if_neg (hseen a List.mem_cons_self), ih hrest]
    intro b hb hmem
    rcases List.mem_cons.mp hmem with hkey | hmem
    · exact ha (hkey ▸ List.mem_map_of_mem hb)
    · exact hseen b (List.mem_cons_of_mem _ hb) hmem

theorem keepFirst_append (key : α → κ) (seen : List κ) (as bs : List α) :
    keepFirst key seen (as ++ bs) =
      keepFirst key seen as ++ keepFirst key (as.map key ++ seen) bs := by
  induction as generalizing seen with
  | nil => rfl
  | cons a as ih =>
    rw [List.cons_append, keepFirst_cons, keepFirst_cons]
    by_cases ha : key a ∈ seen
    · rw [if_pos ha, if_pos ha, ih]
      congr 1
      refine keepFirst_congr fun k => ?_
      simp only [List.map_cons, List.cons_append, List.mem_cons, List.mem_append]
      constructor
      · exact Or.inr
      · rintro (rfl | h)
        · exact Or.inr ha
        · exact h
    · rw [if_neg ha, if_neg ha, ih, List.cons_append]
      congr 2
      refine keepFirst_congr fun k => ?_
      simp only [List.map_cons, List.cons_append, List.mem_cons, List.mem_append]
      exact or_left_comm

theorem nodup_keepFirst (key : α → κ) (seen : List κ) (as : List α) :
    ((keepFirst key seen as).map key).Nodup := by
  have hfresh : ∀ (as : List α) (seen : List κ), ∀ k ∈ (keepFirst key seen as).map key,
      k ∉ seen := by
    intro as
    induction as with
    | nil => simp [keepFirst]
    | cons a as ih =>
      intro seen k hk
      rw [keepFirst_cons] at hk
      split at hk
      · exact ih seen k hk
      · rename_i ha
        rcases List.mem_cons.mp hk with rfl | hk
        · exact ha
        · exact fun hmem => ih _ k hk (List.mem_cons_of_mem _ hmem)
  induction as generalizing seen with
  | nil => exact List.nodup_nil
  | cons a as ih =>
    rw [keepFirst_cons]
    split
    · exact ih seen
    · refine List.nodup_cons.mpr ⟨fun ha => ?_, ih _⟩
      exact hfresh as _ _ ha List.mem_cons_self

/-- A run of steps each of which takes in what is new to it keeps the first of every key. -/
theorem foldl_eq_keepFirst {σ ω : Type} (view : σ → List α) {items : ω → List α}
    {step : σ → ω → σ}
    (h : ∀ s o, view (step s o) = view s ++ keepFirst key ((view s).map key) (items o))
    (os : List ω) (s : σ) :
    view (os.foldl step s) = view s ++ keepFirst key ((view s).map key) (os.flatMap items) := by
  induction os generalizing s with
  | nil => simp [keepFirst]
  | cons o os ih =>
    rw [List.foldl_cons, ih, h, List.flatMap_cons, keepFirst_append, List.append_assoc,
      List.map_append]
    congr 2
    refine keepFirst_congr fun k => ?_
    rw [List.mem_append, List.mem_append]
    constructor
    · rintro (hold | hnew)
      · exact Or.inr hold
      · obtain ⟨a, ha, rfl⟩ := List.mem_map.mp hnew
        exact Or.inl (List.mem_map_of_mem (mem_keepFirst ha))
    · rintro (hnew | hold)
      · obtain ⟨a, ha, rfl⟩ := List.mem_map.mp hnew
        by_cases hold : key a ∈ (view s).map key
        · exact Or.inl hold
        · obtain ⟨b, hb, hkey⟩ := exists_keepFirst ha hold
          exact Or.inr (hkey ▸ List.mem_map_of_mem hb)
      · exact Or.inl hold

theorem find?_keepFirst {k : κ} (hk : k ∉ seen) :
    (keepFirst key seen as).find? (key · == k) = as.find? (key · == k) := by
  induction as generalizing seen with
  | nil => rfl
  | cons a as ih =>
    rw [keepFirst_cons]
    by_cases hkey : key a = k
    · rw [if_neg (hkey ▸ hk), List.find?_cons_of_pos (by simpa using hkey),
        List.find?_cons_of_pos (by simpa using hkey)]
    · rw [List.find?_cons_of_neg (by simpa using hkey)]
      split
      · exact ih hk
      · rw [List.find?_cons_of_neg (by simpa using hkey)]
        exact ih (by simp [hk, Ne.symm hkey])

/-- Where elements of one key are one element, what is found does not depend on the order. -/
theorem find?_eq_of_mem_iff (h : ∀ a, a ∈ as ↔ a ∈ bs)
    (hunique : ∀ a ∈ as, ∀ b ∈ as, key a = key b → a = b) (k : κ) :
    as.find? (key · == k) = bs.find? (key · == k) := by
  cases hb : bs.find? (key · == k) with
  | none =>
    rw [List.find?_eq_none] at hb ⊢
    exact fun a ha => hb a ((h a).mp ha)
  | some b =>
    have hbas : b ∈ as := (h b).mpr (List.mem_of_find?_eq_some hb)
    have hbk : key b = k := by simpa using List.find?_some hb
    cases ha : as.find? (key · == k) with
    | none =>
      have := List.find?_eq_none.mp ha b hbas
      simp [hbk] at this
    | some a =>
      have hak : key a = k := by simpa using List.find?_some ha
      rw [hunique a (List.mem_of_find?_eq_some ha) b hbas (hak.trans hbk.symm)]

end

end Carve
