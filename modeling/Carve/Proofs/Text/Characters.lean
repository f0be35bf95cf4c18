import Carve.Text.Blank
import Carve.Text.Letters
import Carve.Text.Words
import Mathlib.Data.List.Basic

/-!
# Classes of characters

The tables of word characters, of digits and of capital forms, as far as texts of source code and
messages about it lean on them: letters and digits of A to Z make up words, punctuation does not, the
digits of a number are digits and a colon is none, and no capital form brings in a line feed or a
grave accent.
-/

namespace Carve.Text

/-- Of all the characters there are, only those of the list are looked at. -/
instance decidableChars {p : Char → Prop} [DecidablePred p] (cs : List Char) :
    Decidable (∀ c ∈ cs, p c) :=
  List.decidableBAll p cs

theorem Run.anyHolds_iff {runs : Array Run} {c : Char} :
    Run.anyHolds runs c = true ↔ ∃ r ∈ runs.toList, r.holds c.toNat = true := by
  rw [← List.any_eq_true, Array.any_toList]
  rfl

theorem isWordChar_iff {c : Char} :
    isWordChar c = true ↔ ∃ r ∈ wordRuns.toList, r.holds c.toNat = true := Run.anyHolds_iff

theorem isDigit_of_isDigit {c : Char} (h : c.isDigit = true) : isDigit c = true := by
  delta Char.isDigit at h
  simp only [Bool.and_eq_true, decide_eq_true_eq, UInt32.le_iff_toNat_le, ge_iff_le] at h
  exact Run.anyHolds_iff.mpr ⟨⟨0x30, 0x39, 1⟩, .head _,
    (Run.holds_iff _ _).mpr ⟨h.1, h.2, Nat.mod_one _⟩⟩

theorem isDigit_colon : isDigit ':' = false := by
  rw [← Bool.not_eq_true, isDigit, Run.anyHolds_iff]
  decide +kernel

/-- The runs as a list, which is quicker to go through. -/
theorem isWordChar_eq_any : isWordChar = fun c => wordRuns.toList.any (·.holds c.toNat) := by
  funext c
  rw [Array.any_toList]
  rfl

theorem isWordChar_underscore : isWordChar '_' = true :=
  isWordChar_iff.mpr ⟨⟨0x5f, 0x61, 2⟩, .tail _ (.tail _ (.head _)), rfl⟩

theorem points_of_isAlphanum {c : Char} (h : c.isAlphanum = true) :
    (65 ≤ c.toNat ∧ c.toNat ≤ 90 ∨ 97 ≤ c.toNat ∧ c.toNat ≤ 122) ∨
      48 ≤ c.toNat ∧ c.toNat ≤ 57 := by
  delta Char.isAlphanum Char.isAlpha Char.isUpper Char.isLower Char.isDigit at h
  simp only [Bool.or_eq_true, Bool.and_eq_true, decide_eq_true_eq, UInt32.le_iff_toNat_le,
    ge_iff_le] at h
  exact h

theorem isWordChar_of_isAlphanum {c : Char} (h : c.isAlphanum = true) : isWordChar c = true := by
  have h := points_of_isAlphanum h
  rw [isWordChar_iff]
  simp only [Run.holds_iff]
  by_cases ha : c.toNat = 97
  · exact ⟨⟨0x5f, 0x61, 2⟩, .tail _ (.tail _ (.head _)), by rw [ha]; decide⟩
  rcases h with (h | h) | h
  · exact ⟨⟨0x41, 0x5a, 1⟩, .tail _ (.head _), h.1, h.2, Nat.mod_one _⟩
  · exact ⟨⟨0x62, 0x7a, 1⟩, .tail _ (.tail _ (.tail _ (.head _))), by dsimp only; omega, h.2,
      Nat.mod_one _⟩
  · exact ⟨⟨0x30, 0x39, 1⟩, .head _, h.1, h.2, Nat.mod_one _⟩

theorem not_isBlank_of_isAlphanum {c : Char} (h : c.isAlphanum = true) : isBlank c = false := by
  have h := points_of_isAlphanum h
  rw [← Bool.not_eq_true]
  intro hblank
  simp only [isBlank, Bool.or_eq_true, Bool.and_eq_true, decide_eq_true_eq, beq_iff_eq] at hblank
  omega

set_option maxRecDepth 8000 in
theorem isWordChar_punctuation {c : Char} (hc : c ∈ [' ', ';', '.', '(', '/', '\\', '\n']) :
    isWordChar c = false := by
  have hnone : ∀ c ∈ [' ', ';', '.', '(', '/', '\\', '\n'],
      wordRuns.toList.any (·.holds c.toNat) = false := by
    decide +kernel
  rw [isWordChar_eq_any]
  exact hnone c hc

def KeepsOff (n : Nat) : Prop :=
  (∀ e ∈ capitalExpansions, n ∉ e.2) ∧ ∀ s ∈ capitalShifts.toList,
    (n : Int) < s.run.first + s.shift ∨ (s.run.last : Int) + s.shift < n

instance (n : Nat) : Decidable (KeepsOff n) := inferInstanceAs (Decidable (_ ∧ _))

set_option maxRecDepth 8000 in
theorem keepsOff_lineFeed : KeepsOff '\n'.toNat := by decide +kernel

set_option maxRecDepth 8000 in
theorem keepsOff_grave : KeepsOff '\x60'.toNat := by decide +kernel

theorem toNat_of_ofNat {n : Nat} {c : Char} (h : Char.ofNat n = c) (hc : c.toNat ≠ 0) :
    n = c.toNat := by
  subst h
  by_cases hvalid : n.isValidChar
  · rw [Char.ofNat, dif_pos hvalid]
    rfl
  · rw [Char.ofNat, dif_neg hvalid] at hc
    exact absurd rfl hc

theorem eq_of_mem_capitalForm {c d : Char} (hd : KeepsOff d.toNat) (hzero : d.toNat ≠ 0)
    (h : d ∈ capitalForm c) : d = c := by
  unfold capitalForm at h
  split at h
  · rename_i points hlookup
    obtain ⟨n, hn, hnd⟩ := List.mem_map.mp h
    obtain ⟨before, behind, hsplit, -⟩ := List.lookup_eq_some_iff.mp hlookup
    refine absurd (toNat_of_ofNat hnd hzero ▸ hn) (hd.1 (c.toNat, points) ?_)
    rw [hsplit]
    simp
  · split at h
    · rename_i s hfind
      have hshifts := hd.2
      generalize capitalShifts = shifts at hfind hshifts
      have hholds := Array.find?_some hfind
      obtain ⟨hfirst, hlast, -⟩ := (Run.holds_iff _ _).mp hholds
      have hpoint := toNat_of_ofNat (List.mem_singleton.mp h).symm hzero
      have := hshifts s (Array.mem_toList_iff.mpr (Array.mem_of_find?_eq_some hfind))
      omega
    · exact List.mem_singleton.mp h

theorem not_mem_capitalize {d : Char} (hd : KeepsOff d.toNat) (hzero : d.toNat ≠ 0) {s : String}
    (h : d ∉ s.toList) : d ∉ (capitalize s).toList := by
  unfold capitalize
  cases hs : s.toList with
  | nil => simp
  | cons c rest =>
    rw [hs] at h
    obtain ⟨hc, hrest⟩ := List.ne_and_not_mem_of_not_mem_cons h
    rw [String.toList_ofList, List.mem_append]
    rintro (hform | hmem)
    · exact hc (eq_of_mem_capitalForm hd hzero hform)
    · exact hrest hmem

end Carve.Text
