import Carve.Proofs.Path
import Mathlib.Data.List.Basic
import Mathlib.Data.List.TakeDrop
import Mathlib.Data.List.TakeWhile

/-!
# What is taken off a text

Taking characters off the front of a text stops before the first one of another sort. A text that
has been trimmed has no blank at either end, so there is nothing left to trim, and it is the text
itself that is left when it has none.
-/

namespace Carve.Text

section

variable {p : Char → Bool} {front behind : List Char}

theorem dropWhile_append_stop (hfront : ∀ c ∈ front, p c = true)
    (hbehind : ∀ c ∈ behind.head?, p c = false) : (front ++ behind).dropWhile p = behind := by
  rw [List.dropWhile_append_of_pos hfront]
  cases behind with
  | nil => rfl
  | cons c behind => exact List.dropWhile_cons_of_neg (by simp [hbehind c rfl])

theorem takeWhile_append_stop (hfront : ∀ c ∈ front, p c = true)
    (hbehind : ∀ c ∈ behind.head?, p c = false) : (front ++ behind).takeWhile p = front := by
  have hsplit := List.takeWhile_append_dropWhile (p := p) (l := front ++ behind)
  rw [dropWhile_append_stop hfront hbehind] at hsplit
  exact List.append_cancel_right hsplit

theorem span_append_stop (hfront : ∀ c ∈ front, p c = true)
    (hbehind : ∀ c ∈ behind.head?, p c = false) : (front ++ behind).span p = (front, behind) := by
  rw [List.span_eq_takeWhile_dropWhile, takeWhile_append_stop hfront hbehind,
    dropWhile_append_stop hfront hbehind]

theorem span_ne_append {d : Char} (h : d ∉ front) (after : List Char) :
    (front ++ d :: after).span (· ≠ d) = (front, d :: after) := by
  refine span_append_stop (fun c hc => decide_eq_true fun heq => h (heq ▸ hc)) ?_
  rintro c ⟨⟩
  simp

theorem dropWhile_ne_append {d : Char} (h : d ∉ front) (after : List Char) :
    (front ++ d :: after).dropWhile (· ≠ d) = d :: after := by
  have hspan := span_ne_append h after
  rw [List.span_eq_takeWhile_dropWhile] at hspan
  exact (Prod.mk.inj hspan).2

theorem of_dropWhile_ne {c d : Char} {cs after : List Char}
    (h : cs.dropWhile (· ≠ d) = c :: after) :
    ∃ front, d ∉ front ∧ c = d ∧ cs = front ++ d :: after := by
  have hc : c = d := by
    have hnot := List.head?_dropWhile_not (· ≠ d) cs
    rw [h] at hnot
    simpa using hnot
  refine ⟨cs.takeWhile (· ≠ d), fun hd => ?_, hc, ?_⟩
  · simpa using List.all_eq_true.mp List.all_takeWhile d hd
  · rw [← hc, ← h, hc, List.takeWhile_append_dropWhile]

end

theorem trimStart_of_head {c : Char} (hc : isBlank c = false) (xs : List Char) :
    trimStart (c :: xs) = c :: xs := by
  simp [trimStart, hc]

def Sharp (cs : List Char) : Prop := ∀ c ∈ cs.head?, isBlank c = false

theorem sharp_cons {c : Char} {cs : List Char} (h : isBlank c = false) : Sharp (c :: cs) := by
  intro d hd
  rwa [← Option.some.inj hd]

theorem Sharp.trimStart {cs : List Char} (h : Sharp cs) : trimStart cs = cs := by
  cases cs with
  | nil => rfl
  | cons c cs => exact trimStart_of_head (h c rfl) cs

theorem sharp_trimStart (cs : List Char) : Sharp (trimStart cs) := by
  intro c hc
  have hnot := List.head?_dropWhile_not isBlank cs
  rw [Option.mem_def] at hc
  rw [← trimStart, hc] at hnot
  simpa using hnot

theorem trimStart_append {bs rest : List Char} (hbs : ∀ c ∈ bs, isBlank c = true)
    (h : Sharp rest) : trimStart (bs ++ rest) = rest :=
  dropWhile_append_stop hbs h

theorem eq_append_trimStart (cs : List Char) :
    ∃ bs, (∀ c ∈ bs, isBlank c = true) ∧ cs = bs ++ trimStart cs :=
  ⟨cs.takeWhile isBlank, List.all_eq_true.mp List.all_takeWhile,
    List.takeWhile_append_dropWhile.symm⟩

theorem trimEnd_begins (cs : List Char) : trimEnd cs <+: cs := by
  obtain ⟨tail, htail, -⟩ := dropEndWhile_append isBlank cs
  exact ⟨tail, htail.symm⟩

theorem trim_inside (cs : List Char) : trim cs <:+: cs :=
  (trimEnd_begins _).isInfix.trans (List.dropWhile_suffix isBlank).isInfix

theorem sharp_trim (cs : List Char) : Sharp (trim cs) := by
  intro c hc
  obtain ⟨tail, htail⟩ := trimEnd_begins (trimStart cs)
  refine sharp_trimStart cs c ?_
  rw [← htail, List.head?_append]
  exact Option.mem_def.mpr (by rw [← trim, Option.mem_def.mp hc]; rfl)

theorem isBlank_last_trim {cs : List Char} {c : Char} (hc : c ∈ (trim cs).getLast?) :
    isBlank c = false := by
  obtain ⟨front, hlast⟩ := List.getLast?_eq_some_iff.mp hc
  exact of_concat_dropEndWhile hlast

/-- A text that has no blank at either end is left as it is. -/
theorem trim_of_ends {cs : List Char} (hfirst : Sharp cs)
    (hlast : ∀ c ∈ cs.getLast?, isBlank c = false) : trim cs = cs := by
  rw [trim, hfirst.trimStart]
  rcases List.eq_nil_or_concat' cs with rfl | ⟨front, c, rfl⟩
  · rfl
  · exact dropEndWhile_concat (hlast c List.getLast?_concat) front

theorem trim_trim (cs : List Char) : trim (trim cs) = trim cs :=
  trim_of_ends (sharp_trim cs) fun _ => isBlank_last_trim

theorem trim_eq_nil_iff {cs : List Char} : trim cs = [] ↔ ∀ c ∈ cs, isBlank c = true := by
  have hend : trim cs = [] ↔ trimStart cs = [] := by
    refine ⟨fun h => ?_, fun h => by rw [trim, h]; rfl⟩
    obtain ⟨tail, htail, hblank⟩ := dropEndWhile_append isBlank (trimStart cs)
    rw [← trimEnd, ← trim, h, List.nil_append] at htail
    have hsharp := sharp_trimStart cs
    rw [htail] at hsharp ⊢
    cases tail with
    | nil => rfl
    | cons c tail => exact absurd (hsharp c rfl) (by simp [hblank])
  rw [hend, trimStart, List.dropWhile_eq_nil_iff]

end Carve.Text
