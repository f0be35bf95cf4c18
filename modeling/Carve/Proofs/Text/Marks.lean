import Carve.Proofs.Text.Slices
import Carve.Span

/-!
# Offsets, lines and columns

A mark tells a place behind some beginning of a text three times, by bytes, by line and by column.
Lines and columns are in the same order as bytes, so a range of lines and columns holds the same
places of a text as the span of bytes between the same marks.
-/

namespace Carve

open Text

/-- The mark behind some beginning of the text. -/
def Mark.In (source : List Char) (m : Mark) : Prop :=
  ∃ front rest, source = front ++ rest ∧ m = Mark.origin.advance front

namespace Mark

theorem advance_append (m : Mark) (front rest : List Char) :
    m.advance (front ++ rest) = (m.advance front).advance rest := List.foldl_append

theorem offset_of_origin (front : List Char) :
    (origin.advance front).offset = byteLength front := by
  rw [advance_offset]
  exact Nat.zero_add _

theorem In.cut {source : List Char} {m : Mark} (h : m.In source) : Cut source m.offset := by
  obtain ⟨front, rest, hsplit, rfl⟩ := h
  exact ⟨front, rest, hsplit, (offset_of_origin front).symm⟩

theorem advance_line (m : Mark) (cs : List Char) :
    (m.advance cs).line = m.line + cs.count '\n' := by
  induction cs generalizing m with
  | nil => simp [advance]
  | cons c cs ih =>
    show ((m.step c).advance cs).line = _
    rw [ih, step]
    by_cases hc : c = '\n'
    · simp [hc]
      omega
    · simp [hc]

theorem advance_col (m : Mark) {cs : List Char} (h : '\n' ∉ cs) :
    (m.advance cs).col = m.col + byteLength cs := by
  induction cs generalizing m with
  | nil => simp [advance, byteLength]
  | cons c cs ih =>
    obtain ⟨hc, hcs⟩ := List.ne_and_not_mem_of_not_mem_cons h
    show ((m.step c).advance cs).col = _
    rw [ih _ hcs, step, if_neg hc.symm]
    simp only [byteLength]
    omega

end Mark

/-- The byte offset of a place of the text: so many bytes into a line, or right behind it. -/
def StandsAt (source : List Char) (line col i : Nat) : Prop :=
  ∃ front word rest, source = front ++ (word ++ rest) ∧
    (Mark.origin.advance front).line = line ∧ (Mark.origin.advance front).col = 0 ∧
    '\n' ∉ word ∧ col ≤ byteLength word ∧ i = byteLength front + col

variable {source : List Char} {line col i : Nat}

theorem byteLength_pos_of_mem {c : Char} {cs : List Char} (h : c ∈ cs) : 0 < byteLength cs := by
  rw [Nat.pos_iff_ne_zero]
  intro hzero
  rw [eq_nil_of_byteLength hzero] at h
  cases h

/-- A mark of the text and a place of it are in the same order by bytes as by line and column. -/
theorem StandsAt.compare (h : StandsAt source line col i) {m : Mark} (hm : m.In source) :
    m.offset < i ∧ (m.line < line ∨ m.line = line ∧ m.col < col) ∨
      m.offset = i ∧ m.line = line ∧ m.col = col ∨
      i < m.offset ∧ (line < m.line ∨ line = m.line ∧ col < m.col) := by
  obtain ⟨front, word, rest, hsplit, hline, hcol, hword, hle, rfl⟩ := h
  obtain ⟨before, behind, hbefore, rfl⟩ := hm
  have hfront := Mark.offset_of_origin front
  rcases List.append_eq_append_iff.mp (hsplit.symm.trans hbefore) with ⟨more, hmore, htail⟩ |
    ⟨more, hmore, -⟩
  · subst hmore
    rw [Mark.advance_append, Mark.advance_offset, hfront, Mark.advance_line, hline]
    rcases List.append_eq_append_iff.mp htail with ⟨later, hlater, -⟩ | ⟨later, hlater, -⟩
    · have hlen : byteLength more = byteLength word + byteLength later := by
        rw [hlater, byteLength_append]
      have hcount : more.count '\n' = later.count '\n' := by
        rw [hlater, List.count_append, List.count_eq_zero.mpr hword, Nat.zero_add]
      by_cases hbreak : '\n' ∈ later
      · have hpos := byteLength_pos_of_mem hbreak
        have hmany := List.count_pos_iff.mpr hbreak
        omega
      · have hnone : '\n' ∉ more := by
          rw [hlater]
          simp [hword, hbreak]
        rw [Mark.advance_col _ hnone, hcol, List.count_eq_zero.mpr hnone]
        omega
    · have hnone : '\n' ∉ more := by
        rw [hlater] at hword
        exact fun hmem => hword (List.mem_append_left _ hmem)
      rw [Mark.advance_col _ hnone, hcol, List.count_eq_zero.mpr hnone]
      omega
  · subst hmore
    rw [Mark.advance_append, Mark.advance_line] at hline
    rw [byteLength_append, Mark.offset_of_origin]
    by_cases hbreak : '\n' ∈ more
    · have hpos := byteLength_pos_of_mem hbreak
      have hmany := List.count_pos_iff.mpr hbreak
      omega
    · rw [Mark.advance_append, Mark.advance_col _ hbreak] at hcol
      rw [List.count_eq_zero.mpr hbreak] at hline
      omega

/-- A range holds the places that stand in the span between the same marks, or right behind it. -/
theorem StandsAt.contains_iff (h : StandsAt source line col i) {e : Extent}
    (hstart : e.start.In source) (hstop : e.stop.In source) :
    e.range.Contains line col ↔ e.span.start ≤ i ∧ i ≤ e.span.stop := by
  have hfirst := h.compare hstart
  have hlast := h.compare hstop
  simp only [Range.Contains, Extent.range, Extent.span]
  omega

end Carve
