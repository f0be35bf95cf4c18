import Carve.Text.Bytes
/-!
Where things stand in a text. A `Span` counts bytes and excludes its end; a `Range` counts lines
and byte columns from zero and, asked for a place, counts its end as inside.
-/

namespace Carve

structure Span where
  start : Nat
  stop : Nat
  deriving DecidableEq, Repr, Inhabited

namespace Span

def length (s : Span) : Nat := s.stop - s.start

def isEmpty (s : Span) : Bool := s.length == 0

def slice? (s : Span) (text : String) : Option String :=
  (Text.slice? text.toList s.start s.stop).map String.ofList

def Encloses (outer inner : Span) : Prop := outer.start ≤ inner.start ∧ inner.stop ≤ outer.stop

instance (outer inner : Span) : Decidable (outer.Encloses inner) :=
  inferInstanceAs (Decidable (_ ∧ _))

theorem Encloses.trans {a b c : Span} (h : a.Encloses b) (k : b.Encloses c) : a.Encloses c :=
  ⟨Nat.le_trans h.1 k.1, Nat.le_trans k.2 h.2⟩

end Span

structure Range where
  startLine : Nat
  startCol : Nat
  endLine : Nat
  endCol : Nat
  deriving DecidableEq, Repr, Inhabited

namespace Range

def Contains (r : Range) (line col : Nat) : Prop :=
  r.startLine ≤ line ∧ line ≤ r.endLine ∧
    (line = r.startLine → r.startCol ≤ col) ∧ (line = r.endLine → col ≤ r.endCol)

instance (r : Range) (line col : Nat) : Decidable (r.Contains line col) :=
  inferInstanceAs (Decidable (_ ∧ _ ∧ _ ∧ _))

def lineSpan (r : Range) : Nat := r.endLine - r.startLine

end Range

/-- A place in a text by byte offset and by line and byte column. -/
structure Mark where
  offset : Nat
  line : Nat
  col : Nat
  deriving DecidableEq, Repr, Inhabited

def Mark.origin : Mark := ⟨0, 0, 0⟩

def Mark.step (m : Mark) (c : Char) : Mark :=
  if c = '\n' then ⟨m.offset + c.utf8Size, m.line + 1, 0⟩
  else ⟨m.offset + c.utf8Size, m.line, m.col + c.utf8Size⟩

def Mark.advance (m : Mark) (cs : List Char) : Mark := cs.foldl Mark.step m

theorem Mark.advance_offset (m : Mark) (cs : List Char) :
    (m.advance cs).offset = m.offset + Text.byteLength cs := by
  induction cs generalizing m with
  | nil => simp [advance, Text.byteLength]
  | cons c cs ih =>
    have hstep : (m.step c).offset = m.offset + c.utf8Size := by
      unfold Mark.step
      split <;> rfl
    have h := ih (m.step c)
    simp only [advance, List.foldl_cons] at h ⊢
    rw [h, hstep]
    simp [Text.byteLength, Nat.add_assoc]

/-- The stretch of text that a piece of syntax covers. -/
structure Extent where
  start : Mark
  stop : Mark
  deriving DecidableEq, Repr, Inhabited

def Extent.span (e : Extent) : Span := ⟨e.start.offset, e.stop.offset⟩

def Extent.range (e : Extent) : Range :=
  ⟨e.start.line, e.start.col, e.stop.line, e.stop.col⟩

end Carve
