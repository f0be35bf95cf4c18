/-!
Sets of code points written as arithmetic runs. A run holds its ends and every `step`-th point
between them, so an alphabet that alternates capital and small letters is one run of step two.
-/

namespace Carve.Text

structure Run where
  first : Nat
  last : Nat
  step : Nat
  deriving DecidableEq, Repr

def Run.holds (r : Run) (n : Nat) : Bool :=
  decide (r.first ≤ n) && decide (n ≤ r.last) && (n - r.first) % r.step == 0

def Run.anyHolds (runs : Array Run) (c : Char) : Bool := runs.any (·.holds c.toNat)

theorem Run.holds_iff (r : Run) (n : Nat) :
    r.holds n = true ↔ r.first ≤ n ∧ n ≤ r.last ∧ (n - r.first) % r.step = 0 := by
  simp [Run.holds, and_assoc]

end Carve.Text
