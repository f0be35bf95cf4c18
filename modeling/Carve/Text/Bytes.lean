/-!
Text addressed by bytes of its UTF-8 form. A cut is defined only between characters, so `slice?`
answers nothing for a span that leaves the text or splits a character.
-/

namespace Carve.Text

def byteLength : List Char → Nat
  | [] => 0
  | c :: cs => c.utf8Size + byteLength cs

def dropBytes (n : Nat) : List Char → Option (List Char)
  | [] => if n = 0 then some [] else none
  | c :: cs =>
    if n = 0 then some (c :: cs)
    else if c.utf8Size ≤ n then dropBytes (n - c.utf8Size) cs
    else none

def takeBytes (n : Nat) : List Char → Option (List Char)
  | [] => if n = 0 then some [] else none
  | c :: cs =>
    if n = 0 then some []
    else if c.utf8Size ≤ n then (takeBytes (n - c.utf8Size) cs).map (c :: ·)
    else none

/-- The bytes from `start` up to but not including `stop`. -/
def slice? (cs : List Char) (start stop : Nat) : Option (List Char) :=
  if start ≤ stop then (dropBytes start cs).bind (takeBytes (stop - start)) else none

theorem dropBytes_byteLength (front rest : List Char) :
    dropBytes (byteLength front) (front ++ rest) = some rest := by
  induction front with
  | nil => cases rest <;> simp [dropBytes, byteLength]
  | cons c front ih =>
    have hc := c.utf8Size_pos
    simp only [List.cons_append, dropBytes, byteLength]
    rw [if_neg (by omega), if_pos (by omega), Nat.add_sub_cancel_left]
    exact ih

theorem takeBytes_byteLength (front rest : List Char) :
    takeBytes (byteLength front) (front ++ rest) = some front := by
  induction front with
  | nil => cases rest <;> simp [takeBytes, byteLength]
  | cons c front ih =>
    have hc := c.utf8Size_pos
    simp only [List.cons_append, takeBytes, byteLength]
    rw [if_neg (by omega), if_pos (by omega), Nat.add_sub_cancel_left, ih]
    rfl

theorem byteLength_append (xs ys : List Char) :
    byteLength (xs ++ ys) = byteLength xs + byteLength ys := by
  induction xs with
  | nil => simp [byteLength]
  | cons c xs ih =>
    rw [List.cons_append, byteLength, byteLength, ih]
    omega

theorem slice?_append (front piece rest : List Char) :
    slice? (front ++ piece ++ rest) (byteLength front) (byteLength front + byteLength piece) =
      some piece := by
  rw [slice?, if_pos (Nat.le_add_right _ _), List.append_assoc, dropBytes_byteLength]
  simp [takeBytes_byteLength]

end Carve.Text
