import Carve.Text.Split
import Mathlib.Data.List.Basic

/-!
# Lines of a text

The lines of a text are what stands between its line feeds, without the carriage returns that belong
to them and without a last line that is empty. To whoever looks at the lines one by one, and makes
nothing of an empty line or of a carriage return at an end, they are simply the parts of the text.
-/

namespace Carve.Text

theorem dropReturn_eq_or (cs : List Char) :
    dropReturn cs = cs ∨ cs = dropReturn cs ++ ['\r'] := by
  unfold dropReturn
  split
  · rename_i rest hrest
    right
    rw [← List.reverse_reverse cs, hrest, List.reverse_cons]
  · exact Or.inl rfl

theorem dropReturn_of_last {cs : List Char} (h : cs.getLast? ≠ some '\r') : dropReturn cs = cs := by
  rcases dropReturn_eq_or cs with heq | heq
  · exact heq
  · rw [heq, List.getLast?_concat] at h
    exact absurd rfl h

theorem filterMap_lines {α : Type} {f : List Char → Option α} {cs : List Char} (hnil : f [] = none)
    (h : ∀ line ∈ split '\n' cs, f (dropReturn line) = f line) :
    (lines cs).filterMap f = (split '\n' cs).filterMap f := by
  unfold lines
  cases hsplit : (split '\n' cs).reverse with
  | nil => rw [List.reverse_eq_nil_iff.mp hsplit]
  | cons last ended =>
    have hlines : split '\n' cs = ended.reverse ++ [last] := by
      rw [← List.reverse_reverse (split '\n' cs), hsplit, List.reverse_cons]
    have hended : (ended.reverse.map dropReturn).filterMap f = ended.reverse.filterMap f := by
      rw [List.filterMap_map]
      refine List.filterMap_congr fun line hline => h line ?_
      rw [hlines]
      exact List.mem_append_left _ hline
    dsimp only
    rw [hlines, List.filterMap_append, List.filterMap_append, hended]
    cases last with
    | nil => simp [hnil]
    | cons c last => rfl

end Carve.Text
