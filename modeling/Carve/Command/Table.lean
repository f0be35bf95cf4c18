import Carve.Report
import Carve.Text.Width
/-!
A closure as a table in a box, each column as wide as its widest cell, followed by lists of its
libraries and of what was remarked about anything else.
-/

namespace Carve.Command

structure BoxLine where
  left : String
  middle : String
  right : String

def padded (n : Nat) (s : String) : String :=
  s ++ String.ofList (List.replicate (n - Text.width s) ' ')

def columnWidths : List (List String) → List Nat
  | [] => []
  | row :: rows =>
    rows.foldl (fun ws cells => List.zipWith max ws (cells.map Text.width)) (row.map Text.width)

def rule (line : BoxLine) (widths : List Nat) : String :=
  line.left ++
    Text.joined line.middle (widths.map fun n => String.ofList (List.replicate (n + 2) '─')) ++
    line.right

def boxRow (widths : List Nat) (cells : List String) : String :=
  "│ " ++ Text.joined " │ " (List.zipWith padded widths cells) ++ " │"

def boxed (header : List String) (rows : List (List String)) : List String :=
  let widths := columnWidths (header :: rows)
  [rule ⟨"┌", "┬", "┐"⟩ widths, boxRow widths header, rule ⟨"├", "┼", "┤"⟩ widths] ++
    rows.map (boxRow widths) ++ [rule ⟨"└", "┴", "┘"⟩ widths]

def memberCells (m : Member) : List String :=
  [m.decl.id.text, m.decl.kind.text, m.inclusion.text, toString m.distance,
    Closure.originText m.decl]

/-- A library that stays outside is in the list of libraries already. -/
def isRemarkable : Diagnostic → Bool
  | .libraryLeft _ => false
  | _ => true

def listed (title : String) (items : List String) : List String :=
  ["", title ++ " (" ++ toString items.length ++ "):"] ++ items.map ("  " ++ ·)

def tableLines (c : Closure) : List String :=
  let remarks := (c.diagnostics.filter isRemarkable).map (·.text)
  boxed ["Declaration", "Kind", "Policy", "Dist", "Origin"] (c.members.map memberCells) ++
    listed "Libraries" (c.libraries.map (·.text)) ++
    (if remarks.isEmpty then [] else listed "Diagnostics" remarks)

def table (c : Closure) : String := String.join ((tableLines c).map (· ++ "\n"))

end Carve.Command
