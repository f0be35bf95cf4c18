import Carve.Closure
/-!
What of a source file is kept: a tree of declarations, each in full, as a stub or as a shell that
only holds what is kept inside it. A file all of whose top types are kept in full is copied.
-/

namespace Carve

inductive Mode where
  | full
  | stub
  | shell
  deriving DecidableEq, Repr

structure Piece where
  decl : Declaration
  mode : Mode
  children : List Piece := []

inductive Placeholder where
  | defaultValue
  | throwing
  deriving DecidableEq, Repr, Inhabited

/-- The declarations of one file that a closure keeps, with how much of each. -/
abbrev Selection := List (QName × Inclusion)

namespace Plan

/-- The pieces kept of declarations and, where these are not kept whole, of what they enclose. At
most `depth` levels of nesting are looked at. -/
def piecesOf (x : Index) (sel : Selection) : Nat → List Declaration → List Piece
  | 0, _ => []
  | depth + 1, ds =>
    ds.filterMap fun d =>
      match sel.lookup d.id with
      | some .full => some ⟨d, .full, []⟩
      | some .stub =>
        some ⟨d, .stub, if d.kind.isType then piecesOf x sel depth (x.children d.id) else []⟩
      | _ =>
        match piecesOf x sel depth (x.children d.id) with
        | [] => none
        | kept => some ⟨d, .shell, kept⟩

/-- The plan of a file. Nesting is no deeper than there are declarations. -/
def ofUnit (x : Index) (sel : Selection) (unit : SourceUnit) : List Piece :=
  piecesOf x sel (x.nodes.length + 1) (unit.topLevel.filterMap x.get?)

/-- Every top type is kept in full, so the file can be copied as it is. -/
def isVerbatim (topLevel : List QName) (plan : List Piece) : Bool :=
  !topLevel.isEmpty && plan.length == topLevel.length && plan.all (·.mode == .full)

end Plan

end Carve
