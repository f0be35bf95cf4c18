/-!
How much of a declaration a workspace keeps. The three grades are ordered, and of two reasons to
keep a declaration the greater one wins.
-/

namespace Carve

inductive Inclusion where
  | external
  | stub
  | full
  deriving DecidableEq, Repr, Inhabited

namespace Inclusion

def rank : Inclusion → Nat
  | external => 0
  | stub => 1
  | full => 2

def dominant (a b : Inclusion) : Inclusion := if a.rank < b.rank then b else a

theorem rank_dominant (a b : Inclusion) : (a.dominant b).rank = max a.rank b.rank := by
  cases a <;> cases b <;> decide

def emitsFile : Inclusion → Bool
  | external => false
  | _ => true

def text : Inclusion → String
  | external => "external"
  | stub => "stub"
  | full => "full"

end Inclusion

end Carve
