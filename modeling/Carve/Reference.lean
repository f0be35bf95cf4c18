import Carve.Fault
import Carve.QName
import Carve.Span
/-!
References: how one declaration uses another. A reference without a target names something that no
declaration answers to.
-/

namespace Carve

namespace Reference

/-- The kinds in the order in which the referrers of a declaration are listed. -/
inductive Kind where
  | typeUse
  | call
  | field
  | supertype
  | annotationUse
  | throws
  | instantiation
  | unresolved
  deriving DecidableEq, Repr, Inhabited

namespace Kind

def all : List Kind :=
  [typeUse, call, field, supertype, annotationUse, throws, instantiation, unresolved]

def rank : Kind → Nat
  | typeUse => 0
  | call => 1
  | field => 2
  | supertype => 3
  | annotationUse => 4
  | throws => 5
  | instantiation => 6
  | unresolved => 7

/-- Kinds whose target is needed with its bodies. -/
def requiresFull : Kind → Bool
  | call | supertype | instantiation => true
  | _ => false

def text : Kind → String
  | typeUse => "type"
  | call => "call"
  | field => "field"
  | supertype => "supertype"
  | annotationUse => "annotation"
  | throws => "throws"
  | instantiation => "instantiation"
  | unresolved => "unresolved"

def ofText? (s : String) : Option Kind := all.find? (·.text == s)

def parse (s : String) : Except Fault Kind :=
  let small := String.ofList (s.toList.map Char.toLower)
  match ofText? small with
  | some k => .ok k
  | none => .error (.invalidArgument ("unknown reference kind '" ++ small ++ "'"))

end Kind

end Reference

structure Reference where
  source : QName
  target : Option QName
  kind : Reference.Kind
  name : String
  range : Option Range := none
  deriving DecidableEq, Repr, Inhabited

namespace Reference

/-- What two references must share to count as one: the source, the kind and the target, where a
missing target counts as the name behind a question mark. -/
def key (r : Reference) : QName × String × Kind :=
  (r.source, match r.target with | some t => t.text | none => "?" ++ r.name, r.kind)

/-- The elements whose key no earlier element has. -/
def keepFirst {α κ : Type} [DecidableEq κ] (key : α → κ) : List κ → List α → List α
  | _, [] => []
  | seen, x :: xs =>
    if key x ∈ seen then keepFirst key seen xs
    else x :: keepFirst key (key x :: seen) xs

def dedup (rs : List Reference) : List Reference := keepFirst key [] rs

end Reference

end Carve
