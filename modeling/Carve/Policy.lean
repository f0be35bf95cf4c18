import Carve.Inclusion
import Carve.Reference
/-!
The limits of one closure: how far it reaches, whether it enters tests, and which kinds of
reference are content with a signature.
-/

namespace Carve

structure Policy where
  /-- The greatest distance from the root at which project declarations are admitted. Library
  types are leaves and may stand one step further out. -/
  maxDepth : Option Nat := none
  includeTests : Bool := false
  stubKinds : List Reference.Kind := [.typeUse, .field, .annotationUse, .throws]
  deriving DecidableEq, Repr

namespace Policy

/-- The kinds that a stub satisfies, each once and in their own order. -/
def kinds (p : Policy) : List Reference.Kind := Reference.Kind.all.filter (p.stubKinds.contains ·)

def inclusionFor (p : Policy) (kind : Reference.Kind) : Inclusion :=
  if !kind.requiresFull && p.stubKinds.contains kind then .stub else .full

def inclusionForAll (p : Policy) (kinds : List Reference.Kind) : Inclusion :=
  (kinds.map p.inclusionFor).foldl Inclusion.dominant .stub

end Policy

end Carve
