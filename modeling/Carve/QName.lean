import Carve.Text.Split
/-!
Qualified names, the identities of declarations: `pkg.Outer.Inner` for a type, `pkg.Type.member`
for a member, `pkg.Type.<init>` for the constructors of a type. Overloads share a name. A method
whose plain name belongs to a field of the same type is called `pkg.Type.member()`.
-/

namespace Carve

structure QName where
  text : String
  deriving DecidableEq, Repr, Inhabited, Hashable, Ord

namespace QName

def member (owner : QName) (name : String) : QName := ⟨owner.text ++ "." ++ name⟩

def ctorName : String := "<init>"

def ctor (owner : QName) : QName := owner.member ctorName

/-- The name of a method that gives its plain name up to a field. -/
def methodAlias (n : QName) : QName := ⟨n.text ++ "()"⟩

def simple (n : QName) : String :=
  match Text.splitLast '.' n.text with
  | some (_, last) => last
  | none => n.text

def qualifier? (n : QName) : Option String := (Text.splitLast '.' n.text).map (·.1)

def before (a b : QName) : Bool := decide (a.text < b.text)

end QName

end Carve
