import Carve.Text.Blank
import Carve.Text.Split
/-!
File paths with forward slashes. A path keeps its spelling, but two spellings with the same
components name the same place: doubled and trailing slashes and inner `.` segments do not count,
a leading `.` does.
-/

namespace Carve

structure Path where
  text : String
  deriving DecidableEq, Repr, Inhabited

namespace Path

inductive Component where
  | root
  | current
  | up
  | name (s : String)
  deriving DecidableEq, Repr

def Component.rank : Component → Nat
  | .root => 0
  | .current => 1
  | .up => 2
  | .name _ => 3

def Component.lt (a b : Component) : Bool :=
  match a, b with
  | .name s, .name t => decide (s < t)
  | _, _ => decide (a.rank < b.rank)

def Component.ofSegment (s : List Char) : Component :=
  if s = ['.', '.'] then .up else .name (String.ofList s)

/-- A segment that is no component of its own. -/
def isFiller (s : List Char) : Bool := s.isEmpty || s == ['.']

def segments (p : Path) : List (List Char) := Text.split '/' p.text.toList

def isAbsolute (p : Path) : Bool := p.text.toList.head? == some '/'

def components (p : Path) : List Component :=
  match p.segments with
  | [] => []
  | first :: rest =>
    let lead :=
      if p.isAbsolute then [Component.root]
      else if first = ['.'] then [.current]
      else if first.isEmpty then []
      else [.ofSegment first]
    lead ++ (rest.filter (!isFiller ·)).map .ofSegment

/-- Equality of places, not of spellings. -/
def Same (p q : Path) : Prop := p.components = q.components

instance (p q : Path) : Decidable (p.Same q) := inferInstanceAs (Decidable (_ = _))

theorem Same.refl (p : Path) : p.Same p := rfl

theorem Same.symm {p q : Path} (h : p.Same q) : q.Same p := Eq.symm h

theorem Same.trans {p q r : Path} (h : p.Same q) (k : q.Same r) : p.Same r := Eq.trans h k

def componentsLt : List Component → List Component → Bool
  | _, [] => false
  | [], _ :: _ => true
  | a :: as, b :: bs => a.lt b || (a == b && componentsLt as bs)

def before (p q : Path) : Bool := componentsLt p.components q.components

/-- An absolute right side replaces the left one. -/
def join (p q : Path) : Path :=
  if q.isAbsolute then q
  else match p.text.toList.getLast? with
    | none => q
    | some '/' => ⟨p.text ++ q.text⟩
    | some _ => ⟨p.text ++ "/" ++ q.text⟩

def ofSegments (absolute : Bool) (segs : List (List Char)) : Path :=
  if absolute && segs.length ≤ 1 then ⟨"/"⟩
  else ⟨String.ofList (Text.join ['/'] segs)⟩

/-- Trailing segments that carry no component, the first segment apart. -/
def dropFiller : List (List Char) → List (List Char)
  | [] => []
  | first :: rest => first :: Text.dropEndWhile isFiller rest

/-- The path without its last component; the root and the empty path have none to drop. -/
def parent? (p : Path) : Option Path :=
  match p.components.getLast? with
  | none | some .root => none
  | some _ => some (ofSegments p.isAbsolute (dropFiller (dropFiller p.segments).dropLast))

def fileName? (p : Path) : Option String :=
  match p.components.getLast? with
  | some (.name s) => some s
  | _ => none

/-- What follows the last dot of the file name. A name that only begins with a dot has none. -/
def extension? (p : Path) : Option String :=
  p.fileName?.bind fun name =>
    (Text.splitLast '.' name).bind fun (stem, ext) => if stem.isEmpty then none else some ext

def startsWith (p base : Path) : Bool := base.components.isPrefixOf p.components

def endsWith (p tail : Path) : Bool := tail.components.isSuffixOf p.components

def sameIgnoringCase (s t : String) : Bool :=
  s.toList.map Char.toLower == t.toList.map Char.toLower

def hasExtension (p : Path) (ext : String) : Bool :=
  match p.extension? with
  | some e => sameIgnoringCase e ext
  | none => false

end Path

end Carve
