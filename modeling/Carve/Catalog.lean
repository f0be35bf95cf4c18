import Carve.Coordinate
/-!
Which library provides a package. An entry claims a package and all packages below it; of several
entries that claim a package the longest wins, and of equally long ones the earliest. Packages of
the platform that no entry claims belong to the platform library.
-/

namespace Carve

structure LibraryEntry where
  coordinate : String
  packages : List String
  deriving DecidableEq, Repr

/-- A claim on a package and what lies below it. -/
structure Claim where
  package : String
  owner : Coordinate
  deriving DecidableEq, Repr

structure Catalog where
  /-- The longest packages come first, equally long ones in the order of their insertion. -/
  claims : List Claim := []
  deriving DecidableEq, Repr

namespace Catalog

def weight (c : Claim) : Nat := c.package.utf8ByteSize

def place (c : Claim) : List Claim → List Claim
  | [] => [c]
  | d :: ds => if weight d < weight c then c :: d :: ds else d :: place c ds

def insert (catalog : Catalog) (package : String) (owner : Coordinate) : Catalog :=
  ⟨place ⟨package, owner⟩ catalog.claims⟩

/-- The package equals the claimed one or lies below it. -/
def covers (claimed package : String) : Bool :=
  match Text.stripStart claimed.toList package.toList with
  | some [] => true
  | some (c :: _) => c == '.'
  | none => false

def isPlatform (package : String) : Bool := covers "java" package || covers "javax" package

def lookup? (catalog : Catalog) (package : String) : Option Coordinate :=
  match catalog.claims.find? fun c => covers c.package package with
  | some c => some c.owner
  | none => if isPlatform package then some .jdk else none

def dropStars : List Char → List Char
  | '*' :: '.' :: rest => dropStars rest
  | cs => cs

def packageOf (written : String) : String :=
  String.ofList (dropStars written.toList.reverse).reverse

def addEntry (catalog : Catalog) (e : LibraryEntry) : Except Fault Catalog := do
  let owner ← Coordinate.parse e.coordinate
  return e.packages.foldl (fun c p => c.insert (packageOf p) owner) catalog

def ofEntries (entries : List LibraryEntry) : Except Fault Catalog :=
  entries.foldlM addEntry {}

def size (catalog : Catalog) : Nat := catalog.claims.length

def isEmpty (catalog : Catalog) : Bool := catalog.claims.isEmpty

end Catalog

end Carve
