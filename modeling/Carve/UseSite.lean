import Carve.Declaration
import Carve.Reference
/-!
Use sites: the mentions of names that syntax alone finds in a file, before any of them is bound to
a declaration, and the result of reading one file.
-/

namespace Carve

mutual
inductive Receiver where
  | implicit
  | super
  | typed (type : String)
  | name (name : String)
  | call (access : Access)
  | field (access : Access)
  | created (type : String)
  | unknown

inductive Access where
  | mk (name : String) (receiver : Receiver)
end

deriving instance Repr for Receiver, Access

instance : Inhabited Receiver := ⟨.unknown⟩

instance : Inhabited Access := ⟨.mk "" .unknown⟩

namespace Access

def name : Access → String
  | mk n _ => n

def receiver : Access → Receiver
  | mk _ r => r

end Access

/-- What a use site mentions. -/
inductive Mention where
  | type (name : String)
  | call (access : Access)
  | field (access : Access)
  /-- A lone name, which may be an inherited or enclosing field or nothing of interest. -/
  | bare (name : String)
  deriving Repr

structure UseSite where
  kind : Reference.Kind
  mention : Mention
  range : Option Range
  deriving Repr

/-- What is known of a file before it is read. -/
structure Provenance where
  module : String
  scope : Scope := .main
  deriving DecidableEq, Repr

structure Imports where
  package : Option String := none
  single : List String := []
  onDemand : List String := []
  staticSingle : List String := []
  staticOnDemand : List String := []
  deriving DecidableEq, Repr

namespace Imports

def singleImport? (i : Imports) (name : String) : Option String :=
  i.single.find? fun full => QName.simple ⟨full⟩ == name

def staticOwner? (i : Imports) (name : String) : Option String :=
  i.staticSingle.findSome? fun full =>
    (Text.splitLast '.' full).bind fun (owner, last) => if last == name then some owner else none

end Imports

structure Entry where
  decl : Declaration
  supertypes : List String := []
  /-- The use sites of the declaration's own text, of the headers of the types around it and, for
  a type, of everything inside it. -/
  sites : List UseSite
  deriving Repr

structure SourceFile where
  path : Path
  imports : Imports
  text : String
  topLevel : List QName
  /-- In source order, a type before what it encloses. -/
  entries : List Entry
  deriving Repr

end Carve
