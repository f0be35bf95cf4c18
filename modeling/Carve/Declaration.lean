import Carve.Coordinate
import Carve.Path
import Carve.QName
import Carve.Span
/-!
Declarations: the types and members of a project and the library types it mentions. A project
declaration knows its place and its layout, which lets a renderer cut bodies out of the source
text; a library declaration is only a name and a coordinate.
-/

namespace Carve

namespace Declaration

inductive Kind where
  | classType
  | interfaceType
  | enumType
  | annotationType
  | recordType
  | method
  | ctor
  | field
  deriving DecidableEq, Repr, Inhabited

namespace Kind

def isType : Kind → Bool
  | .classType | .interfaceType | .enumType | .annotationType | .recordType => true
  | .method | .ctor | .field => false

def isCallable : Kind → Bool
  | .method | .ctor => true
  | _ => false

def text : Kind → String
  | .classType => "class"
  | .interfaceType => "interface"
  | .enumType => "enum"
  | .annotationType => "annotation"
  | .recordType => "record"
  | .method => "method"
  | .ctor => "constructor"
  | .field => "field"

def all : List Kind :=
  [.classType, .interfaceType, .enumType, .annotationType, .recordType, .method, .ctor, .field]

def ofText? (s : String) : Option Kind := all.find? (·.text == s)

end Kind

end Declaration

inductive Origin where
  | project (module : String)
  | library (coordinate : Coordinate)
  deriving DecidableEq, Repr, Inhabited

namespace Origin

def isLibrary : Origin → Bool
  | project _ => false
  | library _ => true

def coordinate? : Origin → Option Coordinate
  | project _ => none
  | library c => some c

def module? : Origin → Option String
  | project m => some m
  | library _ => none

end Origin

inductive Scope where
  | main
  | test
  deriving DecidableEq, Repr, Inhabited

/-- The byte layout of one declaration in its source text. -/
structure Outline where
  /-- The whole declaration with its annotations and modifiers. -/
  span : Span
  body : Option Span := none
  /-- Of a field: from the end of its name to the end of its value. -/
  initializer : Option Span := none
  ctorCall : Option Span := none
  /-- Of an enum: from its first constant to its last. -/
  constants : Option Span := none
  modifiers : List String := []
  typeText : Option String := none
  declarators : Nat := 0
  deriving DecidableEq, Repr, Inhabited

namespace Outline

def hasModifier (o : Outline) (modifier : String) : Bool := o.modifiers.contains modifier

/-- A final field without a value: a constructor or an initializer block has to assign it. -/
def isBlankFinal (o : Outline) : Bool := o.hasModifier "final" && o.initializer.isNone

end Outline

/-- The outline of a declaration followed by those of further overloads of the same name, in
source order. -/
structure Layout where
  own : Outline
  overloads : List Layout := []
  deriving Repr, Inhabited

structure Location where
  path : Path
  range : Range
  layout : Layout
  deriving Repr, Inhabited

structure Declaration where
  id : QName
  name : String
  kind : Declaration.Kind
  origin : Origin
  scope : Scope := .main
  parent : Option QName := none
  /-- Library declarations have no place in the sources. -/
  location : Option Location := none
  deriving Repr, Inhabited

namespace Declaration

def library (id : QName) (coordinate : Coordinate) : Declaration :=
  { id, name := id.simple, kind := .classType, origin := .library coordinate }

def isLibrary (d : Declaration) : Bool := d.origin.isLibrary

def outline? (d : Declaration) : Option Outline := d.location.map (·.layout.own)

def path? (d : Declaration) : Option Path := d.location.map (·.path)

def outlines (d : Declaration) : List Outline :=
  match d.location with
  | none => []
  | some place => place.layout.own :: place.layout.overloads.map (·.own)

end Declaration

end Carve
