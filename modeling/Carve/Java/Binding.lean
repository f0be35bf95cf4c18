import Carve.Java.Lang
import Carve.Table
/-!
Binding use sites to declarations. Names are looked up the way a compiler would as far as the
sources of the project allow: through enclosing types, imports, the own package and supertypes.
What the project does not declare is taken for a library type where an import or a package says
so, and is unresolved otherwise. Nothing here fails: a site that cannot be bound is a reference
without a target or, where it need not mean anything, no reference.

Two searches of it are bounded by a depth, the way outwards and the search of a hierarchy, and so
binding is told over a monad that says what a search comes to whose depth is used up. The functions
named with an `M` are over any such monad; the program is each of them at `Id`.
-/

namespace Carve.Java

inductive TypeTarget where
  | project (d : Declaration)
  | library (id : QName) (owner : Coordinate)
  | unknown

/-- What the search for a member on a type and its supertypes comes to. -/
inductive MemberLookup where
  | found (d : Declaration)
  /-- Inherited from a library type. -/
  | library (id : QName) (owner : Coordinate)
  | missing

inductive ReceiverType where
  | known (t : TypeTarget)
  /-- An array or a value of a library's making: nothing to bind. -/
  | foreign
  | unknown

inductive MemberKind where
  | method
  | field
  deriving DecidableEq, Repr

def MemberKind.kind : MemberKind → Declaration.Kind
  | .method => .method
  | .field => .field

def MemberLookup.isMissing : MemberLookup → Bool
  | .missing => true
  | _ => false

def MemberLookup.answer? : MemberLookup → Option MemberLookup
  | .missing => none
  | answer => some answer

def TypeTarget.isUnknown : TypeTarget → Bool
  | .unknown => true
  | _ => false

/-- Where a name is used: the imports of the file and the types around, the innermost first. -/
structure Place where
  imports : Imports
  chain : List Declaration

/-- A monad to search in. -/
class SearchMonad (m : Type → Type) extends Monad m where
  /-- What a search comes to that has used up its depth, with what it has found so far. -/
  spent {α : Type} : α → m α

export SearchMonad (spent)

instance : SearchMonad Id where
  spent found := found

section

variable (t : Table)

/-- The depth of a search, more than there are types to enter. -/
def searchDepth : Nat := t.size + 2

section

variable {m : Type → Type} [SearchMonad m]

/-- The declaration itself, if it is a type, and the types around it, the innermost first. -/
def enclosingM : Nat → Option QName → m (List Declaration)
  | 0, _ => spent []
  | _ + 1, none => return []
  | depth + 1, some id =>
    match t.declaration? id.text with
    | none => return []
    | some d => do
      let outer ← enclosingM depth d.parent
      return if d.kind.isType then d :: outer else outer

def chainFromM (start : Option QName) : m (List Declaration) :=
  enclosingM t (searchDepth t) start

def chainOfM (d : Declaration) : m (List Declaration) :=
  chainFromM t (if d.kind.isType then some d.id else d.parent)

/-- The place of a declaration: its own file's imports, or the given ones if it has no file. -/
def placeOfM (fallback : Imports) (d : Declaration) : m Place := do
  return ⟨(t.imports? d.id).getD fallback, ← chainOfM t d⟩

end

def coordinateFor (package : String) : Coordinate :=
  (t.libraryFor? package).getD (Coordinate.inferred package)

/-- A type by its package and the rest of its name. What a project package does not declare does
not exist; in any other package a library declares it. -/
def resolveInPackage (package rest : String) : TypeTarget :=
  match t.declaration? (package ++ "." ++ rest) with
  | some d => .project d
  | none =>
    if t.isProjectPackage package then .unknown
    else
      let outer := match Text.splitFirst '.' rest with | some (head, _) => head | none => rest
      .library ⟨package ++ "." ++ outer⟩ (coordinateFor t package)

def resolveInChain (name : String) (chain : List Declaration) : Option Declaration :=
  chain.findSome? fun type =>
    if type.name == name then some type
    else (t.declaration? (type.id.member name).text).filter (·.kind.isType)

def resolveSimple (here : Place) (name : String) : TypeTarget :=
  match resolveInChain t name here.chain with
  | some d => .project d
  | none =>
    match here.imports.singleImport? name with
    | some qualified =>
      match splitPackage qualified with
      | (some package, rest) => resolveInPackage t package rest
      | (none, _) => .unknown
    | none =>
      let samePackage :=
        match here.imports.package with
        | some package => package ++ "." ++ name
        | none => name
      match t.declaration? samePackage with
      | some d => .project d
      | none =>
        if isLangType name then .library ⟨"java.lang." ++ name⟩ .jdk
        else
          match here.imports.onDemand.findSome? fun p => t.declaration? (p ++ "." ++ name) with
          | some d => .project d
          | none =>
            match here.imports.onDemand.find? fun p => !t.isProjectPackage p with
            | some package => .library ⟨package ++ "." ++ name⟩ (coordinateFor t package)
            | none => .unknown

def resolveType (here : Place) (written : String) : TypeTarget :=
  let name := stripGenerics written
  if name.isEmpty then .unknown
  else if !name.toList.contains '.' then resolveSimple t here name
  else
    match splitPackage name with
    | (some package, rest) => resolveInPackage t package rest
    | (none, rest) =>
      let (head, tail) := (Text.splitFirst '.' rest).getD (rest, "")
      if looksLikeType head then
        match resolveSimple t here head with
        | .project outer =>
          match t.declaration? (outer.id.member tail).text with
          | some d => .project d
          | none => .unknown
        | other => other
      else .unknown

/-- A member declared by the type itself, a method maybe under its alias. -/
def declaredMember (owner : QName) (name : String) (kind : MemberKind) : Option Declaration :=
  let plain := owner.member name
  match (t.declaration? plain.text).filter (·.kind == kind.kind) with
  | some d => some d
  | none =>
    match kind with
    | .method => (t.declaration? plain.methodAlias.text).filter (·.kind == .method)
    | .field => none

section

variable {m : Type → Type} [SearchMonad m]

/-- Goes through supertypes in order. The first that leads to a member or to a library's members
ends the search, a library type itself only counts when no other supertype leads anywhere. -/
def searchSupertypesM (search : Declaration → List QName → m (MemberLookup × List QName)) :
    List TypeTarget → MemberLookup → List QName → m (MemberLookup × List QName)
  | [], library, visited => return (library, visited)
  | .project parent :: rest, library, visited => do
    match ← search parent visited with
    | (.missing, visited) => searchSupertypesM search rest library visited
    | found => return found
  | .library id owner :: rest, library, visited =>
    searchSupertypesM search rest (if library.isMissing then .library id owner else library) visited
  | .unknown :: rest, library, visited => searchSupertypesM search rest library visited

/-- The search for a member, which enters no type twice. -/
def findMemberInM (imports : Imports) (name : String) (kind : MemberKind) :
    Nat → Declaration → List QName → m (MemberLookup × List QName)
  | 0, _, visited => spent (.missing, visited)
  | depth + 1, owner, visited =>
    if visited.contains owner.id then return (.missing, visited)
    else
      let visited := owner.id :: visited
      match declaredMember t owner.id name kind with
      | some d => return (.found d, visited)
      | none => do
        let place ← placeOfM t imports owner
        let parents := (t.supertypes owner.id).map (resolveType t place)
        searchSupertypesM (findMemberInM imports name kind depth) parents .missing visited

def findMemberM (imports : Imports) (owner : Declaration) (name : String) (kind : MemberKind) :
    m MemberLookup := do
  return (← findMemberInM t imports name kind (searchDepth t) owner []).1

/-- A member, a nested type of the name or, of an enum or a record, one of the methods that every
such type has without declaring them. -/
def memberOrNestedM (imports : Imports) (owner : Declaration) (name : String)
    (kind : MemberKind) : m MemberLookup := do
  match ← findMemberM t imports owner name kind with
  | .missing =>
    match (t.declaration? (owner.id.member name).text).filter (·.kind.isType) with
    | some nested => return .found nested
    | none =>
      if kind == .method && (owner.kind == .enumType || owner.kind == .recordType) &&
          !isObjectMethod name then return .found owner
      else return .missing
  | found => return found

def staticMemberM (imports : Imports) (name : String) (kind : MemberKind) (owner : String) :
    m MemberLookup :=
  match resolveType t ⟨imports, []⟩ owner with
  | .project d => do
    match ← findMemberM t imports d name kind with
    | .found member => return .found member
    | _ => return .missing
  | .library id c => return .library id c
  | .unknown => return .missing

/-- Of the types that all members are imported from, those of the project come before those of
libraries. -/
def firstOnDemand (wide : List MemberLookup) : Option MemberLookup :=
  match wide.find? fun m => match m with | .found _ => true | _ => false with
  | some found => some found
  | none => wide.find? (!·.isMissing)

def onDemandMemberM (here : Place) (name : String) (kind : MemberKind) :
    m (Option MemberLookup) := do
  return firstOnDemand (← here.imports.staticOnDemand.mapM (staticMemberM t here.imports name kind))

/-- A member without a receiver: of the types around, then by a static import. -/
def implicitMemberM (here : Place) (name : String) (kind : MemberKind) :
    m (Option MemberLookup) := do
  let around ← here.chain.findSomeM? fun type => do
    return (← memberOrNestedM t here.imports type name kind).answer?
  match around with
  | some found => return some found
  | none =>
    match here.imports.staticOwner? name with
    | none => onDemandMemberM t here name kind
    | some owner =>
      match ← staticMemberM t here.imports name kind owner with
      | .missing => onDemandMemberM t here name kind
      | found => return some found

def fieldInChainM (here : Place) (name : String) : m MemberLookup := do
  let field ← here.chain.findSomeM? fun type => do
    return (← findMemberM t here.imports type name .field).answer?
  return field.getD .missing

end

def valueType (here : Place) (type : String) : ReceiverType :=
  if isArrayType type then .foreign
  else
    match resolveType t here type with
    | .unknown => .unknown
    | found => .known found

section

variable {m : Type → Type} [SearchMonad m]

def declaredTypeM (imports : Imports) (member : Declaration) : m ReceiverType :=
  match member.outline?.bind (·.typeText) with
  | some type =>
    if isPrimitive (Text.trimmed type) then return .foreign
    else return valueType t (← placeOfM t imports member) type
  | none => return .unknown

/-- What a member stands for as a receiver. A type found by a field access is that type; found by
a call it is an enum, whose own methods return it. -/
def lookupTypeM (imports : Imports) (kind : MemberKind) : MemberLookup → m ReceiverType
  | .found member =>
    if member.kind.isType then
      if kind == .field || member.kind == .enumType then return .known (.project member)
      else return .unknown
    else declaredTypeM t imports member
  | .library _ _ => return .foreign
  | .missing => return .unknown

mutual
def receiverTypeM (here : Place) : Receiver → m ReceiverType
  | .implicit =>
    match here.chain.head? with
    | some type => return .known (.project type)
    | none => return .unknown
  | .super =>
    match here.chain.head? with
    | none => return .unknown
    | some current => do
      let place ← placeOfM t here.imports current
      match ((t.supertypes current.id).map (resolveType t place)).find? (!·.isUnknown) with
      | some parent => return .known parent
      | none => return .unknown
  | .typed type | .created type => return valueType t here type
  | .name name => do
    match ← fieldInChainM t here name with
    | .found field => declaredTypeM t here.imports field
    | field =>
      match resolveType t here name with
      | .unknown => return if field.isMissing then .unknown else .foreign
      | found => return .known found
  | .call access => accessTypeM here .method access
  | .field access => accessTypeM here .field access
  | .unknown => return .unknown

def accessTypeM (here : Place) (kind : MemberKind) : Access → m ReceiverType
  | .mk name .implicit => do
    lookupTypeM t here.imports kind ((← implicitMemberM t here name kind).getD .missing)
  | .mk name receiver => do
    match ← receiverTypeM here receiver with
    | .known (.project owner) =>
      lookupTypeM t here.imports kind (← memberOrNestedM t here.imports owner name kind)
    | .known (.library _ _) | .foreign => return .foreign
    | _ => return .unknown
end

end

inductive Bound where
  | project (target : QName) (name : String)
  | library (target : QName) (owner : Coordinate) (name : String)
  | unresolved (name : String)
  /-- The site need not mean a declaration. -/
  | nothing

def Bound.ofLookup (name : String) : MemberLookup → Bound
  | .found d => .project d.id name
  | .library id owner => .library id owner name
  | .missing => .nothing

def displayAccess : Access → String
  | .mk name receiver =>
    match receiver with
    | .name r => r ++ "." ++ name
    | .typed type | .created type => stripGenerics type ++ "." ++ name
    | _ => name

/-- A capital first letter and a small letter somewhere: a class rather than a constant. -/
def looksLikeClass (name : String) : Bool :=
  looksLikeType name && name.toList.any Text.isSmall

section

variable {m : Type → Type} [SearchMonad m]

def strangeTypeM? (here : Place) : Access → m (Option String)
  | .mk _ (.name receiver) => do
    match ← fieldInChainM t here receiver with
    | .found _ => return none
    | _ => return if looksLikeType receiver then some receiver else none
  | _ => return none

/-- The last resort for a member whose receiver does not help: the only method of the name. -/
def bindLooseM (here : Place) (kind : MemberKind) (access : Access) : m Bound := do
  if kind == .method && isObjectMethod access.name then return .nothing
  else
    match ← strangeTypeM? t here access with
    | some receiver => return .unresolved receiver
    | none =>
      match kind with
      | .field => return .nothing
      | .method =>
        match t.methodsNamed access.name with
        | [only] => return .project only access.name
        | _ => return .unresolved (displayAccess access)

def bindMemberM (here : Place) (kind : MemberKind) (access : Access) : m Bound :=
  match access with
  | .mk name .implicit => do
    match ← implicitMemberM t here name kind with
    | some found => return .ofLookup name found
    | none => bindLooseM t here kind access
  | .mk name receiver => do
    match ← receiverTypeM t here receiver with
    | .known (.project owner) =>
      match ← memberOrNestedM t here.imports owner name kind with
      | .missing => bindLooseM t here kind access
      | found => return .ofLookup name found
    | .known (.library id owner) => return .library id owner name
    | .known .unknown | .unknown => bindLooseM t here kind access
    | .foreign => return .nothing

def bindMentionM (here : Place) : Mention → m Bound
  | .type name =>
    match resolveType t here name with
    | .project d => return .project d.id name
    | .library id owner => return .library id owner name
    | .unknown => return .unresolved name
  | .call access => bindMemberM t here .method access
  | .field access => bindMemberM t here .field access
  | .bare name => do
    match ← implicitMemberM t here name .field with
    | some found => return .ofLookup name found
    | none =>
      if looksLikeClass name && (resolveType t here name).isUnknown then return .unresolved name
      else return .nothing

end

def isWithin (id outer : QName) : Bool :=
  match Text.stripStart outer.text.toList id.text.toList with
  | some (c :: _) => c == '.'
  | _ => false

/-- The reference that a bound site makes, if any. A declaration does not refer to itself, and a
type does not refer to what it encloses. -/
def Bound.reference? (source : Declaration) (site : UseSite) : Bound → Option Reference
  | .project target name =>
    if (source.kind.isType && isWithin target source.id) || target == source.id then none
    else some ⟨source.id, some target, site.kind, name, site.range⟩
  | .library target _ name => some ⟨source.id, some target, site.kind, name, site.range⟩
  | .unresolved name => some ⟨source.id, none, .unresolved, name, site.range⟩
  | .nothing => none

def Bound.library? : Bound → Option Declaration
  | .library target owner _ => some (.library target owner)
  | _ => none

structure Collected where
  references : List Reference
  libraries : List Declaration

def collectM {m : Type → Type} [SearchMonad m] (d : Declaration) (imports : Imports)
    (sites : List UseSite) : m Collected := do
  let here : Place := ⟨imports, ← chainOfM t d⟩
  let bound ← sites.mapM fun site => do return (site, ← bindMentionM t here site.mention)
  return {
    references := Reference.dedup (bound.filterMap fun (site, b) => b.reference? d site)
    libraries := Reference.keepFirst (·.id) [] (bound.filterMap (·.2.library?)) }

/-! ### The program -/

def enclosing (depth : Nat) (start : Option QName) : List Declaration :=
  Id.run (enclosingM t depth start)

def chainFrom (start : Option QName) : List Declaration :=
  Id.run (chainFromM t start)

def chainOf (d : Declaration) : List Declaration :=
  Id.run (chainOfM t d)

def placeOf (fallback : Imports) (d : Declaration) : Place :=
  Id.run (placeOfM t fallback d)

def searchSupertypes (search : Declaration → List QName → MemberLookup × List QName)
    (parents : List TypeTarget) (library : MemberLookup) (visited : List QName) :
    MemberLookup × List QName :=
  Id.run (searchSupertypesM search parents library visited)

def findMemberIn (imports : Imports) (name : String) (kind : MemberKind) (depth : Nat)
    (owner : Declaration) (visited : List QName) : MemberLookup × List QName :=
  Id.run (findMemberInM t imports name kind depth owner visited)

def findMember (imports : Imports) (owner : Declaration) (name : String) (kind : MemberKind) :
    MemberLookup :=
  Id.run (findMemberM t imports owner name kind)

def memberOrNested (imports : Imports) (owner : Declaration) (name : String)
    (kind : MemberKind) : MemberLookup :=
  Id.run (memberOrNestedM t imports owner name kind)

def staticMember (imports : Imports) (name : String) (kind : MemberKind) (owner : String) :
    MemberLookup :=
  Id.run (staticMemberM t imports name kind owner)

def implicitMember (here : Place) (name : String) (kind : MemberKind) : Option MemberLookup :=
  Id.run (implicitMemberM t here name kind)

def fieldInChain (here : Place) (name : String) : MemberLookup :=
  Id.run (fieldInChainM t here name)

def declaredType (imports : Imports) (member : Declaration) : ReceiverType :=
  Id.run (declaredTypeM t imports member)

def lookupType (imports : Imports) (kind : MemberKind) (found : MemberLookup) : ReceiverType :=
  Id.run (lookupTypeM t imports kind found)

def receiverType (here : Place) (receiver : Receiver) : ReceiverType :=
  Id.run (receiverTypeM t here receiver)

def accessType (here : Place) (kind : MemberKind) (access : Access) : ReceiverType :=
  Id.run (accessTypeM t here kind access)

def strangeType? (here : Place) (access : Access) : Option String :=
  Id.run (strangeTypeM? t here access)

def bindLoose (here : Place) (kind : MemberKind) (access : Access) : Bound :=
  Id.run (bindLooseM t here kind access)

def bindMember (here : Place) (kind : MemberKind) (access : Access) : Bound :=
  Id.run (bindMemberM t here kind access)

def bindMention (here : Place) (mention : Mention) : Bound :=
  Id.run (bindMentionM t here mention)

def collect (d : Declaration) (imports : Imports) (sites : List UseSite) : Collected :=
  Id.run (collectM t d imports sites)

end

end Carve.Java
