import Carve.Java.Lang
import Carve.Java.Tree
import Carve.UseSite
/-!
Finding the use sites below a piece of syntax. The walk keeps a stack of frames with the local
variables in reach, so that a lone name can be told apart from a local variable; `visit` leaves
the stack as deep as it found it. The names of type parameters and of local types are hidden: a
type mention that begins with one of them is no use site.
-/

namespace Carve.Java

/-- The variables of one block with their written types, as far as these are known. -/
abbrev Frame := List (String × Option String)

structure Walk where
  hidden : List String
  /-- The innermost frame comes first. -/
  frames : List Frame := [[]]
  /-- The newest site comes first. -/
  found : List UseSite := []

namespace Walk

def sites (w : Walk) : List UseSite := w.found.reverse

def record (w : Walk) (site : UseSite) : Walk := { w with found := site :: w.found }

def declare (w : Walk) (name : String) (type : Option String) : Walk :=
  match w.frames with
  | [] => w
  | top :: outer => { w with frames := ((name, type) :: top) :: outer }

def local? (w : Walk) (name : String) : Option (Option String) :=
  w.frames.findSome? (·.lookup name)

def hide (w : Walk) (name : String) : Walk := { w with hidden := name :: w.hidden }

def enter (w : Walk) : Walk := { w with frames := [] :: w.frames }

def leave (w : Walk) : Walk := { w with frames := w.frames.tail }

def inFrame (f : Walk → Walk) (w : Walk) : Walk := (f w.enter).leave

end Walk

section

variable (source : List Char)

def firstSegment (name : String) : String :=
  match Text.splitFirst '.' name with
  | some (head, _) => head
  | none => name

def mentionType (kind : Reference.Kind) (n : Node) (w : Walk) : Walk :=
  let name := stripGenerics (n.text source)
  if name.isEmpty || name == "var" || isPrimitive name then w
  else if w.hidden.contains (firstSegment name) then w
  else w.record ⟨kind, .type name, some n.range⟩

def annotationMention (n : Node) (w : Walk) : Walk :=
  match n.child? .name with
  | some name => w.record ⟨.annotationUse, .type (name.text source), some name.range⟩
  | none => w

mutual
/-- The type mentions of a type. Type arguments and bounds are mere type uses whatever the kind
of the outer mention. -/
def typeRefs (kind : Reference.Kind) : Node → Walk → Walk
  | .mk k r e cs, w =>
    match k with
    | .typeIdentifier | .scopedTypeIdentifier => mentionType source kind (.mk k r e cs) w
    | .genericType | .annotatedType => typeRefsOf kind cs w
    | .arrayType => typeRefsOfElement kind cs w
    | .annotationMark => annotationMention source (.mk k r e cs) w
    | .typeArguments | .wildcard | .typeList | .typeBound | .catchType =>
      typeRefsOf .typeUse cs w
    | _ => w

def typeRefsOf (kind : Reference.Kind) : List Node → Walk → Walk
  | [], w => w
  | n :: ns, w => typeRefsOf kind ns (if n.isNamed then typeRefs kind n w else w)

def typeRefsOfElement (kind : Reference.Kind) : List Node → Walk → Walk
  | [], w => w
  | n :: ns, w =>
    if n.role == some .element then typeRefs kind n w else typeRefsOfElement kind ns w
end

def typeRefsOfRole (kind : Reference.Kind) (r : Role) (cs : List Node) (w : Walk) : Walk :=
  match cs.find? (·.role == some r) with
  | some n => typeRefs source kind n w
  | none => w

def modifierAnnotations (cs : List Node) (w : Walk) : Walk :=
  match cs.find? (·.kind == .modifiers) with
  | none => w
  | some mods =>
    (mods.children.filter (·.kind == .annotationMark)).foldl (fun w n => annotationMention source n w) w

def typeParameterRefs (n : Node) (w : Walk) : Walk :=
  n.named.foldl (fun w param =>
    param.named.foldl (fun w part =>
      match part.kind with
      | .typeBound => typeRefs source .typeUse part w
      | .annotationMark => annotationMention source part w
      | _ => w) w) w

mutual
/-- What a receiver expression stands for, as far as syntax tells. -/
def receiver (w : Walk) : Node → Receiver
  | .mk k r e cs =>
    match k with
    | .this => .implicit
    | .super => .super
    | .identifier =>
      let name := Node.text source (.mk k r e cs)
      match w.local? name with
      | some (some type) => .typed type
      | some none => .unknown
      | none => .name name
    | .fieldAccess =>
      match cs.find? (·.role == some .field) with
      | some field => .field (.mk (field.text source) (objectReceiver w cs))
      | none => .unknown
    | .methodInvocation =>
      match cs.find? (·.role == some .name) with
      | some name => .call (.mk (name.text source) (objectReceiver w cs))
      | none => .unknown
    | .objectCreation =>
      match cs.find? (·.role == some .type) with
      | some type => .created (stripGenerics (type.text source))
      | none => .unknown
    | .parenthesized => innerReceiver w cs
    | .cast =>
      match cs.find? (·.role == some .type) with
      | some type => .typed (type.text source)
      | none => .unknown
    | .stringLiteral => .typed "String"
    | _ => .unknown

def objectReceiver (w : Walk) : List Node → Receiver
  | [] => .implicit
  | n :: ns => if n.role == some .object then receiver w n else objectReceiver w ns

def innerReceiver (w : Walk) : List Node → Receiver
  | [] => .unknown
  | n :: ns => if n.isNamed then receiver w n else innerReceiver w ns
end

def createdType? (value : Node) : Option String :=
  if value.kind == .objectCreation then (value.child? .type).map (·.text source) else none

/-- The type to remember for a variable: a missing one or `var` is read off a creation. -/
def variableType (declared : Option String) (value : Option Node) : Option String :=
  match declared with
  | none | some "var" => value.bind (createdType? source)
  | some type => some type

def textOfRole (r : Role) (cs : List Node) : Option String :=
  (cs.find? (·.role == some r)).map (·.text source)

def declareRole (r : Role) (cs : List Node) (type : Option String) (w : Walk) : Walk :=
  match textOfRole source r cs with
  | some name => w.declare name type
  | none => w

/-- What stands before `::`. A type written there is a name even where a variable hides it. -/
def qualifierReceiver (w : Walk) (qualifier : Node) : Receiver :=
  match qualifier.kind with
  | .typeIdentifier | .scopedTypeIdentifier | .genericType =>
    .name (stripGenerics (qualifier.text source))
  | .arrayType => .unknown
  | _ => receiver source w qualifier

mutual
def visit : Node → Walk → Walk
  | .mk k r e cs, w =>
    let n : Node := .mk k r e cs
    match k with
    | .methodInvocation =>
      let w :=
        match cs.find? (·.role == some .name) with
        | some name =>
          w.record ⟨.call, .call (.mk (name.text source) (objectReceiver source w cs)),
            some name.range⟩
        | none => w
      let w := visitRole .object cs w
      let w := typeRefsOfRole source .typeUse .typeArguments cs w
      visitRole .arguments cs w
    | .fieldAccess =>
      let w :=
        match cs.find? (·.role == some .field) with
        | some field =>
          w.record ⟨.field, .field (.mk (field.text source) (objectReceiver source w cs)),
            some field.range⟩
        | none => w
      visitRole .object cs w
    | .objectCreation =>
      let w := visitRole .object cs w
      let w := typeRefsOfRole source .instantiation .type cs w
      let w := typeRefsOfRole source .typeUse .typeArguments cs w
      let w := visitRole .arguments cs w
      visitAnonymousBody cs w
    | .methodReference =>
      match cs.find? Node.isNamed, cs.getLast? with
      | some qualifier, some last =>
        if last.kind == .token then typeRefs source .instantiation qualifier w
        else if last.kind == .identifier then
          visitFirstNamed cs
            (w.record ⟨.call, .call (.mk (last.text source) (qualifierReceiver source w qualifier)),
              some last.range⟩)
        else w
      | _, _ => w
    | .identifier =>
      let name := n.text source
      match w.local? name with
      | some _ => w
      | none => w.record ⟨.field, .bare name, some n.range⟩
    | .localVariableDeclaration | .fieldDeclaration =>
      let w := modifierAnnotations source cs w
      let w := typeRefsOfRole source .typeUse .type cs w
      visitDeclarators (textOfRole source .type cs) cs w
    | .variableDeclarator =>
      let w := visitRole .value cs w
      declareRole source .name cs (variableType source none (n.child? .value)) w
    | .formalParameter | .catchParameter | .spreadParameter =>
      let w := modifierAnnotations source cs w
      let (declared, w) := visitParameterParts none cs w
      declareRole source .name cs declared w
    | .lambda => w.inFrame fun w =>
      let w := visitLambdaParameters cs w
      visitRole .body cs w
    | .enhancedForStatement => w.inFrame fun w =>
      let w := typeRefsOfRole source .typeUse .type cs w
      let w := visitRole .value cs w
      let w := declareRole source .name cs (textOfRole source .type cs) w
      visitRole .body cs w
    | .resource =>
      match textOfRole source .type cs with
      | some type =>
        let w := typeRefsOfRole source .typeUse .type cs w
        let w := visitRole .value cs w
        declareRole source .name cs (some type) w
      | none => visitParts true cs w
    | .instanceOf =>
      let w := visitRole .left cs w
      let w := typeRefsOfRole source .typeUse .right cs w
      let w :=
        match textOfRole source .right cs with
        | some type => declareRole source .name cs (some type) w
        | none => w
      visitPattern cs w
    | .cast =>
      let w := (cs.filter (·.role == some .type)).foldl
        (fun w type => typeRefs source .typeUse type w) w
      visitRole .value cs w
    | .classLiteral =>
      match cs.find? Node.isNamed with
      | some type => typeRefs source .typeUse type w
      | none => w
    | .arrayCreation =>
      let w := typeRefsOfRole source .typeUse .type cs w
      visitKinds (fun k => k == .dimensionsExpr || k == .arrayInitializer) cs w
    | .annotationMark => annotationMention source n w
    | .labeledStatement => visitKinds (fun k => k != .token && k != .identifier) cs w
    | .ctorInvocation => visitRole .arguments cs (visitRole .object cs w)
    | .typeIdentifier | .scopedTypeIdentifier | .genericType | .arrayType | .annotatedType
    | .typeArguments => typeRefs source .typeUse n w
    | .typeParameters => typeParameterRefs source n w
    | .classDeclaration | .interfaceDeclaration | .enumDeclaration | .recordDeclaration =>
      let w :=
        match textOfRole source .name cs with
        | some name => w.hide name
        | none => w
      w.inFrame (visitParts true cs)
    | .block | .ctorBody | .switchBlock | .switchGroup | .forStatement | .catchClause
    | .tryWithResources | .methodDeclaration | .ctorDeclaration | .classBody =>
      w.inFrame (visitParts true cs)
    | .breakStatement | .continueStatement | .this | .super | .comment | .scopedIdentifier
    | .modifiers | .literal | .stringLiteral => w
    | _ => visitParts true cs w

/-- Every named part in order, except the first one that plays the role of a declared name. -/
def visitParts (skipName : Bool) : List Node → Walk → Walk
  | [], w => w
  | n :: ns, w =>
    if skipName && n.role == some .name then visitParts false ns w
    else visitParts skipName ns (if n.isNamed then visit n w else w)

def visitRole (r : Role) : List Node → Walk → Walk
  | [], w => w
  | n :: ns, w => if n.role == some r then visit n w else visitRole r ns w

def visitFirstNamed : List Node → Walk → Walk
  | [], w => w
  | n :: ns, w => if n.isNamed then visit n w else visitFirstNamed ns w

def visitKinds (p : Kind → Bool) : List Node → Walk → Walk
  | [], w => w
  | n :: ns, w => visitKinds p ns (if p n.kind then visit n w else w)

def visitAnonymousBody : List Node → Walk → Walk
  | [], w => w
  | .mk k _ _ inner :: ns, w =>
    if k == .classBody then w.inFrame (visitParts true inner) else visitAnonymousBody ns w

def visitPattern : List Node → Walk → Walk
  | [], w => w
  | .mk _ r _ inner :: ns, w =>
    if r == some .pattern then visitParts true inner w else visitPattern ns w

def visitDeclarators (declared : Option String) : List Node → Walk → Walk
  | [], w => w
  | .mk _ r _ inner :: ns, w =>
    if r == some .declarator then
      let w := visitRole .value inner w
      let value := inner.find? (·.role == some .value)
      visitDeclarators declared ns
        (declareRole source .name inner (variableType source declared value) w)
    else visitDeclarators declared ns w

/-- The parts of a parameter: its type, and after an ellipsis its declarator. The first part that
is neither modifiers nor name gives the variable its type. -/
def visitParameterParts (declared : Option String) :
    List Node → Walk → Option String × Walk
  | [], w => (declared, w)
  | .mk k r e inner :: ns, w =>
    let n : Node := .mk k r e inner
    match k with
    | .token | .modifiers | .identifier | .dimensions => visitParameterParts declared ns w
    | .variableDeclarator =>
      let w := visitRole .value inner w
      let value := inner.find? (·.role == some .value)
      visitParameterParts declared ns
        (declareRole source .name inner (variableType source declared value) w)
    | _ =>
      let w := typeRefs source .typeUse n w
      visitParameterParts (declared <|> some (n.text source)) ns w

/-- Lambda parameters are variables of unknown type unless they are written out. -/
def visitLambdaParameters : List Node → Walk → Walk
  | [], w => w
  | .mk k r e inner :: ns, w =>
    if r == some .parameters then
      match k with
      | .identifier => w.declare (Node.text source (.mk k r e inner)) none
      | .inferredParameters =>
        (inner.filter Node.isNamed).foldl (fun w p => w.declare (p.text source) none) w
      | _ => visitKinds (fun k => k != .token) inner w
    else visitLambdaParameters ns w
end

def visitParameters (n : Node) (w : Walk) : Walk :=
  visitKinds source (fun k => k != .token) n.children w

end

end Carve.Java
