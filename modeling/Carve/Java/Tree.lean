import Carve.Span
/-!
Concrete syntax trees of Java. A node has a kind, the role it plays in its parent, the stretch of
text it covers and its parts in source order. Keywords and punctuation are parts of kind `token`;
comments are parts too, of the innermost node that has text on both sides of them.
-/

namespace Carve.Java

inductive Kind where
  | token
  | comment
  | identifier
  | scopedIdentifier
  | underscore
  | this
  | super
  | asterisk
  | literal
  | stringLiteral
  | program
  | moduleDeclaration
  | packageDeclaration
  | importDeclaration
  | classDeclaration
  | interfaceDeclaration
  | enumDeclaration
  | recordDeclaration
  | annotationDeclaration
  | classBody
  | interfaceBody
  | enumBody
  | enumMembers
  | annotationBody
  | enumConstant
  | modifiers
  | annotationMark
  | annotationArguments
  | elementPair
  | elementArray
  | typeParameters
  | typeParameter
  | typeBound
  | superclass
  | superInterfaces
  | extendsInterfaces
  | permits
  | typeList
  | throws
  | fieldDeclaration
  | methodDeclaration
  | elementDeclaration
  | ctorDeclaration
  | compactCtorDeclaration
  | ctorBody
  | ctorInvocation
  | staticInitializer
  | formalParameters
  | formalParameter
  | spreadParameter
  | receiverParameter
  | inferredParameters
  | variableDeclarator
  | dimensions
  | dimensionsExpr
  | arrayInitializer
  | typeIdentifier
  | scopedTypeIdentifier
  | genericType
  | arrayType
  | annotatedType
  | primitiveType
  | typeArguments
  | wildcard
  | block
  | localVariableDeclaration
  | expressionStatement
  | labeledStatement
  | ifStatement
  | whileStatement
  | doStatement
  | forStatement
  | enhancedForStatement
  | breakStatement
  | continueStatement
  | returnStatement
  | yieldStatement
  | throwStatement
  | assertStatement
  | synchronizedStatement
  | tryStatement
  | tryWithResources
  | resources
  | resource
  | catchClause
  | catchParameter
  | catchType
  | finallyClause
  | switchExpression
  | switchBlock
  | switchGroup
  | switchRule
  | switchLabel
  | guard
  | typePattern
  | recordPattern
  | recordPatternBody
  | recordPatternComponent
  | assignment
  | ternary
  | binary
  | unary
  | update
  | cast
  | instanceOf
  | lambda
  | parenthesized
  | classLiteral
  | objectCreation
  | arrayCreation
  | arrayAccess
  | fieldAccess
  | methodInvocation
  | methodReference
  | templateExpression
  | arguments
  deriving DecidableEq, Repr, Inhabited

/-- The part a node plays in its parent, where the kind alone does not tell. -/
inductive Role where
  | name
  | type
  | value
  | body
  | object
  | field
  | arguments
  | typeArguments
  | parameters
  | typeParameters
  | declarator
  | dimensions
  | element
  | left
  | right
  | pattern
  deriving DecidableEq, Repr, Inhabited

inductive Node where
  | mk (kind : Kind) (role : Option Role) (extent : Extent) (children : List Node)
  deriving Repr, Inhabited

namespace Node

def kind : Node → Kind
  | mk k _ _ _ => k

def role : Node → Option Role
  | mk _ r _ _ => r

def extent : Node → Extent
  | mk _ _ e _ => e

def children : Node → List Node
  | mk _ _ _ cs => cs

def span (n : Node) : Span := n.extent.span

def range (n : Node) : Range := n.extent.range

def isNamed (n : Node) : Bool := n.kind != .token

def named (n : Node) : List Node := n.children.filter isNamed

def child? (n : Node) (r : Role) : Option Node := n.children.find? (·.role == some r)

def childrenIn (n : Node) (r : Role) : List Node := n.children.filter (·.role == some r)

def firstOf? (n : Node) (k : Kind) : Option Node := n.named.find? (·.kind == k)

def as (r : Role) : Node → Node
  | mk k _ e cs => mk k (some r) e cs

/-- The text the node covers; nothing when its ends split a character. -/
def text (source : List Char) (n : Node) : String :=
  match Text.slice? source n.span.start n.span.stop with
  | some cs => String.ofList cs
  | none => ""

def branch (k : Kind) (parts : List Node) : Node :=
  match parts with
  | [] => mk k none ⟨.origin, .origin⟩ []
  | first :: rest =>
    let last := rest.getLast?.getD first
    mk k none ⟨first.extent.start, last.extent.stop⟩ (first :: rest)

mutual
/-- Comments handed to the innermost nodes around them, in source order. -/
def weave (comments : List Node) : Node → Node
  | mk k r e cs => mk k r e (weaveInto comments cs)

def weaveInto (comments : List Node) : List Node → List Node
  | [] => comments
  | n :: ns =>
    let before := comments.takeWhile fun c => decide (c.span.start < n.span.start)
    let later := comments.dropWhile fun c => decide (c.span.start < n.span.start)
    let inside := later.takeWhile fun c => decide (c.span.start < n.span.stop)
    let after := later.dropWhile fun c => decide (c.span.start < n.span.stop)
    before ++ weave inside n :: weaveInto after ns
end

end Node

end Carve.Java
