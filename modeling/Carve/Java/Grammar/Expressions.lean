import Carve.Java.Grammar.Types
/-!
Productions for expressions. Binary operators are read by binding strength; parentheses around a
name make a cast only when what follows could not continue an expression.
-/

namespace Carve.Java.Grammar

open Parse

def arguments (sub : Sub) : Parse Node := build .arguments do
  let opening ← symbol "("
  let args ← maybe (commaList (sub .expression))
  let closing ← symbol ")"
  return opening :: args ++ [closing]

def parenthesized (sub : Sub) : Parse Node := build .parenthesized do
  let opening ← symbol "("
  let inner ← sub .expression
  let closing ← symbol ")"
  return [opening, inner, closing]

def arrayInitializer (sub : Sub) : Parse Node := build .arrayInitializer do
  let opening ← symbol "\x7b"
  let values ← maybe (commaList (sub .initializer))
  let comma ← maybe (one (symbol ","))
  let closing ← symbol "\x7d"
  return opening :: values ++ comma ++ [closing]

def initializer (sub : Sub) : Parse Node := do
  if ← atSymbol "\x7b" then arrayInitializer sub else sub .expression

def touching (a b : Token) : Bool := a.extent.stop.offset == b.extent.start.offset

/-- The operator at the head of the tokens with the number of tokens it takes. Closing angle
brackets and an equals sign that touch each other make one operator. -/
def operatorAt : List Token → Option (String × Nat)
  | [] => none
  | a :: rest =>
    if a.lexeme == .word then (if a.text == "instanceof" then some ("instanceof", 1) else none)
    else if a.lexeme != .symbol then none
    else if a.text != ">" then some (a.text, 1)
    else match rest with
      | b :: rest' =>
        if isSymbol "=" b && touching a b then some (">=", 2)
        else if isSymbol ">" b && touching a b then
          match rest' with
          | c :: rest'' =>
            if isSymbol "=" c && touching b c then some (">>=", 3)
            else if isSymbol ">" c && touching b c then
              match rest'' with
              | d :: _ =>
                if isSymbol "=" d && touching c d then some (">>>=", 4) else some (">>>", 3)
              | [] => some (">>>", 3)
            else some (">>", 2)
          | [] => some (">>", 2)
        else some (">", 1)
      | [] => some (">", 1)

def strength : String → Option Nat
  | "||" => some 1
  | "&&" => some 2
  | "|" => some 3
  | "^" => some 4
  | "&" => some 5
  | "==" | "!=" => some 6
  | "<" | "<=" | ">" | ">=" | "instanceof" => some 7
  | "<<" | ">>" | ">>>" => some 8
  | "+" | "-" => some 9
  | "*" | "/" | "%" => some 10
  | _ => none

def assignmentOperators : List String :=
  ["=", "+=", "-=", "*=", "/=", "&=", "|=", "^=", "%=", "<<=", ">>=", ">>>="]

def operator (allowed : String → Bool) : Parse Node := fun ts =>
  match operatorAt ts with
  | some (text, n) =>
    if allowed text then
      some (Node.mk .token none (Node.branch .token ((ts.take n).map (leaf .token))).extent [],
        ts.drop n)
    else none
  | none => none

def instanceOfRight (sub : Sub) : Parse (List Node) := do
  let final ← maybe (one (word "final"))
  let right ←
    (do let p ← sub .recordPattern; return [p.as .pattern]) <|>
    (do
      let type ← sub .type
      let bound ← maybe (one name)
      return type.as .right :: bound.map (·.as .name))
  return final ++ right

/-- Operators of strength `least` or more, applied from the left. -/
def binaryRest (sub : Sub) : Nat → Nat → Node → Parse Node
  | 0, _, left, ts => some (left, ts)
  | fuel + 1, least, left, ts =>
    match operatorAt ts with
    | none => some (left, ts)
    | some (text, n) =>
      match strength text with
      | none => some (left, ts)
      | some s =>
        if s < least then some (left, ts)
        else
          let op := Node.mk .token none (Node.branch .token ((ts.take n).map (leaf .token))).extent []
          let combined : Option (Node × List Token) :=
            if text == "instanceof" then
              (instanceOfRight sub (ts.drop n)).map fun (right, rest) =>
                (Node.branch .instanceOf (left.as .left :: op :: right), rest)
            else
              match sub .operand (ts.drop n) with
              | none => none
              | some (operand, rest) =>
                (binaryRest sub fuel (s + 1) operand rest).map fun (right, rest') =>
                  (Node.branch .binary [left.as .left, op, right.as .right], rest')
          match combined with
          | none => none
          | some (node, rest) => binaryRest sub fuel least node rest

def binary (sub : Sub) : Parse Node := do
  let first ← sub .operand
  fun ts => binaryRest sub (ts.length + 1) 0 first ts

def expression (sub : Sub) : Parse Node := do
  let left ← binary sub
  if ← atSymbol "?" then
    build .ternary do
      let question ← symbol "?"
      let yes ← sub .expression
      let colon ← symbol ":"
      let no ← sub .expression
      return [left, question, yes, colon, no]
  else fun ts =>
    match operator assignmentOperators.contains ts with
    | some (op, rest) =>
      (sub .expression rest).map fun (right, rest') =>
        (Node.branch .assignment [left.as .left, op, right.as .right], rest')
    | none => some (left, ts)

def inferredParameters : Parse Node := build .inferredParameters do
  let opening ← symbol "("
  let names ← commaList name
  let closing ← symbol ")"
  return opening :: names ++ [closing]

def lambda (sub : Sub) : Parse Node := build .lambda do
  let params ← name <|> inferredParameters <|> sub .formalParameters
  let arrow ← symbol "->"
  let body ← (do if ← atSymbol "\x7b" then sub .block else sub .expression)
  return [params.as .parameters, arrow, body.as .body]

def startsOperand (t : Token) : Bool :=
  match t.lexeme with
  | .word => t.text != "instanceof"
  | .number | .character | .string => true
  | .symbol => t.text == "(" || t.text == "!" || t.text == "~"
  | .comment => false

/-- Names joined by dots, which could be read as an expression as well. -/
def plainChain : Nat → Node → Bool
  | 0, _ => false
  | fuel + 1, n =>
    n.kind == .typeIdentifier ||
      (n.kind == .scopedTypeIdentifier && n.named.all (plainChain fuel))

/-- A cast. After a plain name a sign continues an expression, so it makes no cast; an increment
does when an operand follows it. -/
def cast (sub : Sub) : Parse Node := build .cast do
  let opening ← symbol "("
  let types ← separated "&" (sub .type)
  let closing ← symbol ")"
  let plain := (types.filter Node.isNamed).all fun n => plainChain n.span.length n
  let sure ← looksAt startsOperand
  let step ← looksAt fun t => isSymbol "++" t || isSymbol "--" t
  let signed ← looksAt fun t => isSymbol "+" t || isSymbol "-" t
  let operandAfter ← looksAtNth 1 startsOperand
  guardThat (sure || (!plain && (step || signed)) || (plain && step && operandAfter))
  let value ← sub .operand
  return opening :: types.map (fun n => if n.isNamed then n.as .type else n) ++
    [closing, value.as .value]

def dimensionsExpr (sub : Sub) : Parse Node := build .dimensionsExpr do
  let marks ← annotations sub
  let opening ← symbol "["
  let size ← sub .expression
  let closing ← symbol "]"
  return marks ++ [opening, size, closing]

def creationHead (sub : Sub) : Parse (List Node × Node) := do
  let new ← word "new"
  let marks ← annotations sub
  let args ← maybe (one (typeArguments sub))
  let more ← annotations sub
  let type ← simpleType sub
  return (new :: marks ++ args.map (·.as .typeArguments) ++ more, type.as .type)

/-- An object or array creation; `outer` holds the parts of a qualifying expression. -/
def creation (sub : Sub) (outer : List Node) : Parse Node := do
  let (head, type) ← creationHead sub
  if ← atSymbol "(" then
    build .objectCreation do
      let args ← sub .arguments
      let body ← maybe (one (do
        guardThat (← atSymbol "\x7b")
        sub .classBody))
      return outer ++ head ++ [type, args.as .arguments] ++ body
  else build .arrayCreation do
    let sized ← many (one (dimensionsExpr sub))
    if sized.isEmpty then
      let dims ← dimensions sub
      let value ← arrayInitializer sub
      return head ++ [type, dims.as .dimensions, value.as .value]
    else
      let dims ← maybe (one (dimensions sub))
      return head ++ type :: (sized ++ dims).map (·.as .dimensions)

def methodReferenceTail (sub : Sub) (qualifier : Node) : Parse Node := build .methodReference do
  let colons ← symbol "::"
  let args ← maybe (one (typeArguments sub))
  let member ← word "new" <|> name
  return [qualifier, colons] ++ args ++ [member]

/-- A class literal, or a method reference on a type that no expression could be. -/
def typeLed (sub : Sub) : Parse Node := do
  let type ← sub .plainType
  if ← atSymbol "." then
    build .classLiteral do
      let dot ← symbol "."
      let word ← word "class"
      return [type, dot, word]
  else
    guardThat !(plainChain type.span.length type)
    methodReferenceTail sub type

def invocation (sub : Sub) (head : List Node) (called : Node) : Parse Node :=
  build .methodInvocation do
    let args ← sub .arguments
    return head ++ [called.as .name, args.as .arguments]

def isLiteralWord (t : Token) : Bool :=
  t.lexeme == .word && (t.text == "true" || t.text == "false" || t.text == "null")

def literal : Parse Node :=
  accept .stringLiteral (·.lexeme == .string) <|>
    accept .literal fun t => t.lexeme == .number || t.lexeme == .character || isLiteralWord t

/-- A word where an expression is due is a name unless it begins an expression of its own. -/
def looseName : Parse Node :=
  accept .identifier fun t => isName t || isWord "default" t

def primaryHead (sub : Sub) : Parse Node := do
  if ← atSymbol "(" then parenthesized sub
  else if ← atWord "new" then creation sub []
  else if ← atWord "this" then accept .this (isWord "this")
  else if ← atWord "super" then accept .super (isWord "super")
  else literal <|> typeLed sub <|> do
    let called ← looseName
    if ← atSymbol "(" then invocation sub [] called else return called

def afterDot (sub : Sub) (object : Node) : Parse Node := do
  let dot ← symbol "."
  if ← atWord "new" then creation sub [object, dot]
  else if ← atWord "this" then
    build .fieldAccess do
      let this ← accept .this (isWord "this")
      return [object.as .object, dot, this.as .field]
  else if ← looksAt (·.lexeme == .string) then
    build .templateExpression do
      let template ← literal
      return [object, dot, template]
  else
    let through ← maybe do
      let super ← accept .super (isWord "super")
      let dot ← symbol "."
      return [super, dot]
    let head := [object.as .object, dot] ++ through
    let args ← maybe (one (typeArguments sub))
    let called ← name
    if ← atSymbol "(" then
      invocation sub (head ++ args.map (·.as .typeArguments)) called
    else
      guardThat args.isEmpty
      build .fieldAccess (return head ++ [called.as .field])

def primaryStep (sub : Sub) (object : Node) : Parse Node := do
  if ← atSymbol "." then afterDot sub object
  else if ← atSymbol "[" then
    build .arrayAccess do
      let opening ← symbol "["
      let index ← sub .expression
      let closing ← symbol "]"
      return [object, opening, index, closing]
  else methodReferenceTail sub object

def primary (sub : Sub) : Parse Node := do grow (primaryStep sub) (← primaryHead sub)

def patternName : Parse Node := accept .identifier isName

def typePattern (sub : Sub) : Parse Node := build .typePattern do
  let type ← sub .plainType
  let bound ← patternName
  return [type, bound]

def recordPatternComponent (sub : Sub) : Parse Node :=
  build .recordPatternComponent (do
    let type ← sub .plainType
    let bound ← patternName
    return [type, bound]) <|>
  build .recordPatternComponent (one (accept .underscore (isWord "_")))

def recordPatternBody (sub : Sub) : Parse Node := build .recordPatternBody do
  let opening ← symbol "("
  let parts ← maybe (commaList (sub .recordPattern <|> recordPatternComponent sub))
  let closing ← symbol ")"
  return opening :: parts ++ [closing]

/-- A record pattern begins with a plain name or with a qualified or generic type. -/
def recordPattern (sub : Sub) : Parse Node := build .recordPattern do
  let plain ← looksAtNth 1 (isSymbol "(")
  let head ← if plain then name else namedType sub
  let body ← recordPatternBody sub
  return [head, body]

def switchLabel (sub : Sub) : Parse Node := fun ts =>
  let label : Parse Node := build .switchLabel do
    if ← atWord "default" then one (word "default")
    else
      let case ← word "case"
      let values ← one (sub .recordPattern <|> typePattern sub) <|> commaList (sub .expression)
      let condition ← maybe (one (build .guard do
        let word ← word "when"
        let test ← sub .expression
        return [word, test]))
      return case :: values ++ condition
  match arrowIndex 0 ts with
  | some n => within n label ts
  | none => label ts

def expressionStatement (sub : Sub) : Parse Node := build .expressionStatement do
  let value ← sub .expression
  let semicolon ← symbol ";"
  return [value, semicolon]

def switchRule (sub : Sub) : Parse Node := build .switchRule do
  let label ← switchLabel sub
  let arrow ← symbol "->"
  let action ← (do
    if (← atSymbol "\x7b") || (← atWord "throw") then sub .statement
    else expressionStatement sub)
  return [label, arrow, action]

def switchGroup (sub : Sub) : Parse Node := build .switchGroup do
  let labelled : Parse (List Node) := do
    let label ← switchLabel sub
    let colon ← symbol ":"
    return [label, colon]
  let first ← labelled
  let labels ← many labelled
  let body ← many (one (sub .statement))
  return first ++ labels ++ body

def switchBlock (sub : Sub) : Parse Node := build .switchBlock do
  let opening ← symbol "\x7b"
  let parts ← many (one (switchRule sub <|> switchGroup sub))
  let closing ← symbol "\x7d"
  return opening :: parts ++ [closing]

def switch (sub : Sub) : Parse Node := build .switchExpression do
  let word ← word "switch"
  let condition ← parenthesized sub
  let body ← switchBlock sub
  return [word, condition, body.as .body]

def signs : List String := ["+", "-", "!", "~"]

def operand (sub : Sub) : Parse Node := do
  if ← atLambda then lambda sub
  else if ← looksAt fun t => t.lexeme == .symbol && signs.contains t.text then
    build .unary do
      let sign ← accept .token fun _ => true
      let inner ← sub .operand
      return [sign, inner]
  else if ← looksAt fun t => isSymbol "++" t || isSymbol "--" t then
    build .update do
      let step ← accept .token fun _ => true
      let inner ← sub .operand
      return [step, inner]
  else if ← atWord "switch" then switch sub
  else do
    let base ← cast sub <|> primary sub
    if base.kind == .cast then return base
    else grow (fun n => build .update do
      let step ← accept .token fun t => isSymbol "++" t || isSymbol "--" t
      return [n, step]) base

end Carve.Java.Grammar
