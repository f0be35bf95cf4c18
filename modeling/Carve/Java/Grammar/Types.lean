import Carve.Java.Grammar.Basic
/-!
Productions for qualified names, annotations and types.
-/

namespace Carve.Java.Grammar

open Parse

def qualified : Parse Node := do
  let first ← name
  grow (fun scope => build .scopedIdentifier do
    guardThat (← looksAtNth 1 isName)
    let dot ← symbol "."
    let last ← name
    return [scope, dot, last.as .name]) first

def elementPair (sub : Sub) : Parse Node := build .elementPair do
  let key ← name
  let eq ← symbol "="
  let value ← sub .elementValue
  return [key, eq, value.as .value]

def elementArray (sub : Sub) : Parse Node := build .elementArray do
  let opening ← symbol "\x7b"
  let values ← maybe (commaList (sub .elementValue))
  let comma ← maybe (one (symbol ","))
  let closing ← symbol "\x7d"
  return opening :: values ++ comma ++ [closing]

def elementValue (sub : Sub) : Parse Node := do
  if ← atSymbol "\x7b" then elementArray sub
  else if ← atSymbol "@" then sub .annotationMark
  else sub .expression

def annotationArguments (sub : Sub) : Parse Node := build .annotationArguments do
  let opening ← symbol "("
  let pairs ← looksAtNth 1 (isSymbol "=")
  let values ←
    if pairs then commaList (elementPair sub)
    else maybe (one (sub .elementValue))
  let closing ← symbol ")"
  return opening :: values ++ [closing]

def annotationMark (sub : Sub) : Parse Node := build .annotationMark do
  let mark ← symbol "@"
  let called ← qualified
  let args ← maybe (one (annotationArguments sub))
  return [mark, called.as .name] ++ args

def annotations (sub : Sub) : Parse (List Node) := many (one (sub .annotationMark))

def wildcard (sub : Sub) : Parse Node := build .wildcard do
  let marks ← annotations sub
  let question ← symbol "?"
  let bound ← maybe do
    let word ← word "extends" <|> accept .super (isWord "super")
    let type ← sub .type
    return [word, type]
  return marks ++ [question] ++ bound

def typeArguments (sub : Sub) : Parse Node := build .typeArguments do
  let opening ← symbol "<"
  let args ← maybe (commaList (wildcard sub <|> sub .type))
  let closing ← symbol ">"
  return opening :: args ++ [closing]

def typeStep (sub : Sub) (type : Node) : Parse Node := do
  if ← atSymbol "<" then
    guardThat (type.kind != .genericType)
    build .genericType do
      let args ← typeArguments sub
      return [type, args]
  else build .scopedTypeIdentifier do
    let dot ← symbol "."
    let marks ← annotations sub
    let last ← accept .typeIdentifier isName
    return [type, dot] ++ marks ++ [last]

def namedType (sub : Sub) : Parse Node := do
  grow (typeStep sub) (← accept .typeIdentifier isName)

def primitiveType : Parse Node :=
  accept .primitiveType fun t => t.lexeme == .word && primitives.contains t.text

def simpleType (sub : Sub) : Parse Node := primitiveType <|> namedType sub

def dimensions (sub : Sub) : Parse Node := build .dimensions do
  let dimension : Parse (List Node) := do
    let marks ← annotations sub
    let opening ← symbol "["
    let closing ← symbol "]"
    return marks ++ [opening, closing]
  let first ← dimension
  let rest ← many dimension
  return first ++ rest

def plainType (sub : Sub) : Parse Node := do
  let element ← simpleType sub
  match ← maybe (one (dimensions sub)) with
  | [] => return element
  | dims => return Node.branch .arrayType (element.as .element :: dims.map (·.as .dimensions))

def type (sub : Sub) : Parse Node := do
  let marks ← annotations sub
  let bare ← sub .plainType
  if marks.isEmpty then return bare
  else return Node.branch .annotatedType (marks ++ [bare])

def typeList (sub : Sub) : Parse Node := build .typeList (commaList (sub .type))

def typeParameter (sub : Sub) : Parse Node := build .typeParameter do
  let marks ← annotations sub
  let called ← accept .typeIdentifier isName
  let bound ← maybe (one (build .typeBound do
    let word ← word "extends"
    let types ← separated "&" (sub .type)
    return word :: types))
  return marks ++ [called] ++ bound

def typeParameters (sub : Sub) : Parse Node := build .typeParameters do
  let opening ← symbol "<"
  let params ← commaList (typeParameter sub)
  let closing ← symbol ">"
  return opening :: params ++ [closing]

def modifierWords : List String :=
  ["public", "protected", "private", "abstract", "static", "final", "strictfp", "default",
    "synchronized", "native", "transient", "volatile", "non-sealed"]

/-- `sealed` is a modifier before another word or annotation and a name elsewhere. -/
def modifierWord : Parse Node := do
  if ← atWord "sealed" then
    guardThat (← looksAtNth 1 fun t => t.lexeme == .word || isSymbol "@" t || isSymbol "@interface" t)
    word "sealed"
  else accept .token fun t => t.lexeme == .word && modifierWords.contains t.text

def modifiers (sub : Sub) : Parse Node := build .modifiers do
  let one : Parse (List Node) := one (sub .annotationMark <|> modifierWord)
  let first ← one
  let rest ← many one
  return first ++ rest

end Carve.Java.Grammar
