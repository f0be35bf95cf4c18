import Carve.Java.Grammar.Statements
/-!
Productions for types and their members, and for the parts of a whole source file.
-/

namespace Carve.Java.Grammar

open Parse

def classBody (sub : Sub) : Parse Node := build .classBody do
  let opening ← symbol "\x7b"
  let members ← many (one (sub .member))
  let closing ← symbol "\x7d"
  return opening :: members ++ [closing]

def interfaceBody (sub : Sub) : Parse Node := build .interfaceBody do
  let opening ← symbol "\x7b"
  let members ← many (one (sub .member))
  let closing ← symbol "\x7d"
  return opening :: members ++ [closing]

def annotationBody (sub : Sub) : Parse Node := build .annotationBody do
  let opening ← symbol "\x7b"
  let members ← many (one (sub .element))
  let closing ← symbol "\x7d"
  return opening :: members ++ [closing]

def superInterfaces (sub : Sub) : Parse Node := build .superInterfaces do
  let word ← word "implements"
  let list ← typeList sub
  return [word, list]

def permits (sub : Sub) : Parse Node := build .permits do
  let word ← word "permits"
  let list ← typeList sub
  return [word, list]

def superclass (sub : Sub) : Parse Node := build .superclass do
  let word ← word "extends"
  let type ← sub .type
  return [word, type]

def extendsInterfaces (sub : Sub) : Parse Node := build .extendsInterfaces do
  let word ← word "extends"
  let list ← typeList sub
  return [word, list]

def ownTypeParameters (sub : Sub) : Parse (List Node) := do
  let params ← maybe (one (typeParameters sub))
  return params.map (·.as .typeParameters)

def classDeclaration (sub : Sub) (mods : List Node) : Parse Node := build .classDeclaration do
  let word ← word "class"
  let called ← name
  let params ← ownTypeParameters sub
  let parent ← maybe (one (superclass sub))
  let interfaces ← maybe (one (superInterfaces sub))
  let permitted ← maybe (one (permits sub))
  let body ← classBody sub
  return mods ++ [word, called.as .name] ++ params ++ parent ++ interfaces ++ permitted ++
    [body.as .body]

def interfaceDeclaration (sub : Sub) (mods : List Node) : Parse Node :=
  build .interfaceDeclaration do
    let word ← word "interface"
    let called ← name
    let params ← ownTypeParameters sub
    let parents ← maybe (one (extendsInterfaces sub))
    let permitted ← maybe (one (permits sub))
    let body ← interfaceBody sub
    return mods ++ [word, called.as .name] ++ params ++ parents ++ permitted ++ [body.as .body]

def recordDeclaration (sub : Sub) (mods : List Node) : Parse Node := build .recordDeclaration do
  let word ← word "record"
  let called ← name
  let params ← ownTypeParameters sub
  let components ← sub .formalParameters
  let interfaces ← maybe (one (superInterfaces sub))
  let body ← classBody sub
  return mods ++ [word, called.as .name] ++ params ++ [components.as .parameters] ++ interfaces ++
    [body.as .body]

def annotationDeclaration (sub : Sub) (mods : List Node) : Parse Node :=
  build .annotationDeclaration do
    let mark ← symbol "@interface"
    let called ← name
    let body ← annotationBody sub
    return mods ++ [mark, called.as .name, body.as .body]

def enumConstant (sub : Sub) : Parse Node := build .enumConstant do
  let mods ← maybe (one (modifiers sub))
  let called ← name
  let args ← maybe (one (sub .arguments))
  let body ← maybe (one (do
    guardThat (← atSymbol "\x7b")
    sub .classBody))
  return mods ++ called.as .name :: args.map (·.as .arguments) ++ body.map (·.as .body)

def enumMembers (sub : Sub) : Parse Node := build .enumMembers do
  let semicolon ← symbol ";"
  let members ← many (one (sub .member))
  return semicolon :: members

def enumBody (sub : Sub) : Parse Node := build .enumBody do
  let opening ← symbol "\x7b"
  let constants ← maybe (commaList (enumConstant sub))
  let comma ← maybe (one (symbol ","))
  let members ← maybe (one (enumMembers sub))
  let closing ← symbol "\x7d"
  return opening :: constants ++ comma ++ members ++ [closing]

def enumDeclaration (sub : Sub) (mods : List Node) : Parse Node := build .enumDeclaration do
  let word ← word "enum"
  let called ← name
  let interfaces ← maybe (one (superInterfaces sub))
  let body ← enumBody sub
  return mods ++ [word, called.as .name] ++ interfaces ++ [body.as .body]

def typeDeclaration (sub : Sub) : Parse Node := do
  let mods ← maybe (one (modifiers sub))
  classDeclaration sub mods <|> interfaceDeclaration sub mods <|> enumDeclaration sub mods <|>
    recordDeclaration sub mods <|> annotationDeclaration sub mods

def throwsClause (sub : Sub) : Parse Node := build .throws do
  let word ← word "throws"
  let types ← commaList (sub .type)
  return word :: types

def ctorInvocation (sub : Sub) : Parse Node := build .ctorInvocation do
  let callee ←
    (do
      let args ← maybe (one (typeArguments sub))
      let target ← accept .this (isWord "this") <|> accept .super (isWord "super")
      guardThat (← atSymbol "(")
      return args.map (·.as .typeArguments) ++ [target]) <|>
    (do
      let object ← primary sub
      let dot ← symbol "."
      let args ← maybe (one (typeArguments sub))
      let target ← accept .super (isWord "super")
      return [object.as .object, dot] ++ args.map (·.as .typeArguments) ++ [target])
  let args ← sub .arguments
  let semicolon ← symbol ";"
  return callee ++ [args.as .arguments, semicolon]

def ctorBody (sub : Sub) : Parse Node := build .ctorBody do
  let opening ← symbol "\x7b"
  let call ← maybe (one (ctorInvocation sub))
  let body ← many (one (sub .statement))
  let closing ← symbol "\x7d"
  return opening :: call ++ body ++ [closing]

def ctorDeclaration (sub : Sub) (head : List Node) : Parse Node := build .ctorDeclaration do
  let called ← name
  let params ← sub .formalParameters
  let thrown ← maybe (one (throwsClause sub))
  let body ← ctorBody sub
  return head ++ [called.as .name, params.as .parameters] ++ thrown ++ [body.as .body]

def compactCtorDeclaration (sub : Sub) (mods : List Node) : Parse Node :=
  build .compactCtorDeclaration do
    let called ← name
    let body ← sub .block
    return mods ++ [called.as .name, body.as .body]

def methodDeclaration (sub : Sub) (head : List Node) : Parse Node := build .methodDeclaration do
  let marks ← annotations sub
  let type ← sub .plainType
  let called ← name
  let params ← sub .formalParameters
  let dims ← maybe (one (dimensions sub))
  let thrown ← maybe (one (throwsClause sub))
  let body ← (do
    if ← atSymbol ";" then symbol ";" else return (← sub .block).as .body)
  return head ++ marks ++ [type.as .type, called.as .name, params.as .parameters] ++
    dims.map (·.as .dimensions) ++ thrown ++ [body]

def fieldDeclaration (sub : Sub) (mods : List Node) : Parse Node := build .fieldDeclaration do
  let type ← sub .plainType
  let list ← declarators sub
  let semicolon ← symbol ";"
  return mods ++ type.as .type :: list ++ [semicolon]

def member (sub : Sub) : Parse Node := do
  if ← atSymbol ";" then symbol ";"
  else if ← atSymbol "\x7b" then sub .block
  else if ← (do return (← atWord "static") && (← looksAtNth 1 (isSymbol "\x7b"))) then
    build .staticInitializer do
      let word ← word "static"
      let body ← sub .block
      return [word, body]
  else if ← atTypeDeclaration sub then sub .typeDeclaration
  else do
    let mods ← maybe (one (modifiers sub))
    let params ← ownTypeParameters sub
    let named ← looksAt isName
    if named && (← looksAtNth 1 (isSymbol "(")) then ctorDeclaration sub (mods ++ params)
    else if named && (← looksAtNth 1 (isSymbol "\x7b")) then compactCtorDeclaration sub mods
    else
      let isMethod ← isAhead do
        let _ ← annotations sub
        let _ ← sub .plainType
        let _ ← name
        symbol "("
      if isMethod then methodDeclaration sub (mods ++ params) else fieldDeclaration sub mods

/-- A member of an annotation type: an element has empty parentheses and maybe a default. -/
def element (sub : Sub) : Parse Node := do
  let isElement ← isAhead do
    let _ ← maybe (one (modifiers sub))
    let _ ← sub .plainType
    let _ ← name
    symbol "("
  if isElement then
    build .elementDeclaration do
      let mods ← maybe (one (modifiers sub))
      let type ← sub .plainType
      let called ← name
      let opening ← symbol "("
      let closing ← symbol ")"
      let dims ← maybe (one (dimensions sub))
      let value ← maybe do
        let word ← word "default"
        let value ← sub .elementValue
        return [word, value.as .value]
      let semicolon ← symbol ";"
      return mods ++ [type.as .type, called.as .name, opening, closing] ++
        dims.map (·.as .dimensions) ++ value ++ [semicolon]
  else sub .member

def packageDeclaration (sub : Sub) : Parse Node := build .packageDeclaration do
  let marks ← annotations sub
  let word ← word "package"
  let called ← qualified
  let semicolon ← symbol ";"
  return marks ++ [word, called, semicolon]

def importDeclaration : Parse Node := build .importDeclaration do
  let word ← word "import"
  let static ← maybe (one (Parse.word "static"))
  let called ← qualified
  let all ← maybe do
    let dot ← symbol "."
    let star ← accept .asterisk (isSymbol "*")
    return [dot, star]
  let semicolon ← symbol ";"
  return word :: static ++ [called] ++ all ++ [semicolon]

/-- A module declaration, whose directives are of no concern here. -/
def moduleDeclaration (sub : Sub) : Parse Node := build .moduleDeclaration do
  let marks ← annotations sub
  let opened ← maybe (one (word "open"))
  let word ← word "module"
  let called ← qualified
  let opening ← symbol "\x7b"
  let inner ← fun ts => (closingIndex 0 ts).map fun n => ((ts.take n).map (leaf .token), ts.drop n)
  let closing ← symbol "\x7d"
  return marks ++ opened ++ [word, called, opening] ++ inner ++ [closing]

/-- One part of a source file. Where nothing fits, one token is passed over. -/
def fileItem (sub : Sub) : Parse Node :=
  packageDeclaration sub <|> importDeclaration <|> moduleDeclaration sub <|> sub .member <|>
    sub .statement <|> accept .token fun _ => true

def production (sub : Sub) : Goal → Parse Node
  | .type => type sub
  | .plainType => plainType sub
  | .annotationMark => annotationMark sub
  | .elementValue => elementValue sub
  | .expression => expression sub
  | .operand => operand sub
  | .initializer => initializer sub
  | .arguments => arguments sub
  | .formalParameters => formalParameters sub
  | .classBody => classBody sub
  | .block => block sub
  | .statement => statement sub
  | .localVariable => variableDeclaration sub .localVariableDeclaration
  | .member => member sub
  | .element => element sub
  | .recordPattern => recordPattern sub
  | .typeDeclaration => typeDeclaration sub

/-- The goals with at most `depth` productions inside each other. -/
def goalAt : Nat → Sub
  | 0 => fun _ _ => none
  | depth + 1 => production (goalAt depth)

end Carve.Java.Grammar

namespace Carve.Java

/-- The syntax tree of a source text. Every token takes fewer than eight productions inside each
other, so the depth is enough for every text. -/
def parse (source : List Char) : Node :=
  let tokens := Token.scan source
  let isComment := fun t : Token => t.lexeme == .comment
  let code := tokens.filter (!isComment ·)
  let comments := (tokens.filter isComment).map (Parse.leaf .comment)
  let sub := Grammar.goalAt (8 * code.length + 8)
  let items :=
    match Parse.many (Parse.one (Grammar.fileItem sub)) code with
    | some (ns, _) => ns
    | none => []
  let stop := Mark.origin.advance source
  (Node.mk .program none ⟨.origin, stop⟩ items).weave comments

end Carve.Java
