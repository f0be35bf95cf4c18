import Carve.Java.Grammar.Expressions
/-!
Productions for variables and statements. A statement that begins with a type and a name declares
local variables; everything else that begins with no keyword is an expression.
-/

namespace Carve.Java.Grammar

open Parse

def declaratorId (sub : Sub) : Parse (List Node) := do
  let called ← name
  let dims ← maybe (one (dimensions sub))
  return called.as .name :: dims.map (·.as .dimensions)

def variableDeclarator (sub : Sub) : Parse Node := build .variableDeclarator do
  let id ← declaratorId sub
  let value ← maybe do
    let eq ← symbol "="
    let value ← sub .initializer
    return [eq, value.as .value]
  return id ++ value

def declarators (sub : Sub) : Parse (List Node) := do
  let list ← commaList (variableDeclarator sub)
  return list.map fun n => if n.isNamed then n.as .declarator else n

def variableDeclaration (sub : Sub) (k : Kind) : Parse Node := build k do
  let mods ← maybe (one (modifiers sub))
  let type ← sub .plainType
  let list ← declarators sub
  let semicolon ← symbol ";"
  return mods ++ type.as .type :: list ++ [semicolon]

def receiverParameter (sub : Sub) : Parse Node := build .receiverParameter do
  let marks ← annotations sub
  let type ← sub .plainType
  let through ← many do
    let scope ← name
    let dot ← symbol "."
    return [scope, dot]
  let this ← accept .this (isWord "this")
  return marks ++ type :: through ++ [this]

def formalParameter (sub : Sub) : Parse Node := build .formalParameter do
  let mods ← maybe (one (modifiers sub))
  let type ← sub .plainType
  let id ← declaratorId sub
  return mods ++ type.as .type :: id

def spreadParameter (sub : Sub) : Parse Node := build .spreadParameter do
  let mods ← maybe (one (modifiers sub))
  let type ← sub .plainType
  let marks ← annotations sub
  let dots ← symbol "..."
  let declared ← variableDeclarator sub
  return mods ++ type :: marks ++ [dots, declared]

def formalParameters (sub : Sub) : Parse Node := build .formalParameters do
  let opening ← symbol "("
  let params ← maybe (commaList
    (receiverParameter sub <|> formalParameter sub <|> spreadParameter sub))
  let closing ← symbol ")"
  return opening :: params ++ [closing]

def block (sub : Sub) : Parse Node := build .block do
  let opening ← symbol "\x7b"
  let body ← many (one (sub .statement))
  let closing ← symbol "\x7d"
  return opening :: body ++ [closing]

def keywordStatement (k : Kind) (keyword : String) (parts : Parse (List Node)) : Parse Node :=
  build k do
    let word ← word keyword
    let inner ← parts
    let semicolon ← symbol ";"
    return word :: inner ++ [semicolon]

def ifStatement (sub : Sub) : Parse Node := build .ifStatement do
  let word ← word "if"
  let condition ← parenthesized sub
  let yes ← sub .statement
  let no ← maybe do
    let word ← Parse.word "else"
    let body ← sub .statement
    return [word, body]
  return [word, condition, yes] ++ no

def whileStatement (sub : Sub) : Parse Node := build .whileStatement do
  let word ← word "while"
  let condition ← parenthesized sub
  let body ← sub .statement
  return [word, condition, body.as .body]

def doStatement (sub : Sub) : Parse Node := build .doStatement do
  let word ← word "do"
  let body ← sub .statement
  let word' ← Parse.word "while"
  let condition ← parenthesized sub
  let semicolon ← symbol ";"
  return [word, body.as .body, word', condition, semicolon]

def enhancedFor (sub : Sub) : Parse Node := build .enhancedForStatement do
  let word ← word "for"
  let opening ← symbol "("
  let mods ← maybe (one (modifiers sub))
  let type ← sub .plainType
  let id ← declaratorId sub
  let colon ← symbol ":"
  let value ← sub .expression
  let closing ← symbol ")"
  let body ← sub .statement
  return [word, opening] ++ mods ++ type.as .type :: id ++
    [colon, value.as .value, closing, body.as .body]

def classicFor (sub : Sub) : Parse Node := build .forStatement do
  let word ← word "for"
  let opening ← symbol "("
  let init ← one (sub .localVariable) <|> (do
    let list ← maybe (commaList (sub .expression))
    let semicolon ← symbol ";"
    return list ++ [semicolon])
  let condition ← maybe (one (sub .expression))
  let semicolon ← symbol ";"
  let update ← maybe (commaList (sub .expression))
  let closing ← symbol ")"
  let body ← sub .statement
  return [word, opening] ++ init ++ condition ++ [semicolon] ++ update ++ [closing, body.as .body]

/-- Whether a `for` runs over a collection: a declared name is followed by a colon. -/
def atEnhancedFor (sub : Sub) : Parse Bool := isAhead do
  let _ ← word "for"
  let _ ← symbol "("
  let _ ← maybe (one (modifiers sub))
  let _ ← sub .plainType
  let _ ← declaratorId sub
  symbol ":"

def catchType (sub : Sub) : Parse Node :=
  build .catchType (separated "|" (sub .plainType))

def catchParameter (sub : Sub) : Parse Node := build .catchParameter do
  let mods ← maybe (one (modifiers sub))
  let types ← catchType sub
  let id ← declaratorId sub
  return mods ++ types :: id

def catchClause (sub : Sub) : Parse Node := build .catchClause do
  let word ← word "catch"
  let opening ← symbol "("
  let param ← catchParameter sub
  let closing ← symbol ")"
  let body ← sub .block
  return [word, opening, param, closing, body.as .body]

def finallyClause (sub : Sub) : Parse Node := build .finallyClause do
  let word ← word "finally"
  let body ← sub .block
  return [word, body]

def resource (sub : Sub) : Parse Node :=
  build .resource (do
    let mods ← maybe (one (modifiers sub))
    let type ← sub .plainType
    let id ← declaratorId sub
    let eq ← symbol "="
    let value ← sub .expression
    return mods ++ type.as .type :: id ++ [eq, value.as .value]) <|>
  build .resource (one (primary sub))

def resources (sub : Sub) : Parse Node := build .resources do
  let opening ← symbol "("
  let list ← separated ";" (resource sub)
  let last ← maybe (one (symbol ";"))
  let closing ← symbol ")"
  return opening :: list ++ last ++ [closing]

def tryStatement (sub : Sub) : Parse Node := do
  let word ← word "try"
  let managed ← maybe (one (resources sub))
  let body ← sub .block
  let clauses ← many (one (catchClause sub))
  let final ← maybe (one (finallyClause sub))
  let kind := if managed.isEmpty then Kind.tryStatement else .tryWithResources
  build kind (return word :: managed ++ body.as .body :: clauses ++ final)

def synchronizedStatement (sub : Sub) : Parse Node := build .synchronizedStatement do
  let word ← word "synchronized"
  let lock ← parenthesized sub
  let body ← sub .block
  return [word, lock, body.as .body]

def labeledStatement (sub : Sub) : Parse Node := build .labeledStatement do
  let label ← name
  let colon ← symbol ":"
  let body ← sub .statement
  return [label, colon, body]

def assertStatement (sub : Sub) : Parse Node :=
  keywordStatement .assertStatement "assert" do
    let test ← sub .expression
    let message ← maybe do
      let colon ← symbol ":"
      let text ← sub .expression
      return [colon, text]
    return test :: message

/-- Whether a local variable declaration begins here: a type and then a name. -/
def atLocalVariable (sub : Sub) : Parse Bool := isAhead do
  let _ ← maybe (one (modifiers sub))
  let _ ← sub .plainType
  name

def typeWords : List String := ["class", "interface", "enum"]

def atTypeDeclaration (sub : Sub) : Parse Bool := isAhead do
  let _ ← maybe (one (modifiers sub))
  let keyword ← looksAt fun t =>
    (t.lexeme == .word && typeWords.contains t.text) || isSymbol "@interface" t
  let record ← looksAt (isWord "record")
  let named ← looksAtNth 1 isName
  let header ← looksAtNth 2 fun t => isSymbol "(" t || isSymbol "<" t
  guardThat (keyword || (record && named && header))

def simpleStatement (sub : Sub) : Parse Node := do
  if ← atTypeDeclaration sub then sub .typeDeclaration
  else if ← atLocalVariable sub then sub .localVariable
  else expressionStatement sub

def statement (sub : Sub) : Parse Node := do
  if ← atSymbol "\x7b" then sub .block
  else if ← atSymbol ";" then symbol ";"
  else match ← peek? with
    | some ⟨.word, text, _⟩ =>
      match text with
      | "if" => ifStatement sub
      | "while" => whileStatement sub
      | "do" => doStatement sub
      | "for" => (do if ← atEnhancedFor sub then enhancedFor sub else classicFor sub)
      | "try" => tryStatement sub
      | "switch" => switch sub <|> expressionStatement sub
      | "return" => keywordStatement .returnStatement "return" (maybe (one (sub .expression)))
      | "throw" => keywordStatement .throwStatement "throw" (one (sub .expression))
      | "break" => keywordStatement .breakStatement "break" (maybe (one name))
      | "continue" => keywordStatement .continueStatement "continue" (maybe (one name))
      | "yield" => keywordStatement .yieldStatement "yield" (one (sub .expression))
      | "assert" => assertStatement sub
      | "synchronized" => synchronizedStatement sub
      | _ =>
        if ← (do return (← looksAt isName) && (← looksAtNth 1 (isSymbol ":"))) then
          labeledStatement sub
        else simpleStatement sub
    | _ => simpleStatement sub

end Carve.Java.Grammar
