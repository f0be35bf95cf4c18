import Carve.Java.Grammar.Declarations
import Carve.Java.Imports
import Carve.Java.Lang
import Carve.Extract
/-!
Writing the kept part of a Java file. Full pieces are copied; stubs keep their headers and get
placeholder bodies that still compile: a method returns the default of its type, a constructor
keeps its call of another constructor and otherwise assigns every blank final field that is kept.
-/

namespace Carve.Java

def unsupported : String := "throw new UnsupportedOperationException(\"stub\");"

structure Enclosing where
  kind : Declaration.Kind
  /-- The kept instance fields without a value and what a stub constructor assigns to them. -/
  blankFinals : List (String × String)

def fieldDefault (o : Outline) : String := (o.typeText.bind defaultValue).getD "null"

def braces (inner : String) : String := "\x7b " ++ inner ++ " \x7d"

section

variable (source : List Char) (style : Placeholder)

def sliceOf (s : Span) : String :=
  match Text.slice? source s.start s.stop with
  | some cs => String.ofList cs
  | none => ""

def upTo : Nat → List Char → List Char
  | _, [] => []
  | n, c :: cs => if n = 0 then [] else c :: upTo (n - c.utf8Size) cs

def indentAt (offset : Nat) : String :=
  let before := upTo offset source
  let lineStart := before.length - (before.reverse.takeWhile (· ≠ '\n')).length
  String.ofList ((source.drop lineStart).takeWhile fun c => c == ' ' || c == '\t')

def headerOf (o : Outline) (body : Span) : String :=
  Text.trimmedEnd (sliceOf source ⟨o.span.start, body.start⟩)

def stubMethod (o : Outline) : String :=
  match o.body with
  | none => sliceOf source o.span
  | some body =>
    let placeholder :=
      match style with
      | .throwing => braces unsupported
      | .defaultValue =>
        match o.typeText.bind defaultValue with
        | some value => braces ("return " ++ value ++ ";")
        | none => "\x7b \x7d"
    headerOf source o body ++ " " ++ placeholder

def delegates (o : Outline) : Bool :=
  match o.ctorCall with
  | some call => (Text.stripStart "this".toList (sliceOf source call).toList).isSome
  | none => false

def assignments (enclosing : Option Enclosing) : List String :=
  match enclosing with
  | some e => e.blankFinals.map fun (name, value) => "this." ++ name ++ " = " ++ value ++ ";"
  | none => []

/-- The statements of a stubbed constructor. One that delegates leaves the fields to the other. -/
def ctorStatements (o : Outline) (enclosing : Option Enclosing) : List String :=
  (match o.ctorCall with | some call => [sliceOf source call] | none => []) ++
    (if delegates source o then [] else assignments enclosing) ++
    (match style with | .throwing => [unsupported] | .defaultValue => [])

def stubCtor (o : Outline) (enclosing : Option Enclosing) : String :=
  match o.body with
  | none => sliceOf source o.span
  | some body =>
    let placeholder :=
      match ctorStatements source style o enclosing with
      | [] => "\x7b \x7d"
      | statements => braces (Text.joined " " statements)
    headerOf source o body ++ " " ++ placeholder

/-- A lone variable loses its value; constants keep theirs. -/
def stubField (o : Outline) (parent : Option Declaration.Kind) : String :=
  let keepsValue := o.hasModifier "final" ||
    parent == some .interfaceType || parent == some .annotationType
  match o.initializer with
  | some init =>
    if !keepsValue && o.declarators == 1 then
      sliceOf source ⟨o.span.start, init.start⟩ ++ sliceOf source ⟨init.stop, o.span.stop⟩
    else sliceOf source o.span
  | none => sliceOf source o.span

/-- A lone static final field whose value an initializer block assigns gets a default instead. -/
def settleField (o : Outline) (text : String) : String :=
  if o.isBlankFinal && o.hasModifier "static" && o.declarators == 1 then
    match Text.stripEnd [';'] (Text.trimEnd text.toList) with
    | some head => Text.trimmedEnd (String.ofList head) ++ " = " ++ fieldDefault o ++ ";"
    | none => text
  else text

def withOverloads (layout : Layout) (f : Outline → String) : String :=
  Text.joined ("\n\n" ++ indentAt source layout.own.span.start)
    ((layout.own :: layout.overloads.map (·.own)).map f)

def stubMember (kind : Declaration.Kind) (enclosing : Option Enclosing) (o : Outline) : String :=
  match kind with
  | .method => stubMethod source style o
  | .ctor => stubCtor source style o enclosing
  | _ => settleField o (stubField source o (enclosing.map (·.kind)))

def enclosingOf (kind : Declaration.Kind) (children : List Piece) : Enclosing where
  kind := kind
  blankFinals := children.filterMap fun c =>
    if c.decl.kind == .field then
      c.decl.outline?.bind fun o =>
        if o.isBlankFinal && !o.hasModifier "static" then some (c.decl.name, fieldDefault o)
        else none
    else none

/-- The constants of an enum, which are kept together, or the semicolon that ends their list. -/
def constantsText (kind : Declaration.Kind) (o : Outline) (indent : String) : String :=
  match o.constants with
  | some constants => indentAt source constants.start ++ sliceOf source constants ++ ";\n"
  | none => if kind == .enumType then indent ++ "    ;\n" else ""

mutual
def emit (enclosing : Option Enclosing) : Piece → String
  | ⟨d, mode, children⟩ =>
    match d.location with
    | none => ""
    | some place =>
      let o := place.layout.own
      match mode with
      | .full =>
        if d.kind == .field then settleField o (sliceOf source o.span)
        else withOverloads source place.layout fun o => sliceOf source o.span
      | .stub | .shell =>
        if mode == .stub && !d.kind.isType then
          withOverloads source place.layout (stubMember source style d.kind enclosing)
        else
          match o.body with
          | none => sliceOf source o.span
          | some body =>
            let indent := indentAt source o.span.start
            headerOf source o body ++ " \x7b\n" ++ constantsText source d.kind o indent ++
              emitAll (enclosingOf d.kind children) o.constants [] children ++ indent ++ "\x7d"

/-- Members one after another. Constants of an enum and further names of a field declaration that
was written already are passed over. -/
def emitAll (enclosing : Enclosing) (constants : Option Span) (written : List Span) :
    List Piece → String
  | [] => ""
  | p :: ps =>
    match p.decl.location with
    | none => emitAll enclosing constants written ps
    | some place =>
      let span := place.layout.own.span
      if constants.any (fun c => decide (c.Encloses span)) || written.contains span then
        emitAll enclosing constants written ps
      else
        "\n" ++ indentAt source span.start ++ emit (some enclosing) p ++ "\n" ++
          emitAll enclosing constants (written ++ [span]) ps
end

end

def relativePath (unit : SourceUnit) : Path :=
  let dir : Path :=
    match unit.package with
    | some package => (Text.parts '.' package).foldl (fun p s => p.join ⟨s⟩) ⟨""⟩
    | none => ⟨""⟩
  match unit.path.fileName? with
  | some name => dir.join ⟨name⟩
  | none => dir

def preludeText (source : List Char) : String :=
  Text.trimmedStart (sliceOf source ⟨0, preludeEnd (parse source)⟩)

def render (text : String) (plan : List Piece) (style : Placeholder) : String :=
  let source := text.toList
  let prelude := preludeText source
  (if prelude.isEmpty then "" else prelude ++ "\n\n") ++
    Text.joined "\n\n" (plan.map (emit source style none)) ++ "\n"

def writer : Writer where
  relativePath := relativePath
  render unit plan style := render unit.text plan style

end Carve.Java
