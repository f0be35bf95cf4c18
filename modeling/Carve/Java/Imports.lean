import Carve.Java.Tree
import Carve.Text.Blank
import Carve.UseSite
/-!
The package and import lines of a Java file.
-/

namespace Carve.Java

def qualifiedName? (source : List Char) (n : Node) : Option String :=
  (n.named.find? fun c => c.kind == .scopedIdentifier || c.kind == .identifier).map fun c =>
    String.ofList (Text.squeeze (c.text source).toList)

def addImport (source : List Char) (imports : Imports) (n : Node) : Imports :=
  match qualifiedName? source n with
  | none => imports
  | some name =>
    let isStatic := n.children.any fun c => c.kind == .token && c.text source == "static"
    let onDemand := n.children.any (·.kind == .asterisk)
    match isStatic, onDemand with
    | false, false => { imports with single := imports.single ++ [name] }
    | false, true => { imports with onDemand := imports.onDemand ++ [name] }
    | true, false => { imports with staticSingle := imports.staticSingle ++ [name] }
    | true, true => { imports with staticOnDemand := imports.staticOnDemand ++ [name] }

/-- Of several package lines the last one counts. -/
def readImports (source : List Char) (root : Node) : Imports :=
  root.named.foldl (fun imports n =>
    match n.kind with
    | .packageDeclaration => { imports with package := qualifiedName? source n }
    | .importDeclaration => addImport source imports n
    | _ => imports) {}

/-- The byte after the last package or import line. -/
def preludeEnd (root : Node) : Nat :=
  let lines := root.named.filter fun n =>
    n.kind == .packageDeclaration || n.kind == .importDeclaration
  (lines.getLast?.map (·.span.stop)).getD 0

end Carve.Java
