import Carve.Plan
import Carve.Workspace
/-!
The workspace of a closure. The members are sorted into files in the order of their admission, a
plan says what of each file is kept, and a writer of the language turns the plan into text.
-/

namespace Carve

/-- How files of a language are placed and written. -/
structure Writer where
  relativePath : SourceUnit → Path
  render : SourceUnit → List Piece → Placeholder → String

structure Extraction where
  sourceRoot : Path := ⟨"src/main/java"⟩
  placeholder : Placeholder := .defaultValue

namespace Extraction

def addTo (p : Path) (entry : QName × Inclusion) :
    List (Path × Selection) → List (Path × Selection)
  | [] => [(p, [entry])]
  | (q, sel) :: rest =>
    if q.Same p then (q, sel ++ [entry]) :: rest else (q, sel) :: addTo p entry rest

/-- The selections of all files. A member that is kept must have a place in a file. -/
def selections : List Member → Except Fault (List (Path × Selection))
  | ms => ms.foldlM (fun files m =>
      match m.inclusion with
      | .external => .ok files
      | _ =>
        match m.decl.path? with
        | none => .error (.inconsistent (m.decl.id.text ++ " has no source location"))
        | some p => .ok (addTo p (m.decl.id, m.inclusion) files)) []

def textOf (w : Writer) (style : Placeholder) (unit : SourceUnit) (plan : List Piece) : String :=
  if Plan.isVerbatim unit.topLevel plan then unit.text else w.render unit plan style

def fileOf (e : Extraction) (w : Writer) (x : Index) (p : Path) (sel : Selection) :
    Except Fault (Path × String) :=
  match x.unit? p with
  | none => .error (.notFound p.text)
  | some unit =>
    .ok (e.sourceRoot.join (w.relativePath unit),
      textOf w e.placeholder unit (Plan.ofUnit x sel unit))

def pathOf? (e : Extraction) (w : Writer) (x : Index) (d : Declaration) : Option Path := do
  let unit ← x.unit? (← d.path?)
  return e.sourceRoot.join (w.relativePath unit)

def librariesOf (members : List Member) : List Coordinate :=
  (members.filterMap fun m =>
    match m.inclusion with
    | .external => m.decl.origin.coordinate?
    | _ => none).foldl Closure.addNew []

end Extraction

def Closure.workspace (c : Closure) (e : Extraction) (w : Writer) (x : Index) :
    Except Fault Workspace := do
  let sels ← Extraction.selections c.members
  let files ← sels.mapM fun (p, sel) => e.fileOf w x p sel
  return .ofFiles files (Extraction.librariesOf c.members)

end Carve
