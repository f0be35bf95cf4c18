import Carve.Declaration
import Carve.Json.Basic
/-!
Declarations as JSON.
-/

namespace Carve

def Span.toJson (s : Span) : Json := .record [("start", .nat s.start), ("end", .nat s.stop)]

def Range.toJson (r : Range) : Json :=
  .record [("start_line", .nat r.startLine), ("start_col", .nat r.startCol),
    ("end_line", .nat r.endLine), ("end_col", .nat r.endCol)]

/-- A version that is not known is left out. -/
def Coordinate.toJson (c : Coordinate) : Json :=
  .record ([("group", .text c.group), ("artifact", .text c.artifact)] ++
    (c.version.map fun v => ("version", .text v)).toList)

def Scope.text : Scope → String
  | .main => "main"
  | .test => "test"

def Origin.toJson : Origin → Json
  | .project module => .record [("origin", .text "project"), ("module", .text module)]
  | .library c => .record [("origin", .text "library"), ("coordinate", c.toJson)]

def Outline.fields (o : Outline) : List (String × Json) :=
  [("span", o.span.toJson), ("body", .ofOption Span.toJson o.body),
    ("initializer", .ofOption Span.toJson o.initializer),
    ("constructor_call", .ofOption Span.toJson o.ctorCall),
    ("enum_constants", .ofOption Span.toJson o.constants),
    ("modifiers", .array (o.modifiers.map .text)), ("type_text", .ofOption .text o.typeText),
    ("declarators", .nat o.declarators)]

mutual
def Layout.toJson : Layout → Json
  | ⟨own, overloads⟩ => .record (own.fields ++ [("overloads", .array (Layout.allToJson overloads))])

def Layout.allToJson : List Layout → List Json
  | [] => []
  | l :: ls => l.toJson :: Layout.allToJson ls
end

def Location.toJson (l : Location) : Json :=
  .record [("path", .text l.path.text), ("range", l.range.toJson), ("shape", l.layout.toJson)]

def Declaration.toJson (d : Declaration) : Json :=
  .record [("id", .text d.id.text), ("name", .text d.name), ("kind", .text d.kind.text),
    ("origin", d.origin.toJson), ("scope", .text d.scope.text),
    ("parent", .ofOption (fun p => .text p.text) d.parent),
    ("location", .ofOption Location.toJson d.location)]

end Carve
