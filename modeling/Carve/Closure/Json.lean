import Carve.Closure
import Carve.Declaration.Json
/-!
Closures as JSON, their members keyed by name in the order of their admission.
-/

namespace Carve

def Inclusion.key : Inclusion → String
  | .full => "full_source"
  | .stub => "stub"
  | .external => "external_reference_only"

def Diagnostic.toJson : Diagnostic → Json
  | .unresolved source name =>
    .record [("kind", .text "unresolved_reference"), ("from", .text source.text),
      ("name", .text name)]
  | .libraryLeft library =>
    .record [("kind", .text "library_expansion_skipped"), ("library", library.toJson)]
  | .depthLimit source target =>
    .record [("kind", .text "depth_limit_reached"), ("from", .text source.text),
      ("to", .text target.text)]
  | .testExcluded source target =>
    .record [("kind", .text "test_scope_excluded"), ("from", .text source.text),
      ("to", .text target.text)]

def Member.toJson (m : Member) : Json :=
  .record [("declaration", m.decl.toJson), ("policy", .text m.inclusion.key),
    ("distance", .nat m.distance)]

def Closure.toJson (c : Closure) : Json :=
  .record [("root", .text c.root.text),
    ("nodes", .record (c.members.map fun m => (m.decl.id.text, m.toJson))),
    ("libraries", .array (c.libraries.map Coordinate.toJson)),
    ("diagnostics", .array (c.diagnostics.map Diagnostic.toJson))]

end Carve
