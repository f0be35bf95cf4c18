import Carve.Indexing
import Carve.Proofs.Java.Naming

/-!
# What is written in a type

The body of a type as the tree has it: its methods, fields and types in source order, each with
its own outline. All methods of one name are one declaration, whose layout lists the others as
overloads, and a method that shares its name with a field, before or behind it, is called by its
alias.
-/

namespace Carve.Java

/-- A member in the body of a type. -/
structure Written where
  kind : Declaration.Kind
  name : String
  range : Range
  outline : Outline

namespace Node

mutual
def nodes : Node → List Node
  | .mk k role e cs => .mk k role e cs :: nodesIn cs

def nodesIn : List Node → List Node
  | [] => []
  | n :: ns => n.nodes ++ nodesIn ns
end

def modifierTexts (source : List Char) (n : Node) : List String :=
  match n.firstOf? .modifiers with
  | none => []
  | some mods => (mods.children.filter (·.kind != .annotationMark)).map (·.text source)

def typeText? (source : List Char) (n : Node) : Option String :=
  (n.child? .type).map (·.text source)

def callableOutline (source : List Char) (n : Node) : Outline :=
  { span := n.span
    body := (n.child? .body).map (·.span)
    ctorCall := (n.child? .body).bind Reader.ctorCall?
    modifiers := n.modifierTexts source
    typeText := n.typeText? source }

/-- The outline of one of the names that a field declaration introduces. The value is told only of
a name that is declared alone. -/
def fieldOutline (source : List Char) (n d name : Node) (count : Nat) : Outline :=
  { span := n.span
    initializer :=
      match count, d.child? .value with
      | 1, some v => some ⟨((d.child? .dimensions).getD name).span.stop, v.span.stop⟩
      | _, _ => none
    modifiers := n.modifierTexts source
    typeText := n.typeText? source
    declarators := count }

def constantOutline (owner : QName) (n : Node) : Outline :=
  { span := n.span
    modifiers := ["public", "static", "final"]
    typeText := some owner.simple
    declarators := 1 }

def typeOutline (source : List Char) (n : Node) : Outline :=
  { span := n.span
    body := (n.child? .body).map (·.span)
    constants := (n.child? .body).bind Reader.constantSpan?
    modifiers := n.modifierTexts source }

def writtenMethod? (source : List Char) (n : Node) : Option Written :=
  (n.child? .name).map fun c => ⟨.method, c.text source, n.range, n.callableOutline source⟩

def writtenField? (source : List Char) (n : Node) (count : Nat) (d : Node) : Option Written :=
  (d.child? .name).map fun c => ⟨.field, c.text source, n.range, n.fieldOutline source d c count⟩

def writtenFields (source : List Char) (n : Node) : List Written :=
  (n.childrenIn .declarator).filterMap (n.writtenField? source (n.childrenIn .declarator).length)

def writtenConstant? (source : List Char) (owner : QName) (n : Node) : Option Written :=
  (n.child? .name).map fun c => ⟨.field, c.text source, n.range, n.constantOutline owner⟩

def writtenType? (source : List Char) (kind : Declaration.Kind) (n : Node) : Option Written :=
  (n.child? .name).map fun c => ⟨kind, c.text source, n.range, n.typeOutline source⟩

mutual
/-- What a node in the body of a type brings to the type. Constructors have no name of their own. -/
def written (source : List Char) (T : Declaration) : Node → List Written
  | .mk k role e cs =>
    let n : Node := .mk k role e cs
    match k with
    | .methodDeclaration | .elementDeclaration => (n.writtenMethod? source).toList
    | .fieldDeclaration => n.writtenFields source
    | .enumConstant =>
      if T.kind == .enumType then (n.writtenConstant? source T.id).toList else []
    | .enumMembers => writtenIn source T cs
    | _ =>
      match typeKind? k with
      | some kind => (n.writtenType? source kind).toList
      | none => []

def writtenIn (source : List Char) (T : Declaration) : List Node → List Written
  | [] => []
  | n :: ns => n.written source T ++ writtenIn source T ns
end

def members (source : List Char) (T : Declaration) (n : Node) : List Written :=
  match n.child? .body with
  | some b => writtenIn source T b.children
  | none => []

end Node

/-- The declaration of a type was read from this node. -/
structure ReadFrom (source : List Char) (path : Path) (T : Declaration) (n : Node) : Prop where
  kind : typeKind? n.kind = some T.kind
  name : (n.child? .name).map (·.text source) = some T.name
  location : T.location = some ⟨path, n.range, ⟨n.typeOutline source, []⟩⟩

/-- No type in the body has the name of a field or method, and no field is declared twice. -/
structure Apart (ws : List Written) : Prop where
  types : ∀ t ∈ ws, ∀ w ∈ ws, t.kind.isType = true → w.kind.isType = false → t.name ≠ w.name
  fields : ((ws.filter (·.kind == .field)).map (·.name)).Nodup

instance (ws : List Written) : Decidable (Apart ws) :=
  decidable_of_iff ((∀ t ∈ ws, ∀ w ∈ ws, t.kind.isType = true → w.kind.isType = false →
    t.name ≠ w.name) ∧ ((ws.filter (·.kind == .field)).map (·.name)).Nodup)
    ⟨fun h => ⟨h.1, h.2⟩, fun h => ⟨h.types, h.fields⟩⟩

def called (ws : List Written) (kind : Declaration.Kind) (name : String) : List Written :=
  ws.filter fun w => w.kind == kind && w.name == name

/-- The name of a member: a method gives its plain name up to a field. -/
def settledId (owner : QName) (ws : List Written) (kind : MemberKind) (name : String) : QName :=
  if kind = .method ∧ called ws .field name ≠ [] then (owner.member name).methodAlias
  else owner.member name

/-- The one declaration that stands for all members of a kind and a name. -/
def merged (s : SourceText) (owner : QName) (ws : List Written) (kind : MemberKind)
    (name : String) : Option Declaration :=
  match called ws kind.kind name with
  | [] => none
  | first :: rest =>
    some
      { id := settledId owner ws kind name
        name
        kind := kind.kind
        origin := .project s.provenance.module
        scope := s.provenance.scope
        parent := some owner
        location := some
          ⟨s.path, first.range, ⟨first.outline, rest.map fun w => ⟨w.outline, []⟩⟩⟩ }

def Written.alone (s : SourceText) (owner : QName) (w : Written) : Declaration :=
  { id := owner.member w.name
    name := w.name
    kind := w.kind
    origin := .project s.provenance.module
    scope := s.provenance.scope
    parent := some owner
    location := some ⟨s.path, w.range, ⟨w.outline, []⟩⟩ }

section

variable {s : SourceText} {owner : QName} {ws : List Written} {w : Written} {kind : MemberKind}
  {name : String} {d : Declaration}

theorem Apart.left {ws' : List Written} (h : Apart (ws ++ ws')) : Apart ws where
  types t ht w hw := h.types t (List.mem_append_left _ ht) w (List.mem_append_left _ hw)
  fields := by
    have hboth := h.fields
    rw [List.filter_append, List.map_append] at hboth
    exact (List.nodup_append.mp hboth).1

theorem Apart.new_field (h : Apart (ws ++ [w])) (hw : w.kind = .field) :
    called ws .field w.name = [] := by
  have hboth := h.fields
  have hlast : [w].filter (·.kind == .field) = [w] := by simp [hw]
  rw [List.filter_append, List.map_append, hlast] at hboth
  refine List.filter_eq_nil_iff.mpr fun v hv hcalled => ?_
  rw [Bool.and_eq_true, beq_iff_eq, beq_iff_eq] at hcalled
  have hmem : v.name ∈ (ws.filter (·.kind == .field)).map (·.name) :=
    List.mem_map_of_mem (List.mem_filter.mpr ⟨hv, by simp [hcalled.1]⟩)
  exact (List.nodup_append.mp hboth).2.2 v.name hmem w.name (by simp) hcalled.2

theorem called_append (ws ws' : List Written) (kind : Declaration.Kind) (name : String) :
    called (ws ++ ws') kind name = called ws kind name ++ called ws' kind name :=
  List.filter_append ..

theorem called_self (w : Written) : called [w] w.kind w.name = [w] := by simp [called]

theorem called_other {kind : Declaration.Kind} (h : w.kind ≠ kind ∨ w.name ≠ name) :
    called [w] kind name = [] := by
  refine List.filter_eq_nil_iff.mpr fun v hv hcalled => ?_
  rw [Bool.and_eq_true, beq_iff_eq, beq_iff_eq, List.mem_singleton.mp hv] at hcalled
  rcases h with h | h
  · exact h hcalled.1
  · exact h hcalled.2

theorem merged_eq_none_iff :
    merged s owner ws kind name = none ↔ called ws kind.kind name = [] := by
  unfold merged
  split <;> simp [*]

theorem called_ne_nil (h : merged s owner ws kind name = some d) :
    called ws kind.kind name ≠ [] := by
  intro hnone
  rw [merged_eq_none_iff.mpr hnone] at h
  cases h

/-- What is declared was written, and is called as it should be. -/
theorem merged_some (h : merged s owner ws kind name = some d) :
    d.name = name ∧ d.kind = kind.kind ∧ d.parent = some owner ∧
      d.id = settledId owner ws kind name ∧ ∃ w ∈ ws, w.kind = kind.kind ∧ w.name = name := by
  unfold merged at h
  split at h
  · cases h
  · rename_i first rest hcalled
    obtain rfl := Option.some.inj h
    have hfirst : first ∈ called ws kind.kind name := hcalled ▸ List.mem_cons_self
    obtain ⟨hmem, hfits⟩ := List.mem_filter.mp hfirst
    rw [Bool.and_eq_true, beq_iff_eq, beq_iff_eq] at hfits
    exact ⟨rfl, rfl, rfl, rfl, first, hmem, hfits⟩

theorem merged_append_other (h : w.kind ≠ kind.kind ∨ w.name ≠ name)
    (hfield : kind = .method → w.kind ≠ .field ∨ w.name ≠ name) :
    merged s owner (ws ++ [w]) kind name = merged s owner ws kind name := by
  have hid : settledId owner (ws ++ [w]) kind name = settledId owner ws kind name := by
    unfold settledId
    by_cases hkind : kind = .method
    · rw [called_append, called_other (hfield hkind), List.append_nil]
    · simp [hkind]
  unfold merged
  rw [called_append, called_other h, List.append_nil, hid]

theorem merged_append_of_name_ne (h : w.name ≠ name) :
    merged s owner (ws ++ [w]) kind name = merged s owner ws kind name :=
  merged_append_other (Or.inr h) fun _ => Or.inr h

theorem merged_append_new (hkind : w.kind = kind.kind)
    (hnew : merged s owner ws kind w.name = none) :
    merged s owner (ws ++ [w]) kind w.name =
      some { w.alone s owner with id := settledId owner ws kind w.name } := by
  have hid : settledId owner (ws ++ [w]) kind w.name = settledId owner ws kind w.name := by
    unfold settledId
    by_cases hmethod : kind = .method
    · have hother : w.kind ≠ .field := by
        rw [hkind, hmethod]
        decide
      rw [called_append, called_other (Or.inl hother), List.append_nil]
    · simp [hmethod]
  unfold merged
  rw [called_append, merged_eq_none_iff.mp hnew, ← hkind, called_self, hid]
  rfl

theorem merged_append_overload (hkind : w.kind = .method)
    (hold : merged s owner ws .method w.name = some d) :
    merged s owner (ws ++ [w]) .method w.name = some (d.withOverload ⟨w.outline, []⟩) := by
  have hid : settledId owner (ws ++ [w]) .method w.name = settledId owner ws .method w.name := by
    unfold settledId
    rw [called_append, called_other (Or.inl (by rw [hkind]; decide)), List.append_nil]
  unfold merged at hold
  split at hold
  · cases hold
  · rename_i first rest hcalled
    obtain rfl := Option.some.inj hold
    have hmore : called (ws ++ [w]) MemberKind.method.kind w.name = first :: (rest ++ [w]) := by
      rw [called_append, hcalled, show MemberKind.method.kind = w.kind from hkind.symm, called_self,
        List.cons_append]
    unfold merged
    rw [hmore, hid]
    simp [Declaration.withOverload]

theorem merged_append_field (hkind : w.kind = .field) :
    merged s owner (ws ++ [w]) .method w.name = (merged s owner ws .method w.name).map
      fun d => { d with id := (owner.member w.name).methodAlias } := by
  have hid : settledId owner (ws ++ [w]) .method w.name = (owner.member w.name).methodAlias := by
    unfold settledId
    rw [called_append, ← hkind, called_self]
    simp
  unfold merged
  rw [called_append, called_other (Or.inl (by rw [hkind]; decide)), List.append_nil, hid]
  split <;> rfl

end

end Carve.Java
