import Carve.Proofs.Java.CtorCalls
import Carve.Proofs.Java.Innermost
import Carve.Proofs.Java.Lookup

/-!
# Final fields without a value

A stub of a constructor has to give a value to every final field of the written type that has none.
The writer tells such fields by their outlines. The outline of a field that is declared alone tells
whether it has a value; that of a field declared with others does not, and all the others are
written with it, planned or not. So the stubs are right about fields declared alone, and about
shared declarations of which just the names without a value are planned.
-/

namespace Carve

namespace Java

open Text

/-! ### Field declarations in the tree -/

/-- The field declaration that stands there. -/
def fieldNode? {source : List Char} (t : Tree source) (s : Span) : Option Node :=
  (Node.nodesIn t.root.children).find? fun n =>
    n.kind == .fieldDeclaration && n.span == s && !(n.childrenIn .declarator).isEmpty

/-- The names that a field declaration introduces, and whether it gives them a value. -/
def Node.variables (source : List Char) (n : Node) : List (String × Bool) :=
  (n.childrenIn .declarator).filterMap fun d =>
    (d.child? .name).map fun c => (c.text source, (d.child? .value).isSome)

section

variable {source : List Char} {t : Tree source} {n d c : Node} {name : String} {o : Outline}

theorem InTree.forked (h : InTree t n) (hk : n.kind = .fieldDeclaration)
    (hd : d ∈ n.childrenIn .declarator) : n.Forked := by
  obtain ⟨hmem, hrole⟩ := List.mem_filter.mp hd
  have hfits := h.laid.fits
  rw [hk] at hfits
  obtain ⟨mark, hmark, hnone, -⟩ := hfits
  refine ⟨d, hmem, mark, hmark, ?_⟩
  rintro rfl
  rw [hnone] at hrole
  cases hrole

theorem fieldNode?_eq (h : InTree t n) (hk : n.kind = .fieldDeclaration)
    (hd : d ∈ n.childrenIn .declarator) : fieldNode? t n.span = some n := by
  unfold fieldNode?
  cases hfind : (Node.nodesIn t.root.children).find? fun m =>
      m.kind == .fieldDeclaration && m.span == n.span && !(m.childrenIn .declarator).isEmpty with
  | none =>
    have hnot := List.find?_eq_none.mp hfind n h
    simp [hk, List.ne_nil_of_mem hd] at hnot
  | some m =>
    have hm := List.find?_some hfind
    simp only [Bool.and_eq_true, beq_iff_eq, Bool.not_eq_true', List.isEmpty_eq_false_iff] at hm
    obtain ⟨⟨hmk, hspan⟩, hne⟩ := hm
    obtain ⟨d', hd'⟩ := List.exists_mem_of_ne_nil _ hne
    have hmtree : InTree t m := List.mem_of_find?_eq_some hfind
    rw [hmtree.eq_of_span h (hmtree.forked hmk hd') (h.forked hk hd) hspan]

/-- A field was read from a declarator of the node. -/
structure DeclaredBy {source : List Char} (t : Tree source) (name : String) (o : Outline)
    (n d c : Node) : Prop where
  tree : InTree t n
  kind : n.kind = .fieldDeclaration
  declarator : d ∈ n.childrenIn .declarator
  named : d.child? .name = some c
  text : name = c.text source
  outline : o = n.fieldOutline source d c (n.childrenIn .declarator).length

theorem Gives.of_field {kind : Declaration.Kind} (h : Gives source n kind name o)
    (htree : InTree t n) (hkind : kind = .field) :
    (∃ d c, DeclaredBy t name o n d c) ∨
      o.declarators = 1 ∧ o.hasModifier "static" = true ∧ o.initializer = none := by
  cases h with
  | type hk =>
    have htype := (Reader.typeKind?_isType hk).1
    rw [hkind] at htype
    cases htype
  | method => cases hkind
  | ctor => cases hkind
  | field hk hd hname => exact .inl ⟨_, _, htree, hk, hd, hname, rfl, rfl⟩
  | constant => exact .inr ⟨rfl, by simp [Node.constantOutline, Outline.hasModifier], rfl⟩

namespace DeclaredBy

variable (h : DeclaredBy t name o n d c)

include h

theorem span_eq : o.span = n.span := by
  rw [h.outline]
  rfl

theorem node : fieldNode? t o.span = some n := by
  rw [h.span_eq]
  exact fieldNode?_eq h.tree h.kind h.declarator

theorem declarators : o.declarators = (n.childrenIn .declarator).length := by
  rw [h.outline]
  rfl

theorem hasModifier (modifier : String) :
    o.hasModifier modifier = (n.modifierTexts source).contains modifier := by
  rw [h.outline]
  rfl

theorem mem_variables : (name, (d.child? .value).isSome) ∈ n.variables source := by
  refine List.mem_filterMap.mpr ⟨d, h.declarator, ?_⟩
  rw [h.named, h.text]
  rfl

theorem variables_of_alone (halone : o.declarators = 1) :
    n.variables source = [(name, (d.child? .value).isSome)] := by
  rw [h.declarators] at halone
  obtain ⟨d', hd'⟩ := List.length_eq_one_iff.mp halone
  have hmem := h.declarator
  rw [hd'] at hmem
  obtain rfl := List.mem_singleton.mp hmem
  unfold Node.variables
  rw [hd', List.filterMap_cons, h.named, h.text]
  rfl

/-- The outline tells of a final field that is declared alone whether it has a value, and takes any
other for one that has none. -/
theorem isBlankFinal_iff : o.isBlankFinal = true ↔ o.hasModifier "final" = true ∧
    (o.declarators = 1 → (d.child? .value).isSome = false) := by
  have hinitializer : o.initializer.isNone = true ↔
      (o.declarators = 1 → (d.child? .value).isSome = false) := by
    rw [h.outline]
    unfold Node.fieldOutline
    dsimp only
    split
    · rename_i hone hvalue
      simp [hone, hvalue]
    · rename_i hother
      simp only [Option.isNone_none, true_iff]
      intro hone
      cases hvalue : d.child? .value with
      | none => rfl
      | some v => exact absurd hvalue (hother v hone)
  unfold Outline.isBlankFinal
  rw [Bool.and_eq_true, hinitializer]

end DeclaredBy

end

/-! ### The text of a field -/

section

variable {source : List Char} {t : Tree source} {style : Placeholder}
  {enclosing : Option Enclosing} {n : Node} {p : Piece} {o : Outline}

theorem InTree.ends (h : InTree t n) (hk : n.kind = .fieldDeclaration) :
    ∃ head, n.text source = head ++ ";" := by
  have hlaid := h.laid
  have hfits := hlaid.fits
  rw [hk] at hfits
  obtain ⟨mark, hmark, -, hstop, htells⟩ := hfits
  obtain ⟨whole, hwhole⟩ :=
    slice?_of_cuts hlaid.cuts.1 hlaid.cuts.2 (Nat.le_of_lt hlaid.nonempty)
  have hpart : slice? source mark.span.start n.span.stop = some ";".toList := by
    rw [show n.span.stop = mark.span.stop from congrArg Mark.offset hstop.symm]
    exact htells
  obtain ⟨head, rfl⟩ :=
    slice?_suffix_slice? hwhole hpart ((Stands.children hlaid).bounds mark hmark).1
  refine ⟨String.ofList head, ?_⟩
  unfold Node.text
  rw [hwhole, ← String.toList_inj]
  simp

theorem settleField_of_settled (h : Settled o) (head : String) :
    settleField o (head ++ ";") = trimmedEnd head ++ " = " ++ fieldDefault o ++ ";" := by
  obtain ⟨hblank, hstatic, hone⟩ := h
  have htrim : trimEnd (head ++ ";").toList = head.toList ++ [';'] := by
    rw [String.toList_append]
    exact dropEndWhile_concat (by decide) _
  have hstrip : stripEnd [';'] (head.toList ++ [';']) = some head.toList := by
    simp [stripEnd, stripStart]
  unfold settleField
  rw [if_pos (by simp [hblank, hstatic, hone]), htrim, hstrip]
  simp

theorem emit_final (hkind : p.decl.kind = .field) (hmode : p.mode ≠ .shell)
    (hsingle : p.decl.outlines = [o]) (hfinal : o.hasModifier "final" = true) :
    emit source style enclosing p = settleField o (sliceOf source o.span) := by
  obtain ⟨d, mode, children⟩ := p
  dsimp only at hkind hmode hsingle
  cases hplace : d.location with
  | none => simp [Declaration.outlines, hplace] at hsingle
  | some place =>
    have hown : place.layout.own = o := Declaration.own_eq_of_outlines hplace hsingle
    have hmore : place.layout.overloads.map (·.own) = [] := by
      simp only [Declaration.outlines, hplace, List.cons.injEq] at hsingle
      exact hsingle.2
    cases mode with
    | shell => exact absurd rfl hmode
    | full =>
      unfold emit
      simp [hplace, hkind, hown]
    | stub =>
      have hstub : stubField source o (enclosing.map (·.kind)) = sliceOf source o.span := by
        unfold stubField
        split
        · simp [hfinal]
        · rfl
      unfold emit
      simp [hplace, hkind, Declaration.Kind.isType, withOverloads, hmore, hown, stubMember, hstub,
        joined, join]

end

/-! ### Fields among the members of a type -/

/-- A field that its constructors have to assign unless it has a value. -/
def InstanceFinal (p : Piece) : Prop :=
  p.decl.kind = .field ∧ ∃ o, p.decl.outline? = some o ∧ o.hasModifier "final" = true ∧
    o.hasModifier "static" = false

/-- What is introduced by the declaration that a field is written with. -/
def introduced {source : List Char} (t : Tree source) (p : Piece) : List (String × Bool) :=
  if p.decl.kind = .field then
    ((p.span?.bind (fieldNode? t)).map (·.variables source)).getD []
  else []

/-- The final fields without a value among what is written. -/
def BlankIn {source : List Char} (t : Tree source) (ps : List Piece) (x : String) : Prop :=
  ∃ q ∈ ps, InstanceFinal q ∧ (x, false) ∈ introduced t q

/-- Distinct members of a type, with no field declared twice in what is written of them. -/
structure Selected (s : SourceTree) (T : Entry) (constants : Option Span)
    (children : List Piece) : Prop where
  around : constants = T.decl.outline?.bind (·.constants)
  distinct : (children.map (·.decl.id)).Nodup
  members : ∀ p ∈ children, ∃ D ∈ s.read.entries, D.decl = p.decl ∧ D.decl.parent = some T.decl.id
  modes : ∀ p ∈ children, p.decl.kind = .field → p.mode ≠ .shell
  single : ∀ p ∈ children, p.decl.kind = .field → ∃ o, p.decl.outlines = [o]
  once : (((shown constants [] children).flatMap (introduced s.tree)).map (·.1)).Nodup

/-- Of every shared declaration of final fields that is written just the names without a value are
planned. -/
def Evenly {source : List Char} (t : Tree source) (constants : Option Span)
    (children : List Piece) : Prop :=
  ∀ q ∈ shown constants [] children, InstanceFinal q →
    (∀ o, q.decl.outline? = some o → o.declarators ≠ 1) →
    ∀ x b, (x, b) ∈ introduced t q →
      (b = false ↔ ∃ p ∈ children, p.decl.kind = .field ∧ p.span? = q.span? ∧ p.decl.name = x)

section

variable {s : SourceTree} {T : Entry} {constants : Option Span}
  {children : List Piece} {p q : Piece} {o : Outline} {n d c : Node}

theorem span?_of_outline (h : p.decl.outline? = some o) : p.span? = some o.span := by
  simp [Piece.span?, h]

theorem outline_mem (h : p.decl.outline? = some o) : o ∈ p.decl.outlines := by
  obtain ⟨place, hplace, rfl⟩ := Option.map_eq_some_iff.mp h
  exact Declaration.own_mem_outlines hplace

structure FieldOf {source : List Char} (t : Tree source) (n : Node) (p : Piece) (o : Outline)
    (d c : Node) : Prop where
  kind : p.decl.kind = .field
  outline : p.decl.outline? = some o
  declared : DeclaredBy t p.decl.name o n d c

namespace FieldOf

variable {source : List Char} {t : Tree source} (h : FieldOf t n p o d c)

include h

theorem span? : p.span? = some n.span := by
  rw [span?_of_outline h.outline, h.declared.span_eq]

theorem introduced : introduced t p = n.variables source := by
  unfold Java.introduced
  rw [if_pos h.kind, span?_of_outline h.outline, Option.bind_some, h.declared.node]
  rfl

theorem instanceFinal_iff : InstanceFinal p ↔ (n.modifierTexts source).contains "final" = true ∧
    (n.modifierTexts source).contains "static" = false := by
  unfold InstanceFinal
  rw [← h.declared.hasModifier, ← h.declared.hasModifier]
  constructor
  · rintro ⟨-, o', ho', hmodifiers⟩
    obtain rfl := Option.some.inj (h.outline.symm.trans ho')
    exact hmodifiers
  · exact fun hmodifiers => ⟨h.kind, o, h.outline, hmodifiers⟩

theorem blank_iff (hinstance : InstanceFinal p) :
    (∃ o', p.decl.outline? = some o' ∧ o'.isBlankFinal = true) ↔
      (o.declarators = 1 → (d.child? .value).isSome = false) := by
  have hfinal := (h.instanceFinal_iff.mp hinstance).1
  rw [← h.declared.hasModifier] at hfinal
  constructor
  · rintro ⟨o', ho', hblank⟩
    obtain rfl := Option.some.inj (h.outline.symm.trans ho')
    exact (h.declared.isBlankFinal_iff.mp hblank).2
  · exact fun hvalue => ⟨o, h.outline, h.declared.isBlankFinal_iff.mpr ⟨hfinal, hvalue⟩⟩

variable {o' : Outline} {d' c' : Node} (k : FieldOf t n q o' d' c')

include k

theorem span?_eq : q.span? = p.span? := k.span?.trans h.span?.symm

theorem declarators_eq : o'.declarators = o.declarators :=
  k.declared.declarators.trans h.declared.declarators.symm

theorem instanceFinal (hinstance : InstanceFinal p) : InstanceFinal q :=
  k.instanceFinal_iff.mpr (h.instanceFinal_iff.mp hinstance)

end FieldOf

/-- Two members of a type at one place are names of one declaration. -/
theorem beside_of_ne {D E : Entry} (hD : D ∈ s.read.entries) (hE : E ∈ s.read.entries)
    (hne : D ≠ E) (hparent : D.decl.parent = E.decl.parent) {o o' : Outline}
    (ho : o ∈ D.decl.outlines) (ho' : o' ∈ E.decl.outlines) :
    Beside D.decl.kind o E.decl.kind o' := by
  obtain ⟨i, hi⟩ := List.mem_iff_getElem?.mp hD
  obtain ⟨j, hj⟩ := List.mem_iff_getElem?.mp hE
  refine s.placed.beside i j D.decl E.decl (by simp [hi]) (by simp [hj]) ?_ hparent o ho
    o' ho'
  rintro rfl
  exact hne (Option.some.inj (hi.symm.trans hj))

namespace Selected

variable (hs : Selected s T constants children)

include hs

theorem declaredBy (hp : p ∈ children) (hkind : p.decl.kind = .field)
    (ho : p.decl.outline? = some o) : (∃ n d c, DeclaredBy s.tree p.decl.name o n d c) ∨
      o.declarators = 1 ∧ o.hasModifier "static" = true ∧ o.initializer = none := by
  obtain ⟨D, hD, hdecl, -⟩ := hs.members p hp
  obtain ⟨place, hplace, rfl⟩ := Option.map_eq_some_iff.mp ho
  obtain ⟨n, hn, hgives, -⟩ := (s.sprung D hD).own place (hdecl ▸ hplace)
  rw [hdecl] at hgives
  exact (hgives.of_field hn hkind).imp_left fun ⟨d, c, h⟩ => ⟨n, d, c, h⟩

theorem of_span (hp : p ∈ children) (hq : q ∈ children) (h : FieldOf s.tree n p o d c)
    (hspan : q.span? = p.span?) : ∃ o' d' c', FieldOf s.tree n q o' d' c' := by
  obtain ⟨D, hD, hDdecl, hDparent⟩ := hs.members p hp
  obtain ⟨E, hE, hEdecl, hEparent⟩ := hs.members q hq
  by_cases hsame : D = E
  · have hdecl : p.decl = q.decl := by rw [← hDdecl, hsame, hEdecl]
    obtain ⟨hkind, ho, hdeclared⟩ := h
    rw [hdecl] at hkind ho hdeclared
    exact ⟨o, d, c, hkind, ho, hdeclared⟩
  · obtain ⟨o', ho', hspan'⟩ := Option.map_eq_some_iff.mp (hspan.trans h.span?)
    have hbeside := beside_of_ne hD hE hsame (hDparent.trans hEparent.symm)
      (hDdecl ▸ outline_mem h.outline) (hEdecl ▸ outline_mem ho')
    have hlen := h.declared.tree.laid.nonempty
    rcases hbeside with happart | ⟨-, hfield, -, -, hcount⟩
    · unfold Span.Apart at happart
      rw [hspan', h.declared.span_eq] at happart
      omega
    · rw [hEdecl] at hfield
      rcases hs.declaredBy hq hfield ho' with ⟨m, d', c', h'⟩ | ⟨hone, -⟩
      · have hnode := h'.node
        rw [hspan', ← h.declared.span_eq, h.declared.node] at hnode
        obtain rfl := Option.some.inj hnode
        exact ⟨o', d', c', hfield, ho', h'⟩
      · exact absurd hone hcount

theorem fieldOf (hp : p ∈ children) (hinstance : InstanceFinal p) :
    ∃ n o d c, FieldOf s.tree n p o d c := by
  obtain ⟨hkind, o, ho, -, hstatic⟩ := hinstance
  rcases hs.declaredBy hp hkind ho with ⟨n, d, c, h⟩ | ⟨-, hother, -⟩
  · exact ⟨n, o, d, c, hkind, ho, h⟩
  · rw [hstatic] at hother
    cases hother

theorem not_among_constants (hT : T ∈ s.read.entries) (hp : p ∈ children)
    (ho : p.decl.outline? = some o)
    (hstatic : o.hasModifier "static" = false) :
    ∀ k, constants = some k → ¬ k.Encloses o.span := by
  intro k hk hencloses
  obtain ⟨D, hD, hdecl, hparent⟩ := hs.members p hp
  rw [hs.around] at hk
  obtain ⟨t, ht, hconstants⟩ := Option.bind_eq_some_iff.mp hk
  obtain ⟨place, hplace, rfl⟩ := Option.map_eq_some_iff.mp ht
  have hmem : o ∈ D.decl.outlines := hdecl ▸ outline_mem ho
  have hDmem : D.decl ∈ s.read.entries.map (·.decl) := List.mem_map_of_mem hD
  have hisType := s.consistent.isType_of_parent s.distinct hT hD hparent
  have hafter := (s.placed.inside D.decl hDmem T.decl (List.mem_map_of_mem hT) hisType hparent _
    (Declaration.own_mem_outlines hplace) o hmem).2
    k hconstants fun _ => hstatic
  have hlen := (s.placed.outlined D.decl hDmem o hmem).nonempty
  have hstop := hencloses.2
  omega

theorem exists_shown (hT : T ∈ s.read.entries) (hp : p ∈ children) (hinstance : InstanceFinal p)
    (h : FieldOf s.tree n p o d c) :
    ∃ q ∈ shown constants [] children, ∃ o' d' c', FieldOf s.tree n q o' d' c' := by
  have hstatic := (h.instanceFinal_iff.mp hinstance).2
  rw [← h.declared.hasModifier] at hstatic
  rcases shown_cases (span?_of_outline h.outline) children hp
    with ⟨k, hk, hencloses⟩ | hwritten | ⟨q, hq, hqspan⟩
  · exact absurd hencloses (hs.not_among_constants hT hp h.outline hstatic k hk)
  · exact absurd hwritten List.not_mem_nil
  · have hspan : q.span? = p.span? := hqspan.trans (span?_of_outline h.outline).symm
    exact ⟨q, hq, hs.of_span hp (shown_subset _ _ hq) h hspan⟩

theorem introduced_once {x : String} {b b' : Bool} (hp : p ∈ shown constants [] children)
    (hq : q ∈ shown constants [] children) (hx : (x, b) ∈ introduced s.tree p)
    (hx' : (x, b') ∈ introduced s.tree q) : p = q ∧ b = b' := by
  constructor
  · by_contra hne
    have honce := hs.once
    rw [List.map_flatMap, List.nodup_flatMap] at honce
    have hsymm : Std.Symm fun p q : Piece => List.Disjoint
        ((introduced s.tree p).map (·.1)) ((introduced s.tree q).map (·.1)) :=
      ⟨fun _ _ h _ ha hb => h hb ha⟩
    exact honce.2.forall hp hq hne (List.mem_map.mpr ⟨_, hx, rfl⟩) (List.mem_map.mpr ⟨_, hx', rfl⟩)
  · have hsame := List.inj_on_of_nodup_map hs.once (List.mem_flatMap.mpr ⟨p, hp, hx⟩)
      (List.mem_flatMap.mpr ⟨q, hq, hx'⟩) rfl
    exact (Prod.mk.inj hsame).2

end Selected

/-! ### What the stubs of constructors assign -/

theorem mem_blankFinals {kind : Declaration.Kind} {x value : String} :
    (x, value) ∈ (enclosingOf kind children).blankFinals ↔
      ∃ p ∈ children, p.decl.kind = .field ∧ ∃ o, p.decl.outline? = some o ∧
        (o.isBlankFinal = true ∧ o.hasModifier "static" = false) ∧
        p.decl.name = x ∧ fieldDefault o = value := by
  unfold enclosingOf
  simp only [List.mem_filterMap]
  refine exists_congr fun p => and_congr_right fun _ => ?_
  by_cases hkind : p.decl.kind = .field
  · cases ho : p.decl.outline? with
    | none => simp
    | some o =>
      by_cases hblank : o.isBlankFinal = true ∧ o.hasModifier "static" = false <;>
        simp [hkind, hblank]
  · simp [hkind]

namespace Selected

variable (hs : Selected s T constants children)

include hs

/-- No field is assigned twice. -/
theorem nodup_blankFinals (kind : Declaration.Kind) :
    ((enclosingOf kind children).blankFinals.map (·.1)).Nodup := by
  have hnames : children.Pairwise fun p q =>
      p.decl.kind = .field → q.decl.kind = .field → p.decl.name ≠ q.decl.name := by
    refine (List.pairwise_map.mp hs.distinct).imp_of_mem fun hp hq hne hpkind hqkind hname => hne ?_
    have hid : ∀ {r : Piece}, r ∈ children → r.decl.kind = .field →
        r.decl.id = T.decl.id.member r.decl.name := by
      intro r hr hkind
      obtain ⟨D, hD, hdecl, hparent⟩ := hs.members r hr
      obtain ⟨owner, howner, -, hnamed⟩ := s.titled D hD .field (hdecl ▸ hkind)
      obtain rfl := Option.some.inj (howner.symm.trans hparent)
      rw [← hdecl]
      exact hnamed.resolve_right fun h => absurd h.1 (by decide)
    rw [hid hp hpkind, hid hq hqkind, hname]
  unfold enclosingOf
  rw [List.map_filterMap]
  refine List.Pairwise.filterMap _ (fun p q hpq x hx y hy => ?_) hnames
  obtain ⟨⟨_, _⟩, hv, rfl⟩ := Option.map_eq_some_iff.mp hx
  obtain ⟨⟨_, _⟩, hw, rfl⟩ := Option.map_eq_some_iff.mp hy
  rw [Option.ite_none_right_eq_some, beq_iff_eq, Option.bind_eq_some_iff] at hv hw
  obtain ⟨hpkind, o, -, hv⟩ := hv
  obtain ⟨hqkind, o', -, hw⟩ := hw
  rw [Option.ite_none_right_eq_some, Option.some.injEq, Prod.mk.injEq] at hv hw
  rw [← hv.2.1, ← hw.2.1]
  exact hpq hpkind hqkind

omit hs in
theorem mem_blankNames {kind : Declaration.Kind} {x : String} :
    x ∈ (enclosingOf kind children).blankFinals.map (·.1) ↔
      ∃ p ∈ children, InstanceFinal p ∧
        (∃ o, p.decl.outline? = some o ∧ o.isBlankFinal = true) ∧ p.decl.name = x := by
  constructor
  · intro hx
    obtain ⟨⟨x, value⟩, hmem, rfl⟩ := List.mem_map.mp hx
    obtain ⟨p, hp, hkind, o, ho, ⟨hblank, hstatic⟩, hname, -⟩ := mem_blankFinals.mp hmem
    have hfinal := (Bool.and_eq_true_iff.mp hblank).1
    exact ⟨p, hp, ⟨hkind, o, ho, hfinal, hstatic⟩, ⟨o, ho, hblank⟩, hname⟩
  · rintro ⟨p, hp, ⟨hkind, o, ho, -, hstatic⟩, ⟨o', ho', hblank⟩, hname⟩
    obtain rfl := Option.some.inj (ho.symm.trans ho')
    exact List.mem_map.mpr ⟨_, mem_blankFinals.mpr
      ⟨p, hp, hkind, o, ho, ⟨hblank, hstatic⟩, hname, rfl⟩, rfl⟩

theorem evenly_of_names (hT : T ∈ s.read.entries) {kind : Declaration.Kind}
    (hall : ∀ x, x ∈ (enclosingOf kind children).blankFinals.map (·.1) ↔
      BlankIn s.tree (shown constants [] children) x) :
    Evenly s.tree constants children := by
  intro q hq hinstance hshared x b hx
  have hqmem := shown_subset _ _ hq
  obtain ⟨n, o, d, c, hqn⟩ := hs.fieldOf hqmem hinstance
  constructor
  · rintro rfl
    obtain ⟨p, hp, hpinstance, -, rfl⟩ := mem_blankNames.mp ((hall x).mpr ⟨q, hq, hinstance, hx⟩)
    obtain ⟨m, o', d', c', hpm⟩ := hs.fieldOf hp hpinstance
    obtain ⟨q', hq', _, _, _, hqm⟩ := hs.exists_shown hT hp hpinstance hpm
    have hx' := hpm.declared.mem_variables
    rw [← hqm.introduced] at hx'
    obtain ⟨rfl, -⟩ := hs.introduced_once hq hq' hx hx'
    exact ⟨p, hp, hpm.kind, hqm.span?_eq hpm, rfl⟩
  · rintro ⟨p, hp, -, hspan, rfl⟩
    obtain ⟨o', d', c', hpn⟩ := hs.of_span hqmem hp hqn hspan
    have hpinstance := hqn.instanceFinal hpn hinstance
    have hblank := (hpn.blank_iff hpinstance).mpr fun hone =>
      absurd ((hqn.declarators_eq hpn).symm.trans hone) (hshared o hqn.outline)
    obtain ⟨q', hq', -, hx'⟩ :=
      (hall _).mp (mem_blankNames.mpr ⟨p, hp, hpinstance, hblank, rfl⟩)
    exact (hs.introduced_once hq hq' hx hx').2

theorem blank_of_name (hT : T ∈ s.read.entries) (heven : Evenly s.tree constants children)
    {kind : Declaration.Kind} {x : String}
    (hx : x ∈ (enclosingOf kind children).blankFinals.map (·.1)) :
    BlankIn s.tree (shown constants [] children) x := by
  obtain ⟨p, hp, hinstance, hblank, rfl⟩ := mem_blankNames.mp hx
  obtain ⟨n, o, d, c, hpn⟩ := hs.fieldOf hp hinstance
  obtain ⟨q, hq, o', d', c', hqn⟩ := hs.exists_shown hT hp hinstance hpn
  have hqinstance := hpn.instanceFinal hqn hinstance
  have hx' := hpn.declared.mem_variables
  rw [← hqn.introduced] at hx'
  have hnone : (d.child? .value).isSome = false := by
    by_cases hone : o.declarators = 1
    · exact (hpn.blank_iff hinstance).mp hblank hone
    · refine (heven q hq hqinstance ?_ _ _ hx').mpr ⟨p, hp, hpn.kind, hqn.span?_eq hpn, rfl⟩
      intro o'' ho''
      obtain rfl := Option.some.inj (hqn.outline.symm.trans ho'')
      rw [hpn.declarators_eq hqn]
      exact hone
  exact ⟨q, hq, hqinstance, hnone ▸ hx'⟩

theorem name_of_blank (heven : Evenly s.tree constants children)
    (kind : Declaration.Kind) {x : String}
    (hx : BlankIn s.tree (shown constants [] children) x) :
    x ∈ (enclosingOf kind children).blankFinals.map (·.1) := by
  obtain ⟨q, hq, hinstance, hx⟩ := hx
  have hqmem := shown_subset _ _ hq
  obtain ⟨n, o, d, c, hqn⟩ := hs.fieldOf hqmem hinstance
  by_cases hone : o.declarators = 1
  · rw [hqn.introduced, hqn.declared.variables_of_alone hone, List.mem_singleton,
      Prod.mk.injEq] at hx
    obtain ⟨rfl, hvalue⟩ := hx
    exact mem_blankNames.mpr
      ⟨q, hqmem, hinstance, (hqn.blank_iff hinstance).mpr fun _ => hvalue.symm, rfl⟩
  · have hshared : ∀ o', q.decl.outline? = some o' → o'.declarators ≠ 1 := by
      intro o' ho'
      obtain rfl := Option.some.inj (hqn.outline.symm.trans ho')
      exact hone
    obtain ⟨p, hp, -, hspan, rfl⟩ := (heven q hq hinstance hshared x false hx).mp rfl
    obtain ⟨o', d', c', hpn⟩ := hs.of_span hqmem hp hqn hspan
    have hpinstance := hqn.instanceFinal hpn hinstance
    refine mem_blankNames.mpr ⟨p, hp, hpinstance, (hpn.blank_iff hpinstance).mpr ?_, rfl⟩
    exact fun hone' => absurd ((hqn.declarators_eq hpn).symm.trans hone') hone

/-- The names that are to be assigned are those of the final fields without a value exactly if of
every shared declaration just those are planned. -/
theorem blankNames_iff (hT : T ∈ s.read.entries) (kind : Declaration.Kind) :
    (∀ x, x ∈ (enclosingOf kind children).blankFinals.map (·.1) ↔
      BlankIn s.tree (shown constants [] children) x) ↔
      Evenly s.tree constants children :=
  ⟨fun hall => hs.evenly_of_names hT hall, fun heven _ =>
    ⟨fun hx => hs.blank_of_name hT heven hx, fun hx => hs.name_of_blank heven kind hx⟩⟩

end Selected

end

def assignedBy (source : List Char) (o : Outline) (e : Enclosing) : List (String × String) :=
  if delegates source o then [] else e.blankFinals

/-- The stub assigns every final field without a value among what is written once, and no other. -/
def AssignsBlanks {source : List Char} (t : Tree source) (o : Outline) (e : Enclosing)
    (ps : List Piece) : Prop :=
  ((assignedBy source o e).map (·.1)).Nodup ∧
    ∀ x, x ∈ (assignedBy source o e).map (·.1) ↔ BlankIn t ps x

/-- How a type is written around some of its members. -/
structure Trims {source : List Char} (t : Tree source) (style : Placeholder) (T : Declaration)
    (constants : Option Span) (children : List Piece) : Prop where
  text : ∀ enclosing mode place body, mode ≠ .full → T.location = some place →
    place.layout.own.body = some body → emit source style enclosing ⟨T, mode, children⟩ =
      headerOf source place.layout.own body ++ " \x7b\n" ++
        constantsText source T.kind place.layout.own
          (indentAt source place.layout.own.span.start) ++
        ((shown constants [] children).map
          (lineOf source style (enclosingOf T.kind children))).foldr (· ++ ·) "" ++
        indentAt source place.layout.own.span.start ++ "\x7d"
  /-- A final field is written as it stands, but a static one that is declared alone without a
  value is written with one. -/
  finals : ∀ q ∈ shown constants [] children, ∀ o n, q.decl.kind = .field →
    q.decl.outline? = some o → o.hasModifier "final" = true →
    fieldNode? t o.span = some n →
    ¬ Settled o ∧ emit source style (some (enclosingOf T.kind children)) q = n.text source ∧
        (o.hasModifier "static" = true → o.declarators = 1 →
          ∀ x ∈ n.variables source, x.2 = true) ∨
      Settled o ∧ ∃ head, n.text source = head ++ ";" ∧
        emit source style (some (enclosingOf T.kind children)) q =
          trimmedEnd head ++ " = " ++ fieldDefault o ++ ";"
  stubs : ∀ q ∈ shown constants [] children, q.decl.kind = .ctor → q.mode = .stub →
    ∀ o ∈ q.decl.outlines, Occurs (stubCtor source style o (some (enclosingOf T.kind children)))
      (emit source style (some (enclosingOf T.kind children)) q)
  statements : ∀ o, ∃ last, (last = [] ∨ last = [unsupported]) ∧
    ctorStatements source style o (some (enclosingOf T.kind children)) =
      o.ctorCall.toList.map (sliceOf source) ++
        (assignedBy source o (enclosingOf T.kind children)).map
          (fun a => "this." ++ a.1 ++ " = " ++ a.2 ++ ";") ++ last
  values : ∀ o x value, (x, value) ∈ assignedBy source o (enclosingOf T.kind children) →
    ∃ p ∈ children, p.decl.name = x ∧ ∃ o', p.decl.outline? = some o' ∧ fieldDefault o' = value
  /-- A stub that is taken for one that delegates assigns nothing; any other assigns what it should
  exactly if the shared declarations are planned so. -/
  assigns : ∀ o, AssignsBlanks t o (enclosingOf T.kind children)
      (shown constants [] children) ↔
    delegates source o = true ∧ (∀ x, ¬ BlankIn t (shown constants [] children) x) ∨
      delegates source o = false ∧ Evenly t constants children

section

variable {s : SourceTree} {T : Entry} {constants : Option Span}
  {children : List Piece} {q : Piece} {o : Outline} {n : Node}

theorem Selected.finals (hs : Selected s T constants children)
    (style : Placeholder) (e : Enclosing) (hq : q ∈ children) (hkind : q.decl.kind = .field)
    (ho : q.decl.outline? = some o) (hfinal : o.hasModifier "final" = true)
    (hn : fieldNode? s.tree o.span = some n) :
    ¬ Settled o ∧ emit s.text.toList style (some e) q = n.text s.text.toList ∧
        (o.hasModifier "static" = true → o.declarators = 1 →
          ∀ x ∈ n.variables s.text.toList, x.2 = true) ∨
      Settled o ∧ ∃ head, n.text s.text.toList = head ++ ";" ∧
        emit s.text.toList style (some e) q =
          trimmedEnd head ++ " = " ++ fieldDefault o ++ ";" := by
  obtain ⟨o', hsingle⟩ := hs.single q hq hkind
  obtain rfl : o = o' := by
    have hmem := outline_mem ho
    rw [hsingle] at hmem
    exact List.mem_singleton.mp hmem
  have hfound := List.find?_some hn
  simp only [Bool.and_eq_true, beq_iff_eq] at hfound
  obtain ⟨⟨hnk, hspan⟩, -⟩ := hfound
  have htree : InTree s.tree n := List.mem_of_find?_eq_some hn
  have htext : emit s.text.toList style (some e) q = settleField o (n.text s.text.toList) := by
    rw [emit_final hkind (hs.modes q hq hkind) hsingle hfinal, ← hspan, sliceOf_span]
  rw [htext]
  by_cases hsettled : Settled o
  · obtain ⟨head, hhead⟩ := htree.ends hnk
    refine .inr ⟨hsettled, head, hhead, ?_⟩
    rw [hhead, settleField_of_settled hsettled]
  · refine .inl ⟨hsettled, settleField_eq hsettled _, fun hstatic hone => ?_⟩
    have hvalue : o.isBlankFinal ≠ true := fun hblank => hsettled ⟨hblank, hstatic, hone⟩
    rcases hs.declaredBy hq hkind ho with ⟨m, d, c, h⟩ | ⟨-, -, hnone⟩
    · obtain rfl := Option.some.inj (hn.symm.trans h.node)
      rw [ne_eq, h.isBlankFinal_iff] at hvalue
      rw [h.variables_of_alone hone]
      intro x hx
      obtain rfl := List.mem_singleton.mp hx
      by_contra hnone
      exact hvalue ⟨hfinal, fun _ => by simpa using hnone⟩
    · exact absurd (by simp [Outline.isBlankFinal, hfinal, hnone]) hvalue

theorem blanks_assigned_iff (hT : T ∈ s.read.entries)
    (hs : Selected s T constants children) (kind : Declaration.Kind) (o : Outline) :
    AssignsBlanks s.tree o (enclosingOf kind children) (shown constants [] children) ↔
      delegates s.text.toList o = true ∧
          (∀ x, ¬ BlankIn s.tree (shown constants [] children) x) ∨
        delegates s.text.toList o = false ∧ Evenly s.tree constants children := by
  rw [← hs.blankNames_iff hT kind]
  unfold AssignsBlanks assignedBy
  cases hdelegates : delegates s.text.toList o with
  | true => simp
  | false => simpa using fun _ => hs.nodup_blankFinals kind

/-- A type that is trimmed to some of its members is written around them with their final fields as
they stand. The stub of a constructor assigns the final fields without a value, each once, unless
it is taken for one that delegates or a declaration of several final fields is written of which not
just the names without a value are planned. -/
theorem stubs_assign_blank_finals (hT : T ∈ s.read.entries)
    (htype : T.decl.kind = .classType ∨ T.decl.kind = .enumType)
    (hs : Selected s T constants children) (style : Placeholder) :
    Trims s.tree style T.decl constants children where
  text enclosing mode place body hmode hplace hbody := by
    have hconstants : constants = place.layout.own.constants := by
      rw [hs.around, Declaration.outline?_of_location hplace]
      rfl
    have hkind : T.decl.kind.isType = true := by
      rcases htype with hclass | henum
      · rw [hclass]
        rfl
      · rw [henum]
        rfl
    rw [emit_around hplace hmode hkind hbody, emitAll_eq_shown, hconstants]
  finals q hq o n hkind ho hfinal hn :=
    hs.finals style _ (shown_subset _ _ hq) hkind ho hfinal hn
  stubs q hq hkind hmode o ho := by
    obtain ⟨d, mode, inner⟩ := q
    dsimp only at hkind hmode ho
    subst hmode
    cases hplace : d.location with
    | none => simp [Declaration.outlines, hplace] at ho
    | some place =>
      unfold emit
      simp only [hplace, hkind]
      rw [if_pos (by decide)]
      exact occurs_withOverloads hplace ho (stubMember s.text.toList style .ctor _)
  statements o := by
    unfold ctorStatements assignedBy assignments
    cases style with
    | throwing =>
      refine ⟨[unsupported], .inr rfl, ?_⟩
      cases o.ctorCall <;> cases delegates s.text.toList o <;> rfl
    | defaultValue =>
      refine ⟨[], .inl rfl, ?_⟩
      cases o.ctorCall <;> cases delegates s.text.toList o <;> rfl
  values o x value hmem := by
    have hblank : (x, value) ∈ (enclosingOf T.decl.kind children).blankFinals := by
      unfold assignedBy at hmem
      split at hmem
      · cases hmem
      · exact hmem
    obtain ⟨p, hp, -, o', ho', -, hname, hvalue⟩ := mem_blankFinals.mp hblank
    exact ⟨p, hp, hname, o', ho', hvalue⟩
  assigns o := blanks_assigned_iff hT hs T.decl.kind o

end

/-- Two final fields that are declared together, one of them with a value. -/
def halfGiven : SourceText :=
  { path := ⟨"src/T.java"⟩
    text := "class T \x7b final int a, b = 1; T() \x7b a = 0; \x7d \x7d"
    provenance := { module := "m" } }

def halfGivenMembers : List Piece :=
  (halfGiven.read.entries.filter (·.decl.parent == some ⟨"T"⟩)).map fun e =>
    ⟨e.decl, if e.decl.kind == .ctor then .stub else .full, []⟩

/-- Of two final fields that are declared together the stub of the constructor also assigns the one
that has a value. -/
theorem given_value_is_overwritten :
    ∃ T ∈ halfGiven.read.entries, T.decl.kind = .classType ∧
      Selected halfGiven.parsed T none halfGivenMembers ∧
      ∃ m ∈ shown none [] halfGivenMembers, m.decl.kind = .ctor ∧ m.mode = .stub ∧
        ∃ o ∈ m.decl.outlines, delegates halfGiven.text.toList o = false ∧
          ¬ AssignsBlanks halfGiven.parsed.tree o (enclosingOf .classType halfGivenMembers)
            (shown none [] halfGivenMembers) := by
  have htype : ∃ T ∈ halfGiven.read.entries, T.decl.id = ⟨"T"⟩ ∧ T.decl.kind = .classType ∧
      none = T.decl.outline?.bind (·.constants) := by decide +kernel
  obtain ⟨T, hT, hid, hkind, haround⟩ := htype
  have hsingle : ∀ p ∈ halfGivenMembers, p.decl.kind = .field → p.mode ≠ .shell ∧
      p.decl.outlines.length = 1 := by decide +kernel
  have hselected : Selected halfGiven.parsed T none halfGivenMembers :=
    { around := haround
      distinct := by decide +kernel
      members := by
        intro p hp
        obtain ⟨D, hD, rfl⟩ := List.mem_map.mp hp
        obtain ⟨hD, hparent⟩ := List.mem_filter.mp hD
        exact ⟨D, hD, rfl, hid ▸ eq_of_beq hparent⟩
      modes := fun p hp hfield => (hsingle p hp hfield).1
      single := fun p hp hfield => List.length_eq_one_iff.mp (hsingle p hp hfield).2
      once := by decide +kernel }
  have htrims := stubs_assign_blank_finals hT (.inl hkind) hselected .defaultValue
  have hctor : ∃ m ∈ shown none [] halfGivenMembers, m.decl.kind = .ctor ∧ m.mode = .stub ∧
      ∃ o ∈ m.decl.outlines, delegates halfGiven.text.toList o = false := by decide +kernel
  obtain ⟨m, hm, hmkind, hmode, o, ho, hdelegates⟩ := hctor
  refine ⟨T, hT, hkind, hselected, m, hm, hmkind, hmode, o, ho, hdelegates, fun hassigns => ?_⟩
  have hshared : ∃ q ∈ shown none [] halfGivenMembers, ∃ p ∈ halfGivenMembers,
      q.decl.kind = .field ∧
      (∃ o ∈ q.decl.outline?, o.hasModifier "final" = true ∧ o.hasModifier "static" = false ∧
        o.declarators = 2) ∧
      ("b", true) ∈ introduced halfGiven.parsed.tree q ∧
      p.decl.kind = .field ∧ p.span? = q.span? ∧ p.decl.name = "b" := by decide +kernel
  obtain ⟨q, hq, p, hp, hqkind, ⟨s, hs, hfinal, hstatic, htwo⟩, hb, hpkind, hspan, hname⟩ :=
    hshared
  rw [← hkind] at hassigns
  rcases (htrims.assigns o).mp hassigns with ⟨hthis, -⟩ | ⟨-, heven⟩
  · cases hthis.symm.trans hdelegates
  · have hshared' : ∀ s', q.decl.outline? = some s' → s'.declarators ≠ 1 := by
      intro s' hs'
      obtain rfl := Option.some.inj (Eq.trans hs.symm hs')
      rw [htwo]
      decide
    have hblank := (heven q hq ⟨hqkind, s, hs, hfinal, hstatic⟩ hshared' "b" true hb).mpr
      ⟨p, hp, hpkind, hspan, hname⟩
    cases hblank

end Java

end Carve
