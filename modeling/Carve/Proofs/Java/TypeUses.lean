import Carve.Proofs.Java.Hiding

/-!
# Uses of types

A walk finds every type that is written in an expression, a statement or a declaration, unless its
name is hidden: then it begins with a name that was hidden before or with that of a type which is
declared below the same node.
-/

namespace Carve.Java

variable {source : List Char}

/-! ### What a walk passes -/

structure Grows (w w' : Walk) : Prop where
  found : w.found ⊆ w'.found
  hidden : w.hidden ⊆ w'.hidden

namespace Grows

variable {w w' w'' : Walk}

theorem refl (w : Walk) : Grows w w := ⟨List.Subset.refl _, List.Subset.refl _⟩

theorem trans (h : Grows w w') (k : Grows w' w'') : Grows w w'' :=
  ⟨List.Subset.trans h.found k.found, List.Subset.trans h.hidden k.hidden⟩

theorem record (w : Walk) (s : UseSite) : Grows w (w.record s) :=
  ⟨List.subset_cons_self _ _, List.Subset.refl _⟩

end Grows

theorem respects_grows (source : List Char) :
    Respects source (fun _ => True) fun f => ∀ w, Grows w (f w) where
  stay := .refl
  comp hf hg w := (hf w).trans (hg _)
  mention _ n w := by
    unfold mentionType
    dsimp only
    split
    · exact .refl w
    · split
      · exact .refl w
      · exact .record w _
  mark n w := by
    unfold annotationMention
    split
    · exact .record w _
    · exact .refl w
  children _ _ _ := trivial
  lone n w := by
    dsimp only
    split
    · exact .refl w
    · exact .record w _
  call _ _ w := .record w _
  field _ _ w := .record w _
  refer _ _ _ _ _ _ w := .record w _
  declare name type w := by
    unfold Walk.declare
    dsimp only
    split
    · exact .refl w
    · exact ⟨List.Subset.refl _, List.Subset.refl _⟩
  hide _ _ name _ w := ⟨List.Subset.refl _, List.subset_cons_self _ _⟩
  inFrame hf w := ⟨(hf w.enter).found, (hf w.enter).hidden⟩

/-- Somewhere on the way the one step takes the other, and nothing of it is taken back. -/
def Passes (f c : Walk → Walk) : Prop := ∀ w, ∃ w', Grows (c w') (f w)

namespace Passes

variable {f g c : Walk → Walk}

theorem self (f : Walk → Walk) : Passes f f := fun w => ⟨w, .refl _⟩

theorem trans (h : Passes f g) (k : Passes g c) : Passes f c := fun w => by
  obtain ⟨w', hf⟩ := h w
  obtain ⟨w'', hg⟩ := k w'
  exact ⟨w'', hg.trans hf⟩

theorem after (h : Passes g c) (f : Walk → Walk) : Passes (fun w => g (f w)) c := fun w => h (f w)

theorem before (h : Passes f c) (hg : ∀ w, Grows w (g w)) : Passes (fun w => g (f w)) c :=
  fun w => by
    obtain ⟨w', hf⟩ := h w
    exact ⟨w', hf.trans (hg _)⟩

theorem inFrame (h : Passes f c) : Passes (fun w => w.inFrame f) c := fun w => by
  obtain ⟨w', hf⟩ := h w.enter
  exact ⟨w', hf.found, hf.hidden⟩

end Passes

section

variable {ns : List Node} {n c t : Node} {r : Role} {kind : Reference.Kind}

theorem passes_visitParts (hc : c ∈ ns) (hnamed : c.isNamed = true) (hrole : c.role ≠ some .name)
    (skip : Bool) : Passes (visitParts source skip ns) (visit source c) := by
  intro w
  obtain ⟨before, rest, rfl⟩ := List.append_of_mem hc
  obtain ⟨skip', happend⟩ := visitParts_append source skip before (c :: rest) w
  rw [happend, visitParts_cons hnamed hrole]
  exact ⟨_, (respects_grows source).visitParts skip' rest (fun _ _ => trivial) _⟩

theorem passes_visitRole (hc : ns.find? (·.role == some r) = some c) :
    Passes (visitRole source r ns) (visit source c) := by
  intro w
  refine ⟨w, ?_⟩
  induction ns with
  | nil => cases hc
  | cons n ns ih =>
    unfold visitRole
    rw [List.find?_cons] at hc
    split at hc
    · rename_i hrole
      obtain rfl := Option.some.inj hc
      rw [if_pos hrole]
      exact .refl _
    · rename_i hrole
      rw [if_neg (by simpa using hrole)]
      exact ih hc

theorem passes_typeRefsOfRole (ht : ns.find? (·.role == some r) = some t) :
    Passes (typeRefsOfRole source kind r ns) (typeRefs source kind t) := by
  intro w
  unfold typeRefsOfRole
  rw [ht]
  exact ⟨w, .refl _⟩

theorem passes_visitKinds {p : Kind → Bool} (hc : c ∈ ns) (hp : p c.kind = true) :
    Passes (visitKinds source p ns) (visit source c) := by
  intro w
  obtain ⟨before, rest, rfl⟩ := List.append_of_mem hc
  rw [visitKinds_append]
  unfold visitKinds
  rw [if_pos hp]
  exact ⟨_, (respects_grows source).visitKinds p rest (fun _ _ => trivial) _⟩

theorem passes_visitDeclarators (source : List Char) {d : Node} (hd : d ∈ ns)
    (hrole : d.role = some .declarator) (hc : d.child? .value = some c) (type : Option String) :
    Passes (visitDeclarators source type ns) (visit source c) := by
  have hgrows := respects_grows source
  obtain ⟨before, rest, rfl⟩ := List.append_of_mem hd
  obtain ⟨k, role, e, inner⟩ := d
  obtain rfl : role = some .declarator := hrole
  intro w
  rw [visitDeclarators_append]
  unfold visitDeclarators
  simp only [beq_self_eq_true, if_true]
  exact (((passes_visitRole hc).before (hgrows.declareRole .name inner _)).before
    (hgrows.visitDeclarators type rest fun _ _ => trivial)) _

theorem passes_parameterParts (source : List Char) {c : Node}
    (hkind : c.kind ∉ [.token, .modifiers, .identifier, .dimensions, .variableDeclarator]) :
    ∀ (declared : Option String) (ns : List Node), c ∈ ns →
      Passes (fun w => (visitParameterParts source declared ns w).2)
        (typeRefs source .typeUse c)
  | _, [], hc => absurd hc List.not_mem_nil
  | declared, .mk k r e inner :: ns, hc => by
    have hgrows := respects_grows source
    have hrest : ∀ declared, c ∈ ns → Passes (fun w => (visitParameterParts source declared ns w).2)
        (typeRefs source .typeUse c) :=
      fun declared hc => passes_parameterParts source hkind declared ns hc
    have hother : k ∈ [.token, .modifiers, .identifier, .dimensions, .variableDeclarator] →
        c ∈ ns := by
      intro hk
      rcases List.mem_cons.mp hc with rfl | hc
      · exact absurd hk hkind
      · exact hc
    unfold visitParameterParts
    dsimp only
    split
    iterate 4
      · exact hrest declared (hother (by simp))
    · exact (hrest declared (hother (by simp))).after fun w =>
        declareRole source .name inner _ (visitRole source .value inner w)
    · rcases List.mem_cons.mp hc with rfl | hc
      · obtain ⟨type, -, hparts⟩ := hgrows.visitParameterParts
          (declared <|> some (Node.text source (.mk k r e inner))) ns fun _ _ => trivial
        exact (Passes.self (typeRefs source .typeUse (.mk k r e inner))).before hparts
      · exact (hrest _ hc).after (typeRefs source .typeUse (.mk k r e inner))

end

/-! ### Types -/

/-- A use of the type, of some kind, is found on the way. -/
def Uses (source : List Char) (f : Walk → Walk) (t : Node) : Prop :=
  ∃ kind, kind ≠ Reference.Kind.unresolved ∧ Passes f (typeRefs source kind t)

theorem Passes.uses {f g : Walk → Walk} {t : Node} (h : Passes f g) (hg : Uses source g t) :
    Uses source f t := by
  obtain ⟨kind, hk, huses⟩ := hg
  exact ⟨kind, hk, h.trans huses⟩

namespace Uses

variable {f g : Walk → Walk} {t : Node}

theorem self {kind : Reference.Kind} (hk : kind ≠ .unresolved) (t : Node) :
    Uses source (typeRefs source kind t) t := ⟨kind, hk, .self _⟩

theorem after (h : Uses source g t) (f : Walk → Walk) : Uses source (fun w => g (f w)) t := by
  obtain ⟨kind, hk, hpasses⟩ := h
  exact ⟨kind, hk, hpasses.after f⟩

theorem before (h : Uses source f t) (hg : ∀ w, Grows w (g w)) :
    Uses source (fun w => g (f w)) t := by
  obtain ⟨kind, hk, hpasses⟩ := h
  exact ⟨kind, hk, hpasses.before hg⟩

theorem inFrame (h : Uses source f t) : Uses source (fun w => w.inFrame f) t := by
  obtain ⟨kind, hk, hpasses⟩ := h
  exact ⟨kind, hk, hpasses.inFrame⟩

theorem optional {f : Node → Walk → Walk} {part? : Option Node} {c : Node} :
    part? = some c → Uses source (f c) t →
      Uses source (fun w => match part? with | some c => f c w | none => w) t := by
  rintro rfl h
  exact h

end Uses

/-- The part stands in the type: it is the type, or stands in what the type is applied to or bounded
by, or in its elements. -/
inductive InType : Node → Node → Prop
  | itself {t : Node} : InType t t
  | part {t c m : Node} :
      t.kind ∈ [.genericType, .annotatedType, .typeArguments, .wildcard, .typeList, .typeBound,
        .catchType] →
      c ∈ t.named → InType c m → InType t m
  | element {t c m : Node} : t.kind = .arrayType → t.child? .element = some c → InType c m →
      InType t m

theorem passes_typeRefsOf {kind : Reference.Kind} (hk : kind ≠ .unresolved) {c : Node} :
    ∀ {ns : List Node}, c ∈ ns → c.isNamed = true →
      Passes (typeRefsOf source kind ns) (typeRefs source kind c)
  | [], hc, _ => absurd hc List.not_mem_nil
  | n :: ns, hc, hnamed => by
    show Passes (fun w => typeRefsOf source kind (n :: ns) w) _
    unfold typeRefsOf
    rcases List.mem_cons.mp hc with rfl | hc
    · simp only [hnamed, if_true]
      exact (Passes.self _).before ((respects_grows source).typeRefsOf hk ns)
    · exact (passes_typeRefsOf hk hc hnamed).after fun w =>
        if n.isNamed then typeRefs source kind n w else w

theorem passes_typeRefsOfElement {kind : Reference.Kind} {c : Node} :
    ∀ {ns : List Node}, ns.find? (·.role == some .element) = some c →
      Passes (typeRefsOfElement source kind ns) (typeRefs source kind c)
  | [], hc => by cases hc
  | n :: ns, hc => by
    show Passes (fun w => typeRefsOfElement source kind (n :: ns) w) _
    unfold typeRefsOfElement
    rw [List.find?_cons] at hc
    split at hc
    · rename_i hrole
      obtain rfl := Option.some.inj hc
      simp only [hrole, if_true]
      exact .self _
    · rename_i hrole
      simp only [hrole, Bool.false_eq_true, if_false]
      exact passes_typeRefsOfElement hc

theorem InType.uses {t m : Node} (h : InType t m) :
    ∀ kind, kind ≠ Reference.Kind.unresolved → Uses source (typeRefs source kind t) m := by
  induction h with
  | itself => exact fun kind hk => .self hk _
  | @part t c m hkind hc _ ih =>
    intro kind hk
    obtain ⟨k, r, e, cs⟩ := t
    obtain ⟨hmem, hnamed⟩ := List.mem_filter.mp hc
    have hstep : ∃ kind', kind' ≠ Reference.Kind.unresolved ∧
        Passes (typeRefs source kind (.mk k r e cs)) (typeRefsOf source kind' cs) := by
      replace hkind : k ∈ [.genericType, .annotatedType, .typeArguments, .wildcard, .typeList,
        .typeBound, .catchType] := hkind
      simp only [List.mem_cons, List.not_mem_nil, or_false] at hkind
      show ∃ kind', _ ∧ Passes (fun w => typeRefs source kind (.mk k r e cs) w) _
      rcases hkind with rfl | rfl | rfl | rfl | rfl | rfl | rfl
      all_goals unfold typeRefs
      iterate 2
        · exact ⟨kind, hk, .self _⟩
      all_goals exact ⟨.typeUse, by simp, .self _⟩
    obtain ⟨kind', hk', hpasses⟩ := hstep
    exact (hpasses.trans (passes_typeRefsOf hk' hmem hnamed)).uses (ih kind' hk')
  | @element t c m hkind hc _ ih =>
    intro kind hk
    obtain ⟨k, r, e, cs⟩ := t
    obtain rfl : k = .arrayType := hkind
    refine Passes.uses ?_ (ih kind hk)
    show Passes (fun w => typeRefs source kind (.mk .arrayType r e cs) w) _
    unfold typeRefs
    exact passes_typeRefsOfElement hc

theorem Uses.inside {f : Walk → Walk} {t m : Node} (h : Uses source f t) (ht : InType t m) :
    Uses source f m := by
  obtain ⟨kind, hk, hpasses⟩ := h
  exact hpasses.uses (ht.uses kind hk)

theorem typeRefs_name {m : Node}
    (hm : m.kind = .typeIdentifier ∨ m.kind = .scopedTypeIdentifier) (kind : Reference.Kind)
    (w : Walk) : typeRefs source kind m w = mentionType source kind m w := by
  obtain ⟨k, r, e, cs⟩ := m
  rcases hm with hkind | hkind
  all_goals
    obtain rfl : k = _ := hkind
    unfold typeRefs
    rfl

theorem typeRefs_mark {a : Node} (ha : a.kind = .annotationMark) (kind : Reference.Kind)
    (w : Walk) : typeRefs source kind a w = annotationMention source a w := by
  obtain ⟨k, r, e, cs⟩ := a
  obtain rfl : k = .annotationMark := ha
  unfold typeRefs
  rfl

theorem Passes.foldl {α : Type} {f : Walk → α → Walk} (hf : ∀ w a, Grows w (f w a)) {as : List α}
    {a : α} (ha : a ∈ as) : Passes (fun w => as.foldl f w) fun w => f w a := by
  obtain ⟨before, rest, rfl⟩ := List.append_of_mem ha
  intro w
  refine ⟨before.foldl f w, ?_⟩
  dsimp only
  rw [List.foldl_append, List.foldl_cons]
  exact (respects_grows []).foldl (fun a _ => (hf · a)) _

theorem Passes.mark {f : Walk → Walk} {a : Node} (h : Passes f (annotationMention source a))
    (ha : a.kind = .annotationMark) : Uses source f a := by
  refine ⟨.typeUse, by simp, ?_⟩
  rwa [show typeRefs source .typeUse a = annotationMention source a from
    funext (typeRefs_mark ha .typeUse)]

def Annotated (n a : Node) : Prop :=
  ∃ mods, n.children.find? (·.kind == .modifiers) = some mods ∧ a ∈ mods.children ∧
    a.kind = .annotationMark

theorem Annotated.uses (source : List Char) {n a : Node} (h : Annotated n a) :
    Uses source (modifierAnnotations source n.children) a := by
  obtain ⟨mods, hmods, ha, hkind⟩ := h
  refine Passes.mark ?_ hkind
  show Passes (fun w => modifierAnnotations source n.children w) _
  unfold modifierAnnotations
  simp only [hmods]
  exact Passes.foldl (fun w a => (respects_grows source).mark a w)
    (List.mem_filter.mpr ⟨ha, by simp [hkind]⟩)

/-! ### Where types are written -/

/-- All named parts of a node of this kind are walked, but for a declared name. -/
def ofParts : Kind → Bool
  | .methodInvocation | .fieldAccess | .objectCreation | .methodReference | .identifier
  | .localVariableDeclaration | .fieldDeclaration | .variableDeclarator | .formalParameter
  | .catchParameter | .spreadParameter | .lambda | .enhancedForStatement | .resource
  | .instanceOf | .cast | .classLiteral | .arrayCreation | .annotationMark | .labeledStatement
  | .ctorInvocation | .typeIdentifier | .scopedTypeIdentifier | .genericType | .arrayType
  | .annotatedType | .typeArguments | .typeParameters | .breakStatement | .continueStatement
  | .this | .super | .comment | .scopedIdentifier | .modifiers | .literal | .stringLiteral => false
  | _ => true

def innerRoles : List (Kind × Role) :=
  [(.methodInvocation, .object), (.methodInvocation, .arguments), (.fieldAccess, .object),
    (.objectCreation, .object), (.objectCreation, .arguments), (.variableDeclarator, .value),
    (.lambda, .body), (.enhancedForStatement, .value), (.enhancedForStatement, .body),
    (.instanceOf, .left), (.cast, .value), (.ctorInvocation, .object),
    (.ctorInvocation, .arguments)]

/-- The type or the annotation is written in the syntax. Arguments of annotations, type arguments
before the name of a method that is referred to or before those of another constructor, and the
names of record patterns are not among these, nor are the annotations of types and members inside
of a body, of resources and of the variable of a loop. -/
inductive Writes : Node → Node → Prop
  | itself {t : Node} :
      t.kind ∈ [.typeIdentifier, .scopedTypeIdentifier, .genericType, .arrayType, .annotatedType,
        .typeArguments, .annotationMark] → Writes t t
  | annotated {n a : Node} :
      n.kind ∈ [.localVariableDeclaration, .fieldDeclaration, .formalParameter, .catchParameter,
        .spreadParameter] →
      Annotated n a → Writes n a
  | typed {n t : Node} :
      n.kind ∈ [.localVariableDeclaration, .fieldDeclaration, .enhancedForStatement, .resource,
        .arrayCreation, .objectCreation] →
      n.child? .type = some t → Writes n t
  | parameter {n t : Node} : n.kind ∈ [.formalParameter, .catchParameter, .spreadParameter] →
      t ∈ n.children →
      t.kind ∉ [.token, .modifiers, .identifier, .dimensions, .variableDeclarator] → Writes n t
  | bound {n p t : Node} : n.kind = .typeParameters → p ∈ n.named → t ∈ p.named →
      t.kind = .typeBound ∨ t.kind = .annotationMark → Writes n t
  | arguments {n t : Node} : n.kind ∈ [.methodInvocation, .objectCreation] →
      n.child? .typeArguments = some t → Writes n t
  | cast {n t : Node} : n.kind = .cast → t ∈ n.childrenIn .type → Writes n t
  | test {n t : Node} : n.kind = .instanceOf → n.child? .right = some t → Writes n t
  | literal {n t : Node} : n.kind = .classLiteral → n.children.find? Node.isNamed = some t →
      Writes n t
  | made {n t last : Node} : n.kind = .methodReference → n.children.getLast? = some last →
      last.kind = .token → n.children.find? Node.isNamed = some t → Writes n t
  | part {n c t : Node} : ofParts n.kind = true → c ∈ n.children → c.isNamed = true →
      c.role ≠ some .name → Writes c t → Writes n t
  | inner {n c t : Node} {r : Role} : (n.kind, r) ∈ innerRoles → n.child? r = some c →
      Writes c t → Writes n t
  | value {n d c t : Node} : n.kind ∈ [.localVariableDeclaration, .fieldDeclaration] →
      d ∈ n.children → d.role = some .declarator → d.child? .value = some c → Writes c t →
      Writes n t
  | managed {n c t : Node} : n.kind = .resource → (n.child? .type).isSome →
      n.child? .value = some c → Writes c t → Writes n t
  | shared {n c t : Node} : n.kind = .resource → n.child? .type = none → c ∈ n.children →
      c.isNamed = true → c.role ≠ some .name → Writes c t → Writes n t
  | sized {n c t : Node} : n.kind = .arrayCreation → c ∈ n.children →
      c.kind ∈ [.dimensionsExpr, .arrayInitializer] → Writes c t → Writes n t
  | labeled {n c t : Node} : n.kind = .labeledStatement → c ∈ n.children →
      c.kind ∉ [.token, .identifier] → Writes c t → Writes n t
  | qualifier {n c t last : Node} : n.kind = .methodReference →
      n.children.getLast? = some last → last.kind = .identifier →
      n.children.find? Node.isNamed = some c → Writes c t → Writes n t
  | pattern {n p c t : Node} : n.kind = .instanceOf → n.child? .pattern = some p →
      c ∈ p.children → c.isNamed = true → c.role ≠ some .name → Writes c t → Writes n t
  | anonymous {n b c t : Node} : n.kind = .objectCreation →
      n.children.find? (·.kind == .classBody) = some b → c ∈ b.children → c.isNamed = true →
      c.role ≠ some .name → Writes c t → Writes n t
  | lambda {n ps c t : Node} : n.kind = .lambda → n.child? .parameters = some ps →
      ps.kind ∉ [.identifier, .inferredParameters] → c ∈ ps.children → c.kind ≠ .token →
      Writes c t → Writes n t

section

variable {n c t : Node} {cs : List Node} {role : Option Role} {e : Extent}

theorem passes_part (hn : ofParts n.kind = true) (hc : c ∈ n.children) (hnamed : c.isNamed = true)
    (hrole : c.role ≠ some .name) : Passes (visit source n) (visit source c) := by
  obtain ⟨k, r, e, cs⟩ := n
  have hparts : Passes (visitParts source true cs) (visit source c) :=
    passes_visitParts hc hnamed hrole true
  show Passes (fun w => visit source (.mk k r e cs) w) _
  unfold visit
  split
  all_goals first
    | exact absurd hn Bool.false_ne_true
    | exact hparts
    | exact hparts.inFrame
    | cases textOfRole source .name cs with
      | some name => exact hparts.inFrame.after fun w => w.hide name
      | none => exact hparts.inFrame

/-! Nothing is taken back by what comes after a part. -/

theorem grows_role (r : Role) (cs : List Node) (w : Walk) : Grows w (visitRole source r cs w) :=
  (respects_grows source).visitRole r cs (fun _ _ => trivial) w

theorem grows_types {kind : Reference.Kind} (hk : kind ≠ .unresolved) (r : Role) (cs : List Node)
    (w : Walk) : Grows w (typeRefsOfRole source kind r cs w) :=
  (respects_grows source).typeRefsOfRole hk r cs w

theorem grows_declare (cs : List Node) (type : Option String) (w : Walk) :
    Grows w (declareRole source .name cs type w) :=
  (respects_grows source).declareRole .name cs type w

theorem grows_named (cs : List Node) (type? : Option String) (w : Walk) :
    Grows w (match type? with
      | some type => declareRole source .name cs (some type) w
      | none => w) := by
  cases type? with
  | some type => exact grows_declare cs _ w
  | none => exact .refl w

theorem grows_anonymous (cs : List Node) (w : Walk) : Grows w (visitAnonymousBody source cs w) :=
  (respects_grows source).visitAnonymousBody cs (fun _ _ => trivial) w

theorem grows_pattern (cs : List Node) (w : Walk) : Grows w (visitPattern source cs w) :=
  (respects_grows source).visitPattern cs (fun _ _ => trivial) w

theorem grows_declarators (type : Option String) (cs : List Node) (w : Walk) :
    Grows w (visitDeclarators source type cs w) :=
  (respects_grows source).visitDeclarators type cs (fun _ _ => trivial) w

theorem grows_kinds (p : Kind → Bool) (cs : List Node) (w : Walk) :
    Grows w (visitKinds source p cs w) :=
  (respects_grows source).visitKinds p cs (fun _ _ => trivial) w

theorem passes_inner {r : Role} (hn : (n.kind, r) ∈ innerRoles) (hc : n.child? r = some c) :
    Passes (visit source n) (visit source c) := by
  obtain ⟨k, role, e, cs⟩ := n
  replace hn : (k, r) ∈ innerRoles := hn
  have hvisit : Passes (visitRole source r cs) (visit source c) := passes_visitRole hc
  have htypeUse : Reference.Kind.typeUse ≠ .unresolved := by simp
  show Passes (fun w => visit source (.mk k role e cs) w) _
  simp only [innerRoles, List.mem_cons, List.not_mem_nil, or_false, Prod.mk.injEq] at hn
  rcases hn with ⟨rfl, rfl⟩ | ⟨rfl, rfl⟩ | ⟨rfl, rfl⟩ | ⟨rfl, rfl⟩ | ⟨rfl, rfl⟩ | ⟨rfl, rfl⟩ |
    ⟨rfl, rfl⟩ | ⟨rfl, rfl⟩ | ⟨rfl, rfl⟩ | ⟨rfl, rfl⟩ | ⟨rfl, rfl⟩ | ⟨rfl, rfl⟩ | ⟨rfl, rfl⟩
  all_goals
    unfold visit
    dsimp only
  · exact ((hvisit.after _).before (grows_types htypeUse _ cs)).before (grows_role _ cs)
  · exact hvisit.after _
  · exact hvisit.after _
  · exact (((hvisit.before (grows_types (by simp) .type cs)).before
      (grows_types htypeUse _ cs)).before (grows_role _ cs)).before (grows_anonymous cs)
  · exact (hvisit.after _).before (grows_anonymous cs)
  · exact hvisit.before (grows_declare cs _)
  · exact (hvisit.after _).inFrame
  · exact (((hvisit.after _).before (grows_declare cs _)).before (grows_role _ cs)).inFrame
  · exact (hvisit.after _).inFrame
  · exact ((hvisit.before (grows_types htypeUse _ cs)).before (grows_named cs _)).before
      (grows_pattern cs)
  · exact hvisit.after _
  · exact hvisit.before (grows_role _ cs)
  · exact hvisit.after _

theorem passes_value {d : Node} (hn : n.kind ∈ [.localVariableDeclaration, .fieldDeclaration])
    (hd : d ∈ n.children) (hrole : d.role = some .declarator) (hc : d.child? .value = some c) :
    Passes (visit source n) (visit source c) := by
  obtain ⟨k, role, e, cs⟩ := n
  have hvisit := passes_visitDeclarators source hd hrole hc (textOfRole source .type cs)
  show Passes (fun w => visit source (.mk k role e cs) w) _
  replace hn : k ∈ [.localVariableDeclaration, .fieldDeclaration] := hn
  simp only [List.mem_cons, List.not_mem_nil, or_false] at hn
  rcases hn with rfl | rfl
  all_goals
    unfold visit
    exact hvisit.after fun w =>
      typeRefsOfRole source .typeUse .type cs (modifierAnnotations source cs w)

theorem textOfRole_eq_none {r : Role} (h : cs.find? (·.role == some r) = none) :
    textOfRole source r cs = none := by
  rw [textOfRole, h]
  rfl

theorem textOfRole_isSome (source : List Char) {r : Role}
    (h : (cs.find? (·.role == some r)).isSome) :
    ∃ type, textOfRole source r cs = some type := by
  obtain ⟨c, hc⟩ := Option.isSome_iff_exists.mp h
  exact ⟨c.text source, by rw [textOfRole, hc]; rfl⟩

theorem passes_managed (hn : n.kind = .resource) (htype : (n.child? .type).isSome)
    (hc : n.child? .value = some c) : Passes (visit source n) (visit source c) := by
  obtain ⟨k, role, e, cs⟩ := n
  obtain rfl : k = .resource := hn
  obtain ⟨type, htype⟩ := textOfRole_isSome source htype
  replace htype : textOfRole source .type cs = some type := htype
  show Passes (fun w => visit source (.mk .resource role e cs) w) _
  unfold visit
  simp only [htype]
  exact ((passes_visitRole hc).after _).before (grows_declare cs _)

theorem passes_shared (hn : n.kind = .resource) (htype : n.child? .type = none)
    (hc : c ∈ n.children) (hnamed : c.isNamed = true) (hrole : c.role ≠ some .name) :
    Passes (visit source n) (visit source c) := by
  obtain ⟨k, role, e, cs⟩ := n
  obtain rfl : k = .resource := hn
  have hnone : textOfRole source .type cs = none := textOfRole_eq_none htype
  show Passes (fun w => visit source (.mk .resource role e cs) w) _
  unfold visit
  simp only [hnone]
  exact passes_visitParts hc hnamed hrole true

theorem passes_sized (hn : n.kind = .arrayCreation) (hc : c ∈ n.children)
    (hkind : c.kind ∈ [.dimensionsExpr, .arrayInitializer]) :
    Passes (visit source n) (visit source c) := by
  obtain ⟨k, role, e, cs⟩ := n
  obtain rfl : k = .arrayCreation := hn
  show Passes (fun w => visit source (.mk .arrayCreation role e cs) w) _
  unfold visit
  exact (passes_visitKinds hc (by simpa using hkind)).after _

theorem passes_labeled (hn : n.kind = .labeledStatement) (hc : c ∈ n.children)
    (hkind : c.kind ∉ [.token, .identifier]) : Passes (visit source n) (visit source c) := by
  obtain ⟨k, role, e, cs⟩ := n
  obtain rfl : k = .labeledStatement := hn
  show Passes (fun w => visit source (.mk .labeledStatement role e cs) w) _
  unfold visit
  exact passes_visitKinds hc (by simpa using hkind)

theorem passes_visitFirstNamed {ns : List Node} (hc : ns.find? Node.isNamed = some c) :
    Passes (visitFirstNamed source ns) (visit source c) := by
  intro w
  refine ⟨w, ?_⟩
  induction ns with
  | nil => cases hc
  | cons n ns ih =>
    unfold visitFirstNamed
    rw [List.find?_cons] at hc
    split at hc
    · rename_i hnamed
      obtain rfl := Option.some.inj hc
      rw [if_pos hnamed]
      exact .refl _
    · rename_i hnamed
      rw [if_neg (by simpa using hnamed)]
      exact ih hc

theorem passes_qualifier {last : Node} (hn : n.kind = .methodReference)
    (hlast : n.children.getLast? = some last) (hkind : last.kind = .identifier)
    (hc : n.children.find? Node.isNamed = some c) : Passes (visit source n) (visit source c) := by
  obtain ⟨k, role, e, cs⟩ := n
  obtain rfl : k = .methodReference := hn
  replace hlast : cs.getLast? = some last := hlast
  replace hc : cs.find? Node.isNamed = some c := hc
  show Passes (fun w => visit source (.mk .methodReference role e cs) w) _
  unfold visit
  simp only [hc, hlast, hkind]
  exact (passes_visitFirstNamed hc).after _

theorem passes_visitPattern (source : List Char) {p : Node} :
    ∀ {ns : List Node}, ns.find? (·.role == some .pattern) = some p →
      Passes (visitPattern source ns) (visitParts source true p.children)
  | [], hp => by cases hp
  | .mk k r e inner :: ns, hp => by
    show Passes (fun w => visitPattern source (.mk k r e inner :: ns) w) _
    unfold visitPattern
    rw [List.find?_cons] at hp
    split at hp
    · rename_i hrole
      obtain rfl := Option.some.inj hp
      simp only [show (r == some .pattern) = true from hrole, if_true]
      exact .self _
    · rename_i hrole
      simp only [show (r == some .pattern) = false from hrole, Bool.false_eq_true, if_false]
      exact passes_visitPattern source hp

theorem passes_pattern {p : Node} (hn : n.kind = .instanceOf) (hp : n.child? .pattern = some p)
    (hc : c ∈ p.children) (hnamed : c.isNamed = true) (hrole : c.role ≠ some .name) :
    Passes (visit source n) (visit source c) := by
  obtain ⟨k, role, e, cs⟩ := n
  obtain rfl : k = .instanceOf := hn
  have hparts := (passes_visitPattern source hp).trans
    (passes_visitParts hc hnamed hrole true)
  show Passes (fun w => visit source (.mk .instanceOf role e cs) w) _
  unfold visit
  exact hparts.after _

theorem passes_visitAnonymousBody (source : List Char) {b : Node} :
    ∀ {ns : List Node}, ns.find? (·.kind == .classBody) = some b →
      Passes (visitAnonymousBody source ns) (visitParts source true b.children)
  | [], hb => by cases hb
  | .mk k r e inner :: ns, hb => by
    show Passes (fun w => visitAnonymousBody source (.mk k r e inner :: ns) w) _
    unfold visitAnonymousBody
    rw [List.find?_cons] at hb
    split at hb
    · rename_i hkind
      obtain rfl := Option.some.inj hb
      simp only [show (k == .classBody) = true from hkind, if_true]
      exact (Passes.self _).inFrame
    · rename_i hkind
      simp only [show (k == .classBody) = false from hkind, Bool.false_eq_true, if_false]
      exact passes_visitAnonymousBody source hb

theorem passes_anonymous {b : Node} (hn : n.kind = .objectCreation)
    (hb : n.children.find? (·.kind == .classBody) = some b)
    (hc : c ∈ b.children) (hnamed : c.isNamed = true) (hrole : c.role ≠ some .name) :
    Passes (visit source n) (visit source c) := by
  obtain ⟨k, role, e, cs⟩ := n
  obtain rfl : k = .objectCreation := hn
  have hparts := (passes_visitAnonymousBody source hb).trans
    (passes_visitParts hc hnamed hrole true)
  show Passes (fun w => visit source (.mk .objectCreation role e cs) w) _
  unfold visit
  exact hparts.after _

theorem passes_visitLambdaParameters (source : List Char) {ps : Node}
    (hkind : ps.kind ∉ [.identifier, .inferredParameters]) :
    ∀ {ns : List Node}, ns.find? (·.role == some .parameters) = some ps →
      Passes (visitLambdaParameters source ns)
        (visitKinds source (fun k => k != .token) ps.children)
  | [], hps => by cases hps
  | .mk k r e inner :: ns, hps => by
    show Passes (fun w => visitLambdaParameters source (.mk k r e inner :: ns) w) _
    unfold visitLambdaParameters
    rw [List.find?_cons] at hps
    split at hps
    · rename_i hrole
      obtain rfl := Option.some.inj hps
      simp only [show (r == some .parameters) = true from hrole, if_true]
      split
      · exact absurd hkind (by simp [Node.kind])
      · exact absurd hkind (by simp [Node.kind])
      · exact .self _
    · rename_i hrole
      simp only [show (r == some .parameters) = false from hrole, Bool.false_eq_true, if_false]
      exact passes_visitLambdaParameters source hkind hps

theorem passes_lambda {ps : Node} (hn : n.kind = .lambda) (hps : n.child? .parameters = some ps)
    (hkind : ps.kind ∉ [.identifier, .inferredParameters]) (hc : c ∈ ps.children)
    (htoken : c.kind ≠ .token) : Passes (visit source n) (visit source c) := by
  obtain ⟨k, role, e, cs⟩ := n
  obtain rfl : k = .lambda := hn
  have hparams := (passes_visitLambdaParameters source hkind hps).trans
    (passes_visitKinds hc (by simpa using htoken))
  show Passes (fun w => visit source (.mk .lambda role e cs) w) _
  unfold visit
  exact (hparams.before (grows_role _ cs)).inFrame

/-! The types that stand in a node itself. -/

theorem uses_itself
    (ht : t.kind ∈ [.typeIdentifier, .scopedTypeIdentifier, .genericType, .arrayType,
      .annotatedType, .typeArguments, .annotationMark]) : Uses source (visit source t) t := by
  obtain ⟨k, role, e, cs⟩ := t
  replace ht : k ∈ [.typeIdentifier, .scopedTypeIdentifier, .genericType, .arrayType,
    .annotatedType, .typeArguments, .annotationMark] := ht
  show Uses source (fun w => visit source (.mk k role e cs) w) _
  simp only [List.mem_cons, List.not_mem_nil, or_false] at ht
  rcases ht with rfl | rfl | rfl | rfl | rfl | rfl | rfl
  all_goals unfold visit
  iterate 6
    · exact .self (by simp) _
  · exact Passes.mark (.self _) rfl

theorem uses_annotated {a : Node}
    (hn : n.kind ∈ [.localVariableDeclaration, .fieldDeclaration, .formalParameter, .catchParameter,
      .spreadParameter])
    (ha : Annotated n a) : Uses source (visit source n) a := by
  have hmods := ha.uses source
  obtain ⟨k, role, e, cs⟩ := n
  obtain ⟨type, hsame, hparts⟩ := (respects_grows source).visitParameterParts none cs
    fun _ _ => trivial
  have htypeUse : Reference.Kind.typeUse ≠ .unresolved := by simp
  replace hn : k ∈ [.localVariableDeclaration, .fieldDeclaration, .formalParameter,
    .catchParameter, .spreadParameter] := hn
  show Uses source (fun w => visit source (.mk k role e cs) w) _
  simp only [List.mem_cons, List.not_mem_nil, or_false] at hn
  rcases hn with rfl | rfl | rfl | rfl | rfl
  all_goals
    unfold visit
    dsimp only
  iterate 2
    · exact (hmods.before (grows_types htypeUse _ cs)).before (grows_declarators _ cs)
  iterate 3
    · simp only [hsame]
      exact (hmods.before hparts).before (grows_declare cs _)

theorem uses_type
    (hn : n.kind ∈ [.localVariableDeclaration, .fieldDeclaration, .enhancedForStatement, .resource,
      .arrayCreation, .objectCreation])
    (ht : n.child? .type = some t) : Uses source (visit source n) t := by
  obtain ⟨k, role, e, cs⟩ := n
  have htypeUse : Reference.Kind.typeUse ≠ .unresolved := by simp
  have htype : Uses source (typeRefsOfRole source .typeUse .type cs) t :=
    ⟨.typeUse, htypeUse, passes_typeRefsOfRole ht⟩
  have hcreated : Uses source (typeRefsOfRole source .instantiation .type cs) t :=
    ⟨.instantiation, by simp, passes_typeRefsOfRole ht⟩
  obtain ⟨text, htext⟩ := textOfRole_isSome source (Option.isSome_of_eq_some ht)
  replace htext : textOfRole source .type cs = some text := htext
  replace hn : k ∈ [.localVariableDeclaration, .fieldDeclaration, .enhancedForStatement, .resource,
    .arrayCreation, .objectCreation] := hn
  show Uses source (fun w => visit source (.mk k role e cs) w) _
  simp only [List.mem_cons, List.not_mem_nil, or_false] at hn
  rcases hn with rfl | rfl | rfl | rfl | rfl | rfl
  all_goals
    unfold visit
    dsimp only
  · exact (htype.after _).before (grows_declarators _ cs)
  · exact (htype.after _).before (grows_declarators _ cs)
  · exact (((htype.before (grows_role _ cs)).before (grows_declare cs _)).before
      (grows_role _ cs)).inFrame
  · rw [htext]
    exact (htype.before (grows_role _ cs)).before (grows_declare cs _)
  · exact htype.before (grows_kinds _ cs)
  · exact (((hcreated.after _).before (grows_types htypeUse _ cs)).before (grows_role _ cs)).before
      (grows_anonymous cs)

theorem uses_parameter (hn : n.kind ∈ [.formalParameter, .catchParameter, .spreadParameter])
    (ht : t ∈ n.children)
    (hkind : t.kind ∉ [.token, .modifiers, .identifier, .dimensions, .variableDeclarator]) :
    Uses source (visit source n) t := by
  obtain ⟨k, role, e, cs⟩ := n
  obtain ⟨type, hsame, -⟩ := (respects_grows source).visitParameterParts none cs
    fun _ _ => trivial
  have hparts : Uses source (fun w => (visitParameterParts source none cs w).2) t :=
    ⟨.typeUse, by simp, passes_parameterParts source hkind none cs ht⟩
  replace hn : k ∈ [.formalParameter, .catchParameter, .spreadParameter] := hn
  show Uses source (fun w => visit source (.mk k role e cs) w) _
  simp only [List.mem_cons, List.not_mem_nil, or_false] at hn
  rcases hn with rfl | rfl | rfl
  all_goals
    unfold visit
    simp only [hsame]
    exact (hparts.after _).before (grows_declare cs _)

theorem uses_typeParameterRefs (source : List Char) {p : Node} (hp : p ∈ n.named)
    (ht : t ∈ p.named) (hkind : t.kind = .typeBound ∨ t.kind = .annotationMark) :
    Uses source (typeParameterRefs source n) t := by
  have hgrows := respects_grows source
  show Uses source (fun w => n.named.foldl _ w) t
  refine (Passes.foldl (fun w param => ?_) hp).uses ?_
  · refine hgrows.foldl (fun part _ w => ?_) w
    dsimp only
    split
    · exact hgrows.typeRefs (by simp) part w
    · exact hgrows.mark part w
    · exact .refl w
  · refine (Passes.foldl (fun w part => ?_) ht).uses ?_
    · split
      · exact hgrows.typeRefs (by simp) part w
      · exact hgrows.mark part w
      · exact .refl w
    · rcases hkind with hkind | hkind
      · rw [hkind]
        exact .self (by simp) t
      · rw [hkind]
        exact Passes.mark (.self _) hkind

theorem uses_bound {p : Node} (hn : n.kind = .typeParameters) (hp : p ∈ n.named) (ht : t ∈ p.named)
    (hkind : t.kind = .typeBound ∨ t.kind = .annotationMark) : Uses source (visit source n) t := by
  have huses := uses_typeParameterRefs source hp ht hkind
  obtain ⟨k, role, e, cs⟩ := n
  obtain rfl : k = .typeParameters := hn
  show Uses source (fun w => visit source (.mk .typeParameters role e cs) w) t
  unfold visit
  exact huses

theorem uses_arguments (hn : n.kind ∈ [.methodInvocation, .objectCreation])
    (ht : n.child? .typeArguments = some t) : Uses source (visit source n) t := by
  obtain ⟨k, role, e, cs⟩ := n
  have htype : Uses source (typeRefsOfRole source .typeUse .typeArguments cs) t :=
    ⟨.typeUse, by simp, passes_typeRefsOfRole ht⟩
  replace hn : k ∈ [.methodInvocation, .objectCreation] := hn
  show Uses source (fun w => visit source (.mk k role e cs) w) _
  simp only [List.mem_cons, List.not_mem_nil, or_false] at hn
  rcases hn with rfl | rfl
  all_goals
    unfold visit
    dsimp only
  · exact (htype.after _).before (grows_role _ cs)
  · exact ((htype.after _).before (grows_role _ cs)).before (grows_anonymous cs)

theorem uses_cast (hn : n.kind = .cast) (ht : t ∈ n.childrenIn .type) :
    Uses source (visit source n) t := by
  obtain ⟨k, role, e, cs⟩ := n
  obtain rfl : k = .cast := hn
  have htypeUse : Reference.Kind.typeUse ≠ .unresolved := by simp
  have hstep := (Passes.foldl (fun w t => (respects_grows source).typeRefs htypeUse t w) ht).uses
    (.self htypeUse t)
  show Uses source (fun w => visit source (.mk .cast role e cs) w) _
  unfold visit
  exact hstep.before (grows_role _ cs)

theorem uses_test (hn : n.kind = .instanceOf) (ht : n.child? .right = some t) :
    Uses source (visit source n) t := by
  obtain ⟨k, role, e, cs⟩ := n
  obtain rfl : k = .instanceOf := hn
  have htype : Uses source (typeRefsOfRole source .typeUse .right cs) t :=
    ⟨.typeUse, by simp, passes_typeRefsOfRole ht⟩
  show Uses source (fun w => visit source (.mk .instanceOf role e cs) w) _
  unfold visit
  exact ((htype.after _).before (grows_named cs _)).before (grows_pattern cs)

theorem uses_literal (hn : n.kind = .classLiteral)
    (ht : n.children.find? Node.isNamed = some t) : Uses source (visit source n) t := by
  obtain ⟨k, role, e, cs⟩ := n
  obtain rfl : k = .classLiteral := hn
  replace ht : cs.find? Node.isNamed = some t := ht
  show Uses source (fun w => visit source (.mk .classLiteral role e cs) w) _
  unfold visit
  simp only [ht]
  exact .self (by simp) t

theorem uses_made {last : Node} (hn : n.kind = .methodReference)
    (hlast : n.children.getLast? = some last) (hkind : last.kind = .token)
    (ht : n.children.find? Node.isNamed = some t) : Uses source (visit source n) t := by
  obtain ⟨k, role, e, cs⟩ := n
  obtain rfl : k = .methodReference := hn
  replace hlast : cs.getLast? = some last := hlast
  replace ht : cs.find? Node.isNamed = some t := ht
  show Uses source (fun w => visit source (.mk .methodReference role e cs) w) _
  unfold visit
  simp only [ht, hlast, hkind]
  exact .self (by simp) t

end

/-- Wherever a type is written, the walk comes to it. -/
theorem Writes.uses {n t : Node} (h : Writes n t) : Uses source (visit source n) t := by
  induction h with
  | itself ht => exact uses_itself ht
  | annotated hn ha => exact uses_annotated hn ha
  | typed hn ht => exact uses_type hn ht
  | parameter hn ht hkind => exact uses_parameter hn ht hkind
  | bound hn hp ht hkind => exact uses_bound hn hp ht hkind
  | arguments hn ht => exact uses_arguments hn ht
  | cast hn ht => exact uses_cast hn ht
  | test hn ht => exact uses_test hn ht
  | literal hn ht => exact uses_literal hn ht
  | made hn hlast hkind ht => exact uses_made hn hlast hkind ht
  | part hn hc hnamed hrole _ ih => exact (passes_part hn hc hnamed hrole).uses ih
  | inner hn hc _ ih => exact (passes_inner hn hc).uses ih
  | value hn hd hrole hc _ ih => exact (passes_value hn hd hrole hc).uses ih
  | managed hn htype hc _ ih => exact (passes_managed hn htype hc).uses ih
  | shared hn htype hc hnamed hrole _ ih => exact (passes_shared hn htype hc hnamed hrole).uses ih
  | sized hn hc hkind _ ih => exact (passes_sized hn hc hkind).uses ih
  | labeled hn hc hkind _ ih => exact (passes_labeled hn hc hkind).uses ih
  | qualifier hn hlast hkind hc _ ih => exact (passes_qualifier hn hlast hkind hc).uses ih
  | pattern hn hp hc hnamed hrole _ ih => exact (passes_pattern hn hp hc hnamed hrole).uses ih
  | anonymous hn hb hc hnamed hrole _ ih => exact (passes_anonymous hn hb hc hnamed hrole).uses ih
  | lambda hn hps hkind hc htoken _ ih => exact (passes_lambda hn hps hkind hc htoken).uses ih

/-! ### What is found -/

/-- A type name that counts: none of a primitive type and not the word in place of a type. -/
structure Nameable (source : List Char) (m : Node) : Prop where
  name : m.kind = .typeIdentifier ∨ m.kind = .scopedTypeIdentifier
  nonempty : (stripGenerics (m.text source)).isEmpty = false
  not_var : stripGenerics (m.text source) ≠ "var"
  not_primitive : isPrimitive (stripGenerics (m.text source)) = false

/-- There is a use of a type at this place with the name that is written there. -/
def Found (source : List Char) (sites : List UseSite) (m : Node) : Prop :=
  ∃ s ∈ sites, s.mention = .type (stripGenerics (m.text source)) ∧ s.range = some m.range

def leading (source : List Char) (m : Node) : String := firstSegment (stripGenerics (m.text source))

theorem Grows.found_or_hidden {w w' : Walk} {m : Node} (h : Grows w w')
    (hw : Found source w.found m ∨ leading source m ∈ w.hidden) :
    Found source w'.found m ∨ leading source m ∈ w'.hidden := by
  rcases hw with ⟨s, hs, hmention⟩ | hhidden
  · exact .inl ⟨s, h.found hs, hmention⟩
  · exact .inr (h.hidden hhidden)

theorem mentionType_found {m : Node} (hm : Nameable source m) (kind : Reference.Kind) (w : Walk) :
    Found source (mentionType source kind m w).found m ∨
      leading source m ∈ (mentionType source kind m w).hidden := by
  unfold mentionType
  simp only [hm.nonempty, hm.not_primitive, Bool.or_false, beq_eq_false_iff_ne.mpr hm.not_var,
    Bool.false_eq_true, if_false]
  split
  · rename_i hhidden
    exact .inr (List.contains_iff_mem.mp hhidden)
  · exact .inl ⟨_, List.mem_cons_self, rfl, rfl⟩

/-- A type that a step uses is found unless its name is hidden. -/
theorem Uses.found {f : Walk → Walk} {m : Node} (h : Uses source f m) (hm : Nameable source m)
    (w : Walk) : Found source (f w).found m ∨ leading source m ∈ (f w).hidden := by
  obtain ⟨kind, -, hpasses⟩ := h
  obtain ⟨w', hgrows⟩ := hpasses w
  rw [typeRefs_name hm.name] at hgrows
  exact hgrows.found_or_hidden (mentionType_found hm kind w')

theorem Uses.marked {f : Walk → Walk} {a name : Node} (h : Uses source f a)
    (ha : a.kind = .annotationMark) (hname : a.child? .name = some name) (w : Walk) :
    ⟨.annotationUse, .type (name.text source), some name.range⟩ ∈ (f w).found := by
  obtain ⟨kind, -, hpasses⟩ := h
  obtain ⟨w', hgrows⟩ := hpasses w
  rw [typeRefs_mark ha, annotationMention, hname] at hgrows
  exact hgrows.found List.mem_cons_self

end Carve.Java
