import Carve.Java.Walk

/-!
# The steps of a walk

A walk is made of few steps: it records a mention, declares or hides a name, or does all this in a
frame of its own. What holds of these steps, and of two steps in turn if it holds of both, holds of
the walk below any piece of syntax.
-/

namespace Carve.Java

variable {source : List Char} {P : (Walk → Walk) → Prop}

/-- The property holds of the steps through a type. -/
structure RespectsTypes (source : List Char) (P : (Walk → Walk) → Prop) : Prop where
  stay : P fun w => w
  comp {f g : Walk → Walk} : P f → P g → P fun w => g (f w)
  mention {kind : Reference.Kind} : kind ≠ .unresolved → ∀ n, P (mentionType source kind n)
  mark : ∀ n, P (annotationMention source n)

namespace RespectsTypes

theorem foldl (h : RespectsTypes source P) {α : Type} {f : Walk → α → Walk} {as : List α}
    (hf : ∀ a ∈ as, P fun w => f w a) : P fun w => as.foldl f w := by
  induction as with
  | nil => exact h.stay
  | cons a as ih =>
    exact h.comp (hf a List.mem_cons_self) (ih fun b hb => hf b (List.mem_cons_of_mem _ hb))

theorem optional (h : RespectsTypes source P) {f : Node → Walk → Walk} (part? : Option Node) :
    (∀ c, part? = some c → P (f c)) →
      P fun w => match part? with | some c => f c w | none => w := by
  intro hf
  cases part? with
  | some c => exact hf c rfl
  | none => exact h.stay

mutual
theorem typeRefs (h : RespectsTypes source P) {kind : Reference.Kind} (hk : kind ≠ .unresolved) :
    ∀ n : Node, P (typeRefs source kind n)
  | .mk k r e cs => by
    show P fun w => Java.typeRefs source kind (.mk k r e cs) w
    unfold Java.typeRefs
    split
    · exact h.mention hk _
    · exact h.mention hk _
    · exact h.typeRefsOf hk cs
    · exact h.typeRefsOf hk cs
    · exact h.typeRefsOfElement hk cs
    · exact h.mark _
    iterate 5
      · exact h.typeRefsOf (by simp) cs
    · exact h.stay

theorem typeRefsOf (h : RespectsTypes source P) {kind : Reference.Kind} (hk : kind ≠ .unresolved) :
    ∀ ns : List Node, P (typeRefsOf source kind ns)
  | [] => by
    show P fun w => Java.typeRefsOf source kind [] w
    unfold Java.typeRefsOf
    exact h.stay
  | n :: ns => by
    show P fun w => Java.typeRefsOf source kind (n :: ns) w
    unfold Java.typeRefsOf
    split
    · exact h.comp (h.typeRefs hk n) (h.typeRefsOf hk ns)
    · exact h.typeRefsOf hk ns

theorem typeRefsOfElement (h : RespectsTypes source P) {kind : Reference.Kind}
    (hk : kind ≠ .unresolved) : ∀ ns : List Node, P (typeRefsOfElement source kind ns)
  | [] => by
    show P fun w => Java.typeRefsOfElement source kind [] w
    unfold Java.typeRefsOfElement
    exact h.stay
  | n :: ns => by
    show P fun w => Java.typeRefsOfElement source kind (n :: ns) w
    unfold Java.typeRefsOfElement
    split
    · exact h.typeRefs hk n
    · exact h.typeRefsOfElement hk ns
end

theorem typeRefsOfRole (h : RespectsTypes source P) {kind : Reference.Kind}
    (hk : kind ≠ .unresolved) (r : Role) (cs : List Node) :
    P (typeRefsOfRole source kind r cs) := by
  show P fun w => Java.typeRefsOfRole source kind r cs w
  unfold Java.typeRefsOfRole
  split
  · exact h.typeRefs hk _
  · exact h.stay

theorem modifierAnnotations (h : RespectsTypes source P) (cs : List Node) :
    P (modifierAnnotations source cs) := by
  show P fun w => Java.modifierAnnotations source cs w
  unfold Java.modifierAnnotations
  split
  · exact h.stay
  · exact h.foldl fun n _ => h.mark n

theorem typeParameterRefs (h : RespectsTypes source P) (n : Node) :
    P (typeParameterRefs source n) := by
  show P fun w => Java.typeParameterRefs source n w
  unfold Java.typeParameterRefs
  refine h.foldl fun param _ => h.foldl fun part _ => ?_
  split
  · exact h.typeRefs (by simp) _
  · exact h.mark _
  · exact h.stay

end RespectsTypes

def localTypeKinds : List Kind :=
  [.classDeclaration, .interfaceDeclaration, .enumDeclaration, .recordDeclaration]

/-- The node declares a type of this name inside of a body. -/
def LocalType (source : List Char) (n : Node) (name : String) : Prop :=
  n.kind ∈ localTypeKinds ∧ textOfRole source .name n.children = some name

/-- The property holds of the steps through all syntax that is made of nodes of this sort. -/
structure Respects (source : List Char) (N : Node → Prop) (P : (Walk → Walk) → Prop) : Prop
    extends RespectsTypes source P where
  children {n : Node} : N n → ∀ c ∈ n.children, N c
  lone : ∀ n : Node, P fun w => match w.local? (n.text source) with
    | some _ => w
    | none => w.record ⟨.field, .bare (n.text source), some n.range⟩
  call : ∀ (cs : List Node) (name : Node), P fun w => w.record
    ⟨.call, .call (.mk (name.text source) (objectReceiver source w cs)), some name.range⟩
  field : ∀ (cs : List Node) (name : Node), P fun w => w.record
    ⟨.field, .field (.mk (name.text source) (objectReceiver source w cs)), some name.range⟩
  refer : ∀ n q, N n → n.kind = .methodReference → n.children.find? Node.isNamed = some q →
    ∀ name : Node, P fun w => w.record
      ⟨.call, .call (.mk (name.text source) (qualifierReceiver source w q)), some name.range⟩
  declare : ∀ name type, P fun w => w.declare name type
  hide : ∀ n, N n → ∀ name, LocalType source n name → P fun w => w.hide name
  inFrame {f : Walk → Walk} : P f → P fun w => w.inFrame f

namespace Respects

variable {N : Node → Prop}

theorem declareRole (h : Respects source N P) (r : Role) (cs : List Node) (type : Option String) :
    P (declareRole source r cs type) := by
  show P fun w => Java.declareRole source r cs type w
  unfold Java.declareRole
  split
  · exact h.declare _ _
  · exact h.stay

mutual
/-- By induction on the tree: each case is made of the walks of its parts. -/
theorem visit (h : Respects source N P) : ∀ n : Node, N n → P (visit source n)
  | .mk k r e cs, hn => by
    have hcs : ∀ c ∈ cs, N c := h.children hn
    have htype : Reference.Kind.typeUse ≠ .unresolved := by simp
    have hcreate : Reference.Kind.instantiation ≠ .unresolved := by simp
    show P fun w => Java.visit source (.mk k r e cs) w
    unfold Java.visit
    dsimp only
    split
    · refine h.comp ?_ (h.visitRole .arguments cs hcs)
      refine h.comp ?_ (h.typeRefsOfRole htype .typeArguments cs)
      refine h.comp ?_ (h.visitRole .object cs hcs)
      split
      · exact h.call cs _
      · exact h.stay
    · refine h.comp ?_ (h.visitRole .object cs hcs)
      split
      · exact h.field cs _
      · exact h.stay
    · refine h.comp ?_ (h.visitAnonymousBody cs hcs)
      refine h.comp ?_ (h.visitRole .arguments cs hcs)
      refine h.comp ?_ (h.typeRefsOfRole htype .typeArguments cs)
      exact h.comp (h.visitRole .object cs hcs) (h.typeRefsOfRole hcreate .type cs)
    · split
      · rename_i q last hq hlast
        split
        · exact h.typeRefs hcreate _
        · split
          · exact h.comp (h.refer _ q hn rfl hq last) (h.visitFirstNamed cs hcs)
          · exact h.stay
      · exact h.stay
    · exact h.lone _
    iterate 2
      · exact h.comp (h.comp (h.modifierAnnotations cs) (h.typeRefsOfRole htype .type cs))
          (h.visitDeclarators _ cs hcs)
    · exact h.comp (h.visitRole .value cs hcs) (h.declareRole _ cs _)
    iterate 3
      · obtain ⟨type, hsame, hparts⟩ := h.visitParameterParts none cs hcs
        simp only [hsame]
        exact h.comp (h.comp (h.modifierAnnotations cs) hparts) (h.declareRole _ cs _)
    · exact h.inFrame (h.comp (h.visitLambdaParameters cs hcs) (h.visitRole .body cs hcs))
    · refine h.inFrame (h.comp ?_ (h.visitRole .body cs hcs))
      refine h.comp ?_ (h.declareRole _ cs _)
      exact h.comp (h.typeRefsOfRole htype .type cs) (h.visitRole .value cs hcs)
    · split
      · exact h.comp (h.comp (h.typeRefsOfRole htype .type cs) (h.visitRole .value cs hcs))
          (h.declareRole _ cs _)
      · exact h.visitParts true cs hcs
    · refine h.comp ?_ (h.visitPattern cs hcs)
      have hleft := h.comp (h.visitRole .left cs hcs) (h.typeRefsOfRole htype .right cs)
      split
      · exact h.comp hleft (h.declareRole _ cs _)
      · exact hleft
    · exact h.comp (h.foldl fun t _ => h.typeRefs htype t) (h.visitRole .value cs hcs)
    · split
      · exact h.typeRefs htype _
      · exact h.stay
    · exact h.comp (h.typeRefsOfRole htype .type cs) (h.visitKinds _ cs hcs)
    · exact h.mark _
    · exact h.visitKinds _ cs hcs
    · exact h.comp (h.visitRole .object cs hcs) (h.visitRole .arguments cs hcs)
    iterate 6
      · exact h.typeRefs htype _
    · exact h.typeParameterRefs _
    iterate 4
      · refine h.comp ?_ (h.inFrame (h.visitParts true cs hcs))
        split
        · rename_i name hname
          exact h.hide _ hn name ⟨by simp [Node.kind, localTypeKinds], hname⟩
        · exact h.stay
    iterate 10
      · exact h.inFrame (h.visitParts true cs hcs)
    iterate 9
      · exact h.stay
    · exact h.visitParts true cs hcs

theorem visitParts (h : Respects source N P) (skipName : Bool) :
    ∀ ns : List Node, (∀ n ∈ ns, N n) → P (visitParts source skipName ns)
  | [], _ => by
    show P fun w => Java.visitParts source skipName [] w
    unfold Java.visitParts
    exact h.stay
  | n :: ns, hns => by
    obtain ⟨hn, hns⟩ := List.forall_mem_cons.mp hns
    show P fun w => Java.visitParts source skipName (n :: ns) w
    unfold Java.visitParts
    split
    · exact h.visitParts false ns hns
    · split
      · exact h.comp (h.visit n hn) (h.visitParts skipName ns hns)
      · exact h.visitParts skipName ns hns

theorem visitRole (h : Respects source N P) (r : Role) :
    ∀ ns : List Node, (∀ n ∈ ns, N n) → P (visitRole source r ns)
  | [], _ => by
    show P fun w => Java.visitRole source r [] w
    unfold Java.visitRole
    exact h.stay
  | n :: ns, hns => by
    obtain ⟨hn, hns⟩ := List.forall_mem_cons.mp hns
    show P fun w => Java.visitRole source r (n :: ns) w
    unfold Java.visitRole
    split
    · exact h.visit n hn
    · exact h.visitRole r ns hns

theorem visitFirstNamed (h : Respects source N P) :
    ∀ ns : List Node, (∀ n ∈ ns, N n) → P (visitFirstNamed source ns)
  | [], _ => by
    show P fun w => Java.visitFirstNamed source [] w
    unfold Java.visitFirstNamed
    exact h.stay
  | n :: ns, hns => by
    obtain ⟨hn, hns⟩ := List.forall_mem_cons.mp hns
    show P fun w => Java.visitFirstNamed source (n :: ns) w
    unfold Java.visitFirstNamed
    split
    · exact h.visit n hn
    · exact h.visitFirstNamed ns hns

theorem visitKinds (h : Respects source N P) (p : Kind → Bool) :
    ∀ ns : List Node, (∀ n ∈ ns, N n) → P (visitKinds source p ns)
  | [], _ => by
    show P fun w => Java.visitKinds source p [] w
    unfold Java.visitKinds
    exact h.stay
  | n :: ns, hns => by
    obtain ⟨hn, hns⟩ := List.forall_mem_cons.mp hns
    show P fun w => Java.visitKinds source p (n :: ns) w
    unfold Java.visitKinds
    split
    · exact h.comp (h.visit n hn) (h.visitKinds p ns hns)
    · exact h.visitKinds p ns hns

theorem visitAnonymousBody (h : Respects source N P) :
    ∀ ns : List Node, (∀ n ∈ ns, N n) → P (visitAnonymousBody source ns)
  | [], _ => by
    show P fun w => Java.visitAnonymousBody source [] w
    unfold Java.visitAnonymousBody
    exact h.stay
  | .mk k r e inner :: ns, hns => by
    obtain ⟨hn, hns⟩ := List.forall_mem_cons.mp hns
    show P fun w => Java.visitAnonymousBody source (.mk k r e inner :: ns) w
    unfold Java.visitAnonymousBody
    split
    · exact h.inFrame (h.visitParts true inner (h.children hn))
    · exact h.visitAnonymousBody ns hns

theorem visitPattern (h : Respects source N P) :
    ∀ ns : List Node, (∀ n ∈ ns, N n) → P (visitPattern source ns)
  | [], _ => by
    show P fun w => Java.visitPattern source [] w
    unfold Java.visitPattern
    exact h.stay
  | .mk k r e inner :: ns, hns => by
    obtain ⟨hn, hns⟩ := List.forall_mem_cons.mp hns
    show P fun w => Java.visitPattern source (.mk k r e inner :: ns) w
    unfold Java.visitPattern
    split
    · exact h.visitParts true inner (h.children hn)
    · exact h.visitPattern ns hns

theorem visitDeclarators (h : Respects source N P) (declared : Option String) :
    ∀ ns : List Node, (∀ n ∈ ns, N n) → P (visitDeclarators source declared ns)
  | [], _ => by
    show P fun w => Java.visitDeclarators source declared [] w
    unfold Java.visitDeclarators
    exact h.stay
  | .mk k r e inner :: ns, hns => by
    obtain ⟨hn, hns⟩ := List.forall_mem_cons.mp hns
    show P fun w => Java.visitDeclarators source declared (.mk k r e inner :: ns) w
    unfold Java.visitDeclarators
    split
    · exact h.comp (h.comp (h.visitRole .value inner (h.children hn)) (h.declareRole _ inner _))
        (h.visitDeclarators declared ns hns)
    · exact h.visitDeclarators declared ns hns

theorem visitParameterParts (h : Respects source N P) : ∀ (declared : Option String)
    (ns : List Node), (∀ n ∈ ns, N n) →
      ∃ type, (∀ w, (visitParameterParts source declared ns w).1 = type) ∧
        P fun w => (visitParameterParts source declared ns w).2
  | declared, [], _ => by
    unfold Java.visitParameterParts
    exact ⟨declared, fun _ => rfl, h.stay⟩
  | declared, .mk k r e inner :: ns, hns => by
    obtain ⟨hn, hrest⟩ := List.forall_mem_cons.mp hns
    unfold Java.visitParameterParts
    dsimp only
    split
    iterate 4
      · exact h.visitParameterParts declared ns hrest
    · obtain ⟨type, hsame, hparts⟩ := h.visitParameterParts declared ns hrest
      exact ⟨type, fun _ => hsame _, h.comp (h.comp
        (h.visitRole .value inner (h.children hn)) (h.declareRole _ inner _)) hparts⟩
    · obtain ⟨type, hsame, hparts⟩ := h.visitParameterParts
        (declared <|> some (Node.text source (.mk k r e inner))) ns hrest
      exact ⟨type, fun _ => hsame _, h.comp (h.typeRefs (by simp) _) hparts⟩

theorem visitLambdaParameters (h : Respects source N P) :
    ∀ ns : List Node, (∀ n ∈ ns, N n) → P (visitLambdaParameters source ns)
  | [], _ => by
    show P fun w => Java.visitLambdaParameters source [] w
    unfold Java.visitLambdaParameters
    exact h.stay
  | .mk k r e inner :: ns, hns => by
    obtain ⟨hn, hns⟩ := List.forall_mem_cons.mp hns
    show P fun w => Java.visitLambdaParameters source (.mk k r e inner :: ns) w
    unfold Java.visitLambdaParameters
    split
    · split
      · exact h.declare _ _
      · exact h.foldl fun p _ => h.declare _ _
      · exact h.visitKinds _ inner (h.children hn)
    · exact h.visitLambdaParameters ns hns
end

theorem visitParameters (h : Respects source N P) (n : Node) (hn : N n) :
    P (visitParameters source n) := by
  show P fun w => Java.visitParameters source n w
  unfold Java.visitParameters
  exact h.visitKinds _ n.children (h.children hn)

end Respects

/-! ### The walks through declarations -/

def callableWalk (source : List Char) (n : Node) (w : Walk) : Walk :=
  let w := modifierAnnotations source n.children w
  let w := match n.child? .typeParameters with | some c => typeParameterRefs source c w | none => w
  let w := match n.child? .type with | some c => typeRefs source .typeUse c w | none => w
  let w := match n.child? .parameters with | some c => visitParameters source c w | none => w
  let w :=
    match n.firstOf? .throws with
    | some c => c.named.foldl (fun w t => typeRefs source .throws t w) w
    | none => w
  let w := match n.child? .body with | some c => visit source c w | none => w
  match n.child? .value with | some c => visit source c w | none => w

/-- The step through one part of a header, once its annotations and bounds are behind. -/
def headerStep (source : List Char) (w : Walk) (c : Node) : Walk :=
  match c.kind with
  | .superclass | .superInterfaces | .extendsInterfaces =>
    (c.named.flatMap fun t => if t.kind == .typeList then t.named else [t]).foldl
      (fun w t => typeRefs source .supertype t w) w
  | .formalParameters => visitParameters source c w
  | _ => w

def headerWalk (source : List Char) (n : Node) (w : Walk) : Walk :=
  let w := modifierAnnotations source n.children w
  let w := match n.child? .typeParameters with | some c => typeParameterRefs source c w | none => w
  n.named.foldl (headerStep source) w

def fieldWalk (source : List Char) (n d : Node) (w : Walk) : Walk :=
  let w := modifierAnnotations source n.children w
  let w := match n.child? .type with | some c => typeRefs source .typeUse c w | none => w
  match d.child? .value with | some c => visit source c w | none => w

def constantWalk (source : List Char) (n : Node) (w : Walk) : Walk :=
  let w := modifierAnnotations source n.children w
  let w := match n.child? .arguments with | some c => visit source c w | none => w
  match n.child? .body with | some c => visit source c w | none => w

namespace Respects

variable {N : Node → Prop} {n d c : Node}

theorem childVisit (h : Respects source N P) (hn : ∀ c ∈ n.children, N c) (r : Role) :
    P fun w => match n.child? r with | some c => Java.visit source c w | none => w :=
  h.optional _ fun c hc => h.visit c (hn c (List.mem_of_find?_eq_some hc))

theorem callableWalk (h : Respects source N P) (hn : ∀ c ∈ n.children, N c) :
    P (callableWalk source n) := by
  have hbounds := h.optional (n.child? .typeParameters) fun c _ => h.typeParameterRefs c
  have htype := h.optional (n.child? .type) fun c _ =>
    h.typeRefs (show Reference.Kind.typeUse ≠ .unresolved by simp) c
  have hparams := h.optional (n.child? .parameters) fun c hc =>
    h.visitParameters c (hn c (List.mem_of_find?_eq_some hc))
  have hthrows := h.optional (n.firstOf? .throws) fun c _ =>
    h.foldl fun t (_ : t ∈ c.named) =>
      h.typeRefs (show Reference.Kind.throws ≠ .unresolved by simp) t
  have hwalk := h.comp (h.comp (h.comp (h.comp (h.comp (h.comp
    (h.modifierAnnotations n.children) hbounds) htype) hparams) hthrows)
    (h.childVisit hn .body)) (h.childVisit hn .value)
  exact hwalk

theorem headerStep (h : Respects source N P) (hc : N c) :
    P fun w => headerStep source w c := by
  unfold Java.headerStep
  split
  iterate 3
    · exact h.foldl fun t _ => h.typeRefs (by simp) t
  · exact h.visitParameters c hc
  · exact h.stay

theorem headerWalk (h : Respects source N P) (hn : ∀ c ∈ n.children, N c) :
    P (headerWalk source n) := by
  have hbounds := h.optional (n.child? .typeParameters) fun c _ => h.typeParameterRefs c
  have hwalk := h.comp (h.comp (h.modifierAnnotations n.children) hbounds)
    (h.foldl fun c (hc : c ∈ n.named) => h.headerStep (hn c (List.mem_filter.mp hc).1))
  exact hwalk

theorem fieldWalk (h : Respects source N P) (hd : ∀ c ∈ d.children, N c) :
    P (fieldWalk source n d) := by
  have htype := h.optional (n.child? .type) fun c _ =>
    h.typeRefs (show Reference.Kind.typeUse ≠ .unresolved by simp) c
  have hwalk := h.comp (h.comp (h.modifierAnnotations n.children) htype) (h.childVisit hd .value)
  exact hwalk

theorem constantWalk (h : Respects source N P) (hn : ∀ c ∈ n.children, N c) :
    P (constantWalk source n) := by
  have hwalk := h.comp (h.comp (h.modifierAnnotations n.children) (h.childVisit hn .arguments))
    (h.childVisit hn .body)
  exact hwalk

end Respects

/-! ### Receivers -/

section

variable (source : List Char) {w w' : Walk}

mutual
theorem receiver_congr (h : w.frames = w'.frames) :
    ∀ n : Node, receiver source w n = receiver source w' n
  | .mk k r e cs => by
    unfold receiver
    split
    · rfl
    · rfl
    · dsimp only
      rw [Walk.local?, Walk.local?, h]
    · rw [objectReceiver_congr h cs]
    · rw [objectReceiver_congr h cs]
    · rfl
    · exact innerReceiver_congr h cs
    · rfl
    · rfl
    · rfl

theorem objectReceiver_congr (h : w.frames = w'.frames) :
    ∀ ns : List Node, objectReceiver source w ns = objectReceiver source w' ns
  | [] => by unfold objectReceiver; rfl
  | n :: ns => by
    unfold objectReceiver
    rw [receiver_congr h n, objectReceiver_congr h ns]

theorem innerReceiver_congr (h : w.frames = w'.frames) :
    ∀ ns : List Node, innerReceiver source w ns = innerReceiver source w' ns
  | [] => by unfold innerReceiver; rfl
  | n :: ns => by
    unfold innerReceiver
    rw [receiver_congr h n, innerReceiver_congr h ns]
end

theorem qualifierReceiver_congr (h : w.frames = w'.frames) (q : Node) :
    qualifierReceiver source w q = qualifierReceiver source w' q := by
  unfold qualifierReceiver
  rw [receiver_congr source h q]

end

end Carve.Java
