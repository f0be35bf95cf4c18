import Carve.Proofs.Java.Origins

/-!
# Local variables

From where a local variable is introduced to the end of the block around it, no use site begins
with its name: neither a lone name nor what a member is reached through can be taken for a field.
-/

namespace Carve

/-! ### What a use site begins with -/

mutual
/-- The name that a chain of accesses begins with. -/
def Receiver.root? : Receiver → Option String
  | .name x => some x
  | .call a => a.root?
  | .field a => a.root?
  | .implicit | .super | .typed _ | .created _ | .unknown => none

def Access.root? : Access → Option String
  | .mk _ r => r.root?
end

def Mention.root? : Mention → Option String
  | .bare x => some x
  | .call a => a.root?
  | .field a => a.root?
  | .type _ => none

namespace Java

variable {source : List Char} {x : String}

/-! ### Variables in reach -/

namespace Walk

variable {w w' : Walk}

theorem local?_declare_self (hw : w.frames ≠ []) (x : String) (type : Option String) :
    (w.declare x type).local? x ≠ none := by
  unfold declare local?
  split
  · contradiction
  · simp

theorem local?_declare (h : w.local? x ≠ none) (name : String) (type : Option String) :
    (w.declare name type).local? x ≠ none := by
  unfold local? at h
  unfold declare local?
  split
  · exact h
  · rename_i top outer hframes
    rw [hframes, List.findSome?_cons] at h
    rw [List.findSome?_cons, List.lookup_cons]
    cases x == name with
    | true => simp
    | false => exact h

end Walk

mutual
/-- Nothing is reached through the name of a variable. -/
theorem receiver_root (source : List Char) {w : Walk} (hx : w.local? x ≠ none) :
    ∀ n : Node, (receiver source w n).root? ≠ some x
  | .mk k r e cs => by
    unfold receiver
    split
    · simp [Receiver.root?]
    · simp [Receiver.root?]
    · dsimp only
      split
      · simp [Receiver.root?]
      · simp [Receiver.root?]
      · rename_i hnone
        intro hroot
        rw [Receiver.root?, Option.some.injEq] at hroot
        exact hx (hroot ▸ hnone)
    · split
      · rw [Receiver.root?, Access.root?]
        exact objectReceiver_root source hx cs
      · simp [Receiver.root?]
    · split
      · rw [Receiver.root?, Access.root?]
        exact objectReceiver_root source hx cs
      · simp [Receiver.root?]
    · split <;> simp [Receiver.root?]
    · exact innerReceiver_root source hx cs
    · split <;> simp [Receiver.root?]
    · simp [Receiver.root?]
    · simp [Receiver.root?]

theorem objectReceiver_root (source : List Char) {w : Walk} (hx : w.local? x ≠ none) :
    ∀ ns : List Node, (objectReceiver source w ns).root? ≠ some x
  | [] => by simp [objectReceiver, Receiver.root?]
  | n :: ns => by
    unfold objectReceiver
    split
    · exact receiver_root source hx n
    · exact objectReceiver_root source hx ns

theorem innerReceiver_root (source : List Char) {w : Walk} (hx : w.local? x ≠ none) :
    ∀ ns : List Node, (innerReceiver source w ns).root? ≠ some x
  | [] => by simp [innerReceiver, Receiver.root?]
  | n :: ns => by
    unfold innerReceiver
    split
    · exact receiver_root source hx n
    · exact innerReceiver_root source hx ns
end

/-! ### The steps of a walk with a variable in reach -/

/-- A method that is referred to on a type, whose name a variable may have as well. -/
def ReferredOnType (source : List Char) (roots : List Node) (m : Mention) : Prop :=
  ∃ n ∈ Node.nodesIn roots, n.kind = .methodReference ∧
    ∃ q, n.children.find? Node.isNamed = some q ∧
      q.kind ∈ [.typeIdentifier, .scopedTypeIdentifier, .genericType] ∧
      ∃ name, m = .call (.mk name (.name (stripGenerics (q.text source))))

/-- The site does not take the variable for a field. -/
def Spared (source : List Char) (roots : List Node) (x : String) (s : UseSite) : Prop :=
  s.mention.root? = some x → ReferredOnType source roots s.mention

abbrev Spares (source : List Char) (roots : List Node) (x : String) : Walk → Walk → Prop :=
  LeadsWith (·.local? x ≠ none) (Spared source roots x)

theorem Spares.inFrame {roots : List Node} {w : Walk} {f : Walk → Walk}
    (hleads : Leads w.enter (f w.enter)) (hx : w.local? x ≠ none)
    (h : Spares source roots x w.enter (f w.enter)) : Spares source roots x w (w.inFrame f) := by
  have hframes : (w.inFrame f).frames = w.frames := hleads.below
  have hreach : (w.inFrame f).local? x = w.local? x := by
    unfold Walk.local?
    rw [hframes]
  exact ⟨hreach ▸ hx, h.found⟩

theorem respects_spares (source : List Char) (roots : List Node) (x : String) :
    Respects source (· ∈ Node.nodesIn roots) fun f =>
      ∀ w, Leads w (f w) ∧ (w.local? x ≠ none → Spares source roots x w (f w)) where
  stay w := ⟨.refl w, fun hx => .refl hx⟩
  comp hf hg w :=
    ⟨(hf w).1.trans (hg _).1, fun hx =>
      ((hf w).2 hx).trans ((hg _).2 ((hf w).2 hx).state)⟩
  mention hk n w := by
    refine ⟨(respects_leads source).mention hk n w, fun hx => ?_⟩
    unfold mentionType
    dsimp only
    split
    · exact .refl hx
    · split
      · exact .refl hx
      · exact .record hx (by simp [Spared, Mention.root?])
  mark n w := by
    refine ⟨(respects_leads source).mark n w, fun hx => ?_⟩
    unfold annotationMention
    split
    · exact .record hx (by simp [Spared, Mention.root?])
    · exact .refl hx
  children hn c hc := Node.nodesIn_closed hn c hc
  lone n w := by
    refine ⟨(respects_leads source).lone n w, fun hx => ?_⟩
    dsimp only
    split
    · exact .refl hx
    · rename_i hnone
      refine .record hx fun hroot => ?_
      rw [Mention.root?, Option.some.injEq] at hroot
      exact absurd (hroot ▸ hnone) hx
  call cs name w := by
    refine ⟨(respects_leads source).call cs name w, fun hx => .record hx fun hroot => ?_⟩
    rw [Mention.root?, Access.root?] at hroot
    exact absurd hroot (objectReceiver_root source hx cs)
  field cs name w := by
    refine ⟨(respects_leads source).field cs name w, fun hx => .record hx fun hroot => ?_⟩
    rw [Mention.root?, Access.root?] at hroot
    exact absurd hroot (objectReceiver_root source hx cs)
  refer n q hn hkind hq name w := by
    refine ⟨(respects_leads source).refer n q trivial hkind hq name w, fun hx =>
      .record hx fun hroot => ?_⟩
    dsimp only at hroot ⊢
    rw [Mention.root?, Access.root?] at hroot
    unfold qualifierReceiver at hroot ⊢
    split at hroot
    iterate 3
      · rename_i hqkind
        exact ⟨n, hn, hkind, q, hq, by simp [hqkind], _, rfl⟩
    · simp [Receiver.root?] at hroot
    · exact absurd hroot (receiver_root source hx q)
  declare name type w := by
    refine ⟨.declare w name type, fun hx => .of_found_eq (Walk.local?_declare hx name type) ?_⟩
    unfold Walk.declare
    dsimp only
    split <;> rfl
  hide _ _ name _ w := ⟨.hide w name, fun hx => .of_found_eq hx rfl⟩
  inFrame hf w :=
    ⟨.inFrame (hf w.enter).1, fun hx => .inFrame (hf w.enter).1 hx ((hf w.enter).2 hx)⟩

/-! ### Introducing variables -/

/-- Parts of these kinds are walked in order, in the frame that is open. -/
def passingKinds : List Kind :=
  [.formalParameters, .resources, .parenthesized, .unary, .binary, .ternary, .ifStatement,
    .whileStatement, .doStatement]

def framedKinds : List Kind :=
  [.block, .ctorBody, .switchGroup, .forStatement, .catchClause, .tryWithResources,
    .methodDeclaration, .ctorDeclaration]

/-- The node introduces a variable of this name for what comes after it: it declares a local
variable, a parameter or a resource, or it tests for a type and names what is of the type. -/
inductive Introduces (source : List Char) (x : String) : Node → Prop
  | declared {n d : Node} : n.kind = .localVariableDeclaration → d ∈ n.children →
      d.role = some .declarator → textOfRole source .name d.children = some x →
      Introduces source x n
  | parameter {n : Node} : n.kind = .formalParameter ∨ n.kind = .catchParameter →
      textOfRole source .name n.children = some x → Introduces source x n
  | spread {n d : Node} : n.kind = .spreadParameter → d ∈ n.children →
      d.kind = .variableDeclarator → textOfRole source .name d.children = some x →
      Introduces source x n
  | resource {n : Node} : n.kind = .resource → (textOfRole source .type n.children).isSome →
      textOfRole source .name n.children = some x → Introduces source x n
  | test {n : Node} : n.kind = .instanceOf → (textOfRole source .right n.children).isSome →
      textOfRole source .name n.children = some x → Introduces source x n
  | part {n p : Node} : n.kind ∈ passingKinds → p ∈ n.children → p.isNamed = true →
      p.role ≠ some .name → Introduces source x p → Introduces source x n
  | labeled {n p : Node} : n.kind = .labeledStatement → p ∈ n.children → p.kind ≠ .token →
      p.kind ≠ .identifier → Introduces source x p → Introduces source x n

theorem visit_passing {n : Node} (hn : n.kind ∈ passingKinds) (w : Walk) :
    visit source n w = visitParts source true n.children w := by
  obtain ⟨k, r, e, cs⟩ := n
  replace hn : k ∈ passingKinds := hn
  simp only [passingKinds, List.mem_cons, List.not_mem_nil, or_false] at hn
  rcases hn with rfl | rfl | rfl | rfl | rfl | rfl | rfl | rfl | rfl
  all_goals unfold visit; rfl

theorem visit_framed {n : Node} (hn : n.kind ∈ framedKinds) (w : Walk) :
    visit source n w = w.inFrame (visitParts source true n.children) := by
  obtain ⟨k, r, e, cs⟩ := n
  replace hn : k ∈ framedKinds := hn
  simp only [framedKinds, List.mem_cons, List.not_mem_nil, or_false] at hn
  rcases hn with rfl | rfl | rfl | rfl | rfl | rfl | rfl | rfl
  all_goals unfold visit; rfl

theorem visitParts_append (source : List Char) (skip : Bool) (as bs : List Node) (w : Walk) :
    ∃ skip', visitParts source skip (as ++ bs) w =
      visitParts source skip' bs (visitParts source skip as w) := by
  induction as generalizing skip w with
  | nil => exact ⟨skip, by simp [visitParts]⟩
  | cons a as ih =>
    simp only [List.cons_append, visitParts]
    split
    · exact ih false w
    · exact ih skip _

theorem visitParts_cons {n : Node} (hnamed : n.isNamed = true) (hrole : n.role ≠ some .name)
    (skip : Bool) (ns : List Node) (w : Walk) :
    visitParts source skip (n :: ns) w = visitParts source skip ns (visit source n w) := by
  have hname : (n.role == some .name) = false := by simpa using hrole
  simp [visitParts, hnamed, hname]

theorem visitKinds_append (p : Kind → Bool) (as bs : List Node) (w : Walk) :
    visitKinds source p (as ++ bs) w = visitKinds source p bs (visitKinds source p as w) := by
  induction as generalizing w with
  | nil => simp [visitKinds]
  | cons a as ih =>
    simp only [List.cons_append, visitKinds]
    exact ih _

theorem visitDeclarators_append (type : Option String) (as bs : List Node) (w : Walk) :
    visitDeclarators source type (as ++ bs) w =
      visitDeclarators source type bs (visitDeclarators source type as w) := by
  induction as generalizing w with
  | nil => simp [visitDeclarators]
  | cons a as ih =>
    obtain ⟨k, r, e, inner⟩ := a
    simp only [List.cons_append, visitDeclarators]
    split
    · exact ih _
    · exact ih _

theorem Leads.frames_ne {w w' : Walk} (h : Leads w w') (hw : w.frames ≠ []) : w'.frames ≠ [] := by
  intro hnil
  have hdepth := h.depth
  rw [hnil, List.length_nil, eq_comm, List.length_eq_zero_iff] at hdepth
  exact hw hdepth

theorem Node.subset_nodesIn (ns : List Node) : ∀ n ∈ ns, n ∈ Node.nodesIn ns := fun n hn =>
  Node.mem_nodesIn.mpr ⟨n, hn, n.self_mem_nodes⟩

section

variable {w : Walk}

theorem local?_declareRole (hw : w.frames ≠ []) {r : Role} {cs : List Node}
    (hname : textOfRole source r cs = some x) (type : Option String) :
    (declareRole source r cs type w).local? x ≠ none := by
  unfold declareRole
  rw [hname]
  exact Walk.local?_declare_self hw x type

theorem local?_visitParts (before : List Node) {d : Node} (hnamed : d.isNamed = true)
    (hrole : d.role ≠ some .name)
    (hd : ∀ w : Walk, w.frames ≠ [] → (visit source d w).local? x ≠ none)
    (skip : Bool) (hw : w.frames ≠ []) :
    (visitParts source skip (before ++ [d]) w).local? x ≠ none := by
  obtain ⟨skip', happend⟩ := visitParts_append source skip before [d] w
  rw [happend, visitParts_cons hnamed hrole]
  unfold visitParts
  have hleads := (respects_leads source).visitParts skip before (fun _ _ => trivial) w
  exact hd _ (hleads.frames_ne hw)

theorem local?_visitDeclarators (before : List Node) {d : Node} (hrole : d.role = some .declarator)
    (hname : textOfRole source .name d.children = some x) (type : Option String)
    (hw : w.frames ≠ []) :
    (visitDeclarators source type (before ++ [d]) w).local? x ≠ none := by
  obtain ⟨k, r, e, inner⟩ := d
  obtain rfl : r = some .declarator := hrole
  have hbefore := (respects_leads source).visitDeclarators type before (fun _ _ => trivial) w
  rw [visitDeclarators_append]
  simp only [visitDeclarators, beq_self_eq_true, if_true]
  refine local?_declareRole ?_ hname _
  have hvalue := (respects_leads source).visitRole .value inner (fun _ _ => trivial)
    (visitDeclarators source type before w)
  exact hvalue.frames_ne (hbefore.frames_ne hw)

theorem local?_parameterParts {d : Node} (hkind : d.kind = .variableDeclarator)
    (hname : textOfRole source .name d.children = some x) :
    ∀ (declared : Option String) (ns : List Node) (w : Walk), d ∈ ns → w.frames ≠ [] →
      (visitParameterParts source declared ns w).2.local? x ≠ none
  | _, [], _, hd, _ => absurd hd List.not_mem_nil
  | declared, .mk k r e inner :: ns, w, hd, hw => by
    have hrest : ∀ declared w, w.frames ≠ [] → d ∈ ns →
        (visitParameterParts source declared ns w).2.local? x ≠ none := fun declared w hw hd =>
      local?_parameterParts hkind hname declared ns w hd hw
    have hother : k ≠ .variableDeclarator → d ∈ ns := by
      intro hne
      rcases List.mem_cons.mp hd with rfl | hd
      · exact absurd hkind hne
      · exact hd
    unfold visitParameterParts
    dsimp only
    split
    iterate 4
      · exact hrest _ _ hw (hother (by simp))
    · have hvalue := (respects_leads source).visitRole .value inner (fun _ _ => trivial) w
      rcases List.mem_cons.mp hd with rfl | hd
      · obtain ⟨type, -, hparts⟩ := (respects_spares source ns x).visitParameterParts declared ns
          (Node.subset_nodesIn ns)
        exact ((hparts _).2 (local?_declareRole (hvalue.frames_ne hw) hname _)).state
      · refine hrest _ _ ?_ hd
        exact ((respects_leads source).declareRole .name inner _ _).frames_ne (hvalue.frames_ne hw)
    · refine hrest _ _ ?_ (hother (by assumption))
      exact (leads_typeRefs source (by simp) _ w).frames_ne hw

theorem sites_declareRole (r : Role) (cs : List Node) (type : Option String) :
    (declareRole source r cs type w).sites = w.sites := by
  unfold declareRole
  split
  · unfold Walk.declare
    split <;> rfl
  · rfl

/-! A variable is in reach once what introduces it has been walked. -/

theorem leads_typeUses (source : List Char) (r : Role) (cs : List Node) (w : Walk) :
    Leads w (typeRefsOfRole source .typeUse r cs w) :=
  (respects_leads source).typeRefsOfRole (by simp) r cs w

theorem local?_visit_declaration {r : Option Role} {e : Extent} {before after : List Node}
    {d : Node} (hrole : d.role = some .declarator)
    (hname : textOfRole source .name d.children = some x) (hw : w.frames ≠ []) :
    (visit source (.mk .localVariableDeclaration r e (before ++ d :: after)) w).local? x ≠
      none := by
  unfold visit
  dsimp only
  generalize textOfRole source .type (before ++ d :: after) = type
  have hmods := (leads_modifierAnnotations source (before ++ d :: after) w).frames_ne hw
  have htype := (leads_typeUses source .type (before ++ d :: after) _).frames_ne hmods
  rw [List.append_cons before d after] at htype ⊢
  rw [visitDeclarators_append]
  have hreach := local?_visitDeclarators before hrole hname type htype
  have hafter := (respects_spares source after x).visitDeclarators type after
    (Node.subset_nodesIn after)
  exact ((hafter _).2 hreach).state

theorem local?_visit_parameter {n : Node}
    (hkind : n.kind = .formalParameter ∨ n.kind = .catchParameter)
    (hname : textOfRole source .name n.children = some x) (hw : w.frames ≠ []) :
    (visit source n w).local? x ≠ none := by
  obtain ⟨k, r, e, cs⟩ := n
  have hmods := (leads_modifierAnnotations source cs w).frames_ne hw
  obtain ⟨type, -, hparts⟩ := (respects_leads source).visitParameterParts none cs
    fun _ _ => trivial
  have hframes := (hparts _).frames_ne hmods
  rcases hkind with hkind | hkind
  all_goals
    obtain rfl : k = _ := hkind
    unfold visit
    exact local?_declareRole hframes hname _

theorem local?_visit_spread {r : Option Role} {e : Extent} {cs : List Node} {d : Node}
    (hd : d ∈ cs) (hkind : d.kind = .variableDeclarator)
    (hname : textOfRole source .name d.children = some x) (hw : w.frames ≠ []) :
    (visit source (.mk .spreadParameter r e cs) w).local? x ≠ none := by
  have hmods := (leads_modifierAnnotations source cs w).frames_ne hw
  have hreach := local?_parameterParts hkind hname none cs _ hd hmods
  unfold visit
  exact (((respects_spares source [] x).declareRole .name cs _ _).2 hreach).state

theorem local?_visit_resource {r : Option Role} {e : Extent} {cs : List Node} {type : String}
    (htype : textOfRole source .type cs = some type)
    (hname : textOfRole source .name cs = some x) (hw : w.frames ≠ []) :
    (visit source (.mk .resource r e cs) w).local? x ≠ none := by
  have hrefs := (leads_typeUses source .type cs w).frames_ne hw
  have hvalue :=
    ((respects_leads source).visitRole .value cs (fun _ _ => trivial) _).frames_ne hrefs
  unfold visit
  rw [htype]
  exact local?_declareRole hvalue hname _

theorem local?_visit_test {r : Option Role} {e : Extent} {cs : List Node} {type : String}
    (htype : textOfRole source .right cs = some type)
    (hname : textOfRole source .name cs = some x) (hw : w.frames ≠ []) :
    (visit source (.mk .instanceOf r e cs) w).local? x ≠ none := by
  have hleft := ((respects_leads source).visitRole .left cs (fun _ _ => trivial) w).frames_ne hw
  have hrefs := (leads_typeUses source .right cs _).frames_ne hleft
  have hreach := local?_declareRole hrefs hname (some type)
  have hpattern := (respects_spares source cs x).visitPattern cs (Node.subset_nodesIn cs)
  unfold visit
  rw [htype]
  exact ((hpattern _).2 hreach).state

theorem Introduces.in_reach {n : Node} (h : Introduces source x n) :
    ∀ w : Walk, w.frames ≠ [] → (visit source n w).local? x ≠ none := by
  induction h with
  | @declared n d hkind hd hrole hname =>
    intro w hw
    obtain ⟨k, r, e, cs⟩ := n
    obtain rfl : k = .localVariableDeclaration := hkind
    obtain ⟨before, after, rfl⟩ := List.append_of_mem (show d ∈ cs from hd)
    exact local?_visit_declaration hrole hname hw
  | parameter hkind hname => exact fun _ hw => local?_visit_parameter hkind hname hw
  | @spread n d hkind hd hdkind hname =>
    intro w hw
    obtain ⟨k, r, e, cs⟩ := n
    obtain rfl : k = .spreadParameter := hkind
    exact local?_visit_spread hd hdkind hname hw
  | @resource n hkind htype hname =>
    intro w hw
    obtain ⟨k, r, e, cs⟩ := n
    obtain rfl : k = .resource := hkind
    obtain ⟨type, htype⟩ := Option.isSome_iff_exists.mp htype
    exact local?_visit_resource htype hname hw
  | @test n hkind hright hname =>
    intro w hw
    obtain ⟨k, r, e, cs⟩ := n
    obtain rfl : k = .instanceOf := hkind
    obtain ⟨type, htype⟩ := Option.isSome_iff_exists.mp hright
    exact local?_visit_test htype hname hw
  | @part n p hn hp hnamed hrole _ ih =>
    intro w hw
    obtain ⟨before, after, hsplit⟩ := List.append_of_mem hp
    rw [visit_passing hn, hsplit, List.append_cons]
    obtain ⟨skip, happend⟩ := visitParts_append source true (before ++ [p]) after w
    rw [happend]
    have hreach := local?_visitParts before hnamed hrole ih true hw
    have hafter := (respects_spares source after x).visitParts skip after
      (Node.subset_nodesIn after)
    exact ((hafter _).2 hreach).state
  | @labeled n p hkind hp htoken hident _ ih =>
    intro w hw
    obtain ⟨k, r, e, cs⟩ := n
    obtain rfl : k = .labeledStatement := hkind
    obtain ⟨before, after, rfl⟩ := List.append_of_mem (show p ∈ cs from hp)
    have hbefore := ((respects_leads source).visitKinds
      (fun k => k != .token && k != .identifier) before (fun _ _ => trivial) w).frames_ne hw
    have hafter := (respects_spares source after x).visitKinds
      (fun k => k != .token && k != .identifier) after (Node.subset_nodesIn after)
    unfold visit
    dsimp only
    rw [visitKinds_append]
    unfold visitKinds
    rw [if_pos (by simp [htoken, hident])]
    exact ((hafter _).2 (ih _ hbefore)).state

/-! ### Scopes -/

inductive NamesParameter (source : List Char) (x : String) (ps : Node) : Prop
  | lone : ps.kind = .identifier → ps.text source = x → NamesParameter source x ps
  | inferred {p : Node} : ps.kind = .inferredParameters → p ∈ ps.named → p.text source = x →
      NamesParameter source x ps
  | written {p : Node} : ps.kind = .formalParameters → p ∈ ps.children → p.kind ≠ .token →
      Introduces source x p → NamesParameter source x ps

/-- A variable of the name is in scope in what is left of the node after the first steps of its
walk: behind the part that introduces it, in the declarators behind its own, in the body of the
lambda whose parameter it is, or in the body of the loop that it runs through. -/
inductive Scope (source : List Char) (x : String) : Node → (Walk → Walk) → Prop
  | framed {n d : Node} {before after : List Node} : n.kind ∈ framedKinds →
      n.children = before ++ d :: after → d.isNamed = true → d.role ≠ some .name →
      Introduces source x d →
      Scope source x n fun w => visitParts source true (before ++ [d]) w.enter
  | passing {n d : Node} {before after : List Node} : n.kind ∈ passingKinds →
      n.children = before ++ d :: after → d.isNamed = true → d.role ≠ some .name →
      Introduces source x d → Scope source x n (visitParts source true (before ++ [d]))
  | declarators {n d : Node} {before after : List Node} : n.kind = .localVariableDeclaration →
      n.children = before ++ d :: after → d.role = some .declarator →
      textOfRole source .name d.children = some x →
      Scope source x n fun w =>
        visitDeclarators source (textOfRole source .type n.children) (before ++ [d])
          (typeRefsOfRole source .typeUse .type n.children
            (modifierAnnotations source n.children w))
  | lambda {n ps : Node} : n.kind = .lambda → n.child? .parameters = some ps →
      NamesParameter source x ps →
      Scope source x n fun w => visitLambdaParameters source n.children w.enter
  | loop {n : Node} : n.kind = .enhancedForStatement →
      textOfRole source .name n.children = some x →
      Scope source x n fun w =>
        visitRole source .value n.children
          (typeRefsOfRole source .typeUse .type n.children w.enter)

theorem local?_foldl_declare {ps : List Node} {p : Node} (hp : p ∈ ps) (hname : p.text source = x)
    (hw : w.frames ≠ []) :
    (ps.foldl (fun w p => w.declare (p.text source) none) w).local? x ≠ none := by
  obtain ⟨before, after, rfl⟩ := List.append_of_mem hp
  have hdeclare := fun ps : List Node => (respects_spares source [] x).foldl
    fun p (_ : p ∈ ps) => (respects_spares source [] x).declare (p.text source) none
  have hbefore := ((hdeclare before) w).1.frames_ne hw
  rw [List.foldl_append, List.foldl_cons]
  refine ((hdeclare after _).2 ?_).state
  rw [hname]
  exact Walk.local?_declare_self hbefore x none

theorem local?_visitKinds_token {ps : List Node} {p : Node} (hp : p ∈ ps)
    (hkind : p.kind ≠ .token) (h : Introduces source x p) (hw : w.frames ≠ []) :
    (visitKinds source (fun k => k != .token) ps w).local? x ≠ none := by
  obtain ⟨before, after, rfl⟩ := List.append_of_mem hp
  have hbefore := ((respects_leads source).visitKinds (fun k => k != .token) before
    (fun _ _ => trivial) w).frames_ne hw
  have hafter := (respects_spares source after x).visitKinds (fun k => k != .token) after
    (Node.subset_nodesIn after)
  rw [visitKinds_append]
  unfold visitKinds
  rw [if_pos (by simp [hkind])]
  exact ((hafter _).2 (h.in_reach _ hbefore)).state

theorem local?_visitLambdaParameters {ps : Node} (h : NamesParameter source x ps) :
    ∀ (ns : List Node) (w : Walk), ns.find? (·.role == some .parameters) = some ps →
      w.frames ≠ [] → (visitLambdaParameters source ns w).local? x ≠ none
  | [], _, hps, _ => by cases hps
  | .mk k r e inner :: ns, w, hps, hw => by
    unfold visitLambdaParameters
    rw [List.find?_cons] at hps
    split
    · rename_i hrole
      rw [show ((Node.mk k r e inner).role == some .parameters) = true from hrole] at hps
      obtain rfl := Option.some.inj hps
      cases h with
      | lone hkind hname =>
        obtain rfl : k = .identifier := hkind
        exact hname ▸ Walk.local?_declare_self hw _ none
      | inferred hkind hp hname =>
        obtain rfl : k = .inferredParameters := hkind
        exact local?_foldl_declare hp hname hw
      | written hkind hp hpkind hintroduces =>
        obtain rfl : k = .formalParameters := hkind
        exact local?_visitKinds_token hp hpkind hintroduces hw
    · rename_i hrole
      rw [show ((Node.mk k r e inner).role == some .parameters) = false by
        simpa [Node.role] using hrole] at hps
      exact local?_visitLambdaParameters h ns w hps hw

theorem spared_behind {n d : Node} {before after : List Node}
    (hsplit : n.children = before ++ d :: after) (hnamed : d.isNamed = true)
    (hrole : d.role ≠ some .name) (hd : Introduces source x d) (hw : w.frames ≠ []) :
    ∃ new, (visitParts source true n.children w).sites =
      (visitParts source true (before ++ [d]) w).sites ++ new ∧
      ∀ s ∈ new, Spared source n.children x s := by
  have hafter : ∀ c ∈ after, c ∈ Node.nodesIn n.children := fun c hc =>
    Node.subset_nodesIn _ c (hsplit ▸ List.mem_append_right _ (List.mem_cons_of_mem _ hc))
  obtain ⟨skip, happend⟩ := visitParts_append source true (before ++ [d]) after w
  have hreach := local?_visitParts before hnamed hrole hd.in_reach true hw
  have hspares := (respects_spares source n.children x).visitParts skip after hafter
  have hsites := ((hspares _).2 hreach).sites
  rwa [← happend, List.append_assoc, List.singleton_append, ← hsplit] at hsites

/-- What is found with the variable in scope spares it. -/
theorem Scope.spared {n : Node} {upTo : Walk → Walk} (h : Scope source x n upTo)
    (hw : w.frames ≠ []) :
    ∃ new, (visit source n w).sites = (upTo w).sites ++ new ∧
      ∀ s ∈ new, Spared source n.children x s := by
  have hspares := respects_spares source n.children x
  have hchildren := Node.subset_nodesIn n.children
  have henter : w.enter.frames ≠ [] := by simp [Walk.enter]
  cases h with
  | framed hn hsplit hnamed hrole hd =>
    rw [visit_framed hn]
    exact spared_behind hsplit hnamed hrole hd henter
  | passing hn hsplit hnamed hrole hd =>
    rw [visit_passing hn]
    exact spared_behind hsplit hnamed hrole hd hw
  | @declarators d before after hkind hsplit hrole hname =>
    obtain ⟨k, r, e, cs⟩ := n
    obtain rfl : k = .localVariableDeclaration := hkind
    obtain rfl : cs = before ++ d :: after := hsplit
    have hafter : ∀ c ∈ after, c ∈ Node.nodesIn (before ++ d :: after) := fun c hc =>
      hchildren c (List.mem_append_right _ (List.mem_cons_of_mem _ hc))
    have hmods := (leads_modifierAnnotations source (before ++ d :: after) w).frames_ne hw
    have htype := (leads_typeUses source .type (before ++ d :: after) _).frames_ne hmods
    have hreach := local?_visitDeclarators before hrole hname
      (textOfRole source .type (before ++ d :: after)) htype
    have hsites := ((hspares.visitDeclarators (textOfRole source .type (before ++ d :: after))
      after hafter _).2 hreach).sites
    rw [← visitDeclarators_append, List.append_assoc, List.singleton_append] at hsites
    unfold visit
    exact hsites
  | lambda hkind hps hnames =>
    obtain ⟨k, r, e, cs⟩ := n
    obtain rfl : k = .lambda := hkind
    have hreach := local?_visitLambdaParameters hnames cs w.enter hps henter
    unfold visit
    exact ((hspares.visitRole .body cs hchildren _).2 hreach).sites
  | loop hkind hname =>
    obtain ⟨k, r, e, cs⟩ := n
    obtain rfl : k = .enhancedForStatement := hkind
    have htype := (leads_typeUses source .type cs w.enter).frames_ne henter
    have hvalue :=
      ((respects_leads source).visitRole .value cs (fun _ _ => trivial) _).frames_ne htype
    have hreach := local?_declareRole hvalue hname (textOfRole source .type cs)
    have hsites := ((hspares.visitRole .body cs hchildren _).2 hreach).sites
    rw [sites_declareRole] at hsites
    unfold visit
    exact hsites

end

def Reader.parametersWalk (r : Reader) (n params : Node) : Walk :=
  let w := modifierAnnotations r.source n.children (r.walk (r.typeParameterNames n))
  let w := match n.child? .typeParameters with
    | some c => typeParameterRefs r.source c w
    | none => w
  let w := match n.child? .type with | some c => typeRefs r.source .typeUse c w | none => w
  visitParameters r.source params w

theorem callableSites_spared (r : Reader) {n params p : Node}
    (hparams : n.child? .parameters = some params) (hp : p ∈ params.children)
    (hkind : p.kind ≠ .token) (h : Introduces r.source x p) :
    ∃ new, r.callableSites n = (r.parametersWalk n params).sites ++ new ∧
      ∀ s ∈ new, Spared r.source n.children x s := by
  have hspares := respects_spares r.source n.children x
  have hchildren := Node.subset_nodesIn n.children
  have hthrows := hspares.optional (n.firstOf? .throws) fun c _ =>
    hspares.foldl fun t (_ : t ∈ c.named) =>
      hspares.typeRefs (show Reference.Kind.throws ≠ .unresolved by simp) t
  have hbody := hspares.childVisit hchildren .body
  have hvalue := hspares.childVisit hchildren .value
  have hreach : (r.parametersWalk n params).local? x ≠ none := by
    have hleads := respects_leads r.source
    have hstart : (r.walk (r.typeParameterNames n)).frames ≠ [] := by simp [Reader.walk]
    have hbounds := hleads.optional (n.child? .typeParameters) fun c _ => hleads.typeParameterRefs c
    have htype := hleads.optional (n.child? .type) fun c _ =>
      hleads.typeRefs (show Reference.Kind.typeUse ≠ .unresolved by simp) c
    have hfront := hleads.comp (hleads.comp (hleads.modifierAnnotations n.children) hbounds) htype
    exact local?_visitKinds_token hp hkind h ((hfront _).frames_ne hstart)
  have hsites := ((hspares.comp (hspares.comp hthrows hbody) hvalue _).2 hreach).sites
  unfold Reader.callableSites
  rw [hparams]
  exact hsites

/-- Where a variable is in scope, no lone name and nothing that a member is reached through is
taken for a field of its name: only a method that is referred to on a type may begin so. -/
theorem locals_are_no_fields (source : List Char) (x : String) :
    (∀ n upTo, Scope source x n upTo → ∀ w : Walk, w.frames ≠ [] →
      ∃ new, (visit source n w).sites = (upTo w).sites ++ new ∧
        ∀ s ∈ new, Spared source n.children x s) ∧
    ∀ r : Reader, r.source = source → ∀ n params p, n.child? .parameters = some params →
      p ∈ params.children → p.kind ≠ .token → Introduces source x p →
      ∃ new, r.callableSites n = (r.parametersWalk n params).sites ++ new ∧
        ∀ s ∈ new, Spared source n.children x s := by
  refine ⟨fun n upTo hscope w hw => hscope.spared hw, ?_⟩
  rintro r rfl n params p hparams hp hkind hintroduces
  exact callableSites_spared r hparams hp hkind hintroduces

def counting : List Char :=
  ("class T \x7b int k; int m(Object o) \x7b for (int k = 0, j = k; k < j; k++) " ++
    "run(() -> k.go(j)); return o instanceof K t && t.ok(o) ? t.k : k; \x7d \x7d").toList

def countingReader : Reader :=
  { source := counting, path := ⟨"T.java"⟩, provenance := { module := "m" }, package := none }

/-- The variable is spared in the loop and the parameter in the method, so that of all sites only
the last one begins with a name. -/
theorem counting_spares_locals :
    (∃ n upTo new, Scope counting "k" n upTo ∧
      (visit counting n { hidden := [] }).sites = (upTo { hidden := [] }).sites ++ new ∧
      ∀ s ∈ new, Spared counting n.children "k" s) ∧
    ∃ n params new, n.child? .parameters = some params ∧
      countingReader.callableSites n = (countingReader.parametersWalk n params).sites ++ new ∧
      (∀ s ∈ new, Spared counting n.children "o" s) ∧
      (countingReader.callableSites n).map (·.mention.root?) =
        [none, none, none, none, none, none, some "k"] := by
  have hloop : ∃ n ∈ Node.nodesIn (parse counting).children, n.kind = .forStatement ∧
      ∃ d ∈ n.children, d.isNamed = true ∧ d.role ≠ some .name ∧
      d.kind = .localVariableDeclaration ∧ ∃ v ∈ d.children, v.role = some .declarator ∧
        textOfRole counting .name v.children = some "k" := by decide +kernel
  have hmethod : ∃ m ∈ Node.nodesIn (parse counting).children, m.kind = .methodDeclaration ∧
      (countingReader.callableSites m).map (·.mention.root?) =
        [none, none, none, none, none, none, some "k"] ∧
      ∃ params ∈ m.child? .parameters, ∃ p ∈ params.children, p.kind = .formalParameter ∧
        textOfRole counting .name p.children = some "o" := by decide +kernel
  obtain ⟨n, -, hkind, d, hd, hnamed, hrole, hdkind, v, hv, hvrole, hname⟩ := hloop
  obtain ⟨before, after, hsplit⟩ := List.append_of_mem hd
  have hscope := Scope.framed (by simp [framedKinds, hkind]) hsplit hnamed hrole
    (.declared hdkind hv hvrole hname)
  obtain ⟨new, hnew, hspared⟩ :=
    (locals_are_no_fields counting "k").1 n _ hscope { hidden := [] } (by simp)
  obtain ⟨m, -, -, hroots, params, hparams, p, hp, hpkind, hpname⟩ := hmethod
  have hsource : countingReader.source = counting := by simp only [countingReader]
  obtain ⟨new', hnew', hspared'⟩ := (locals_are_no_fields counting "o").2 countingReader hsource m
    params p hparams hp (by simp [hpkind]) (.parameter (.inl hpkind) hpname)
  exact ⟨⟨n, _, new, hscope, hnew, hspared⟩, m, params, new', hparams, hnew', hspared', hroots⟩

end Java

end Carve
