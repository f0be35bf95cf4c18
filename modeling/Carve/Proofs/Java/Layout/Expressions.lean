import Carve.Java.Grammar.Expressions
import Carve.Proofs.Java.Layout.Types

/-!
# Places of expressions

What stands to the left of an operator or a dot was read before and becomes the first part of the
node that the production makes.
-/

namespace Carve.Java.Grammar

open Parse

variable {code : List Token} {sub : Sub} {lo : Nat}

theorem spells_arguments (h : Spelt code sub) : Spells code (arguments sub) :=
  spells_build (by decide) fun _ =>
    (spells_symbol _).bind fun _ _ hopening =>
    (spells_maybe (spells_commaList (h .expression)).all).bind fun _ _ hargs =>
    (spells_symbol _).bind fun _ _ hclosing =>
    .pure ⟨(hopening.append hargs).append hclosing, by simp⟩

theorem spells_parenthesized (h : Spelt code sub) : Spells code (parenthesized sub) :=
  spells_build (by decide) fun _ =>
    (spells_symbol _).bind fun _ _ hopening =>
    (h .expression).bind fun _ _ hinner =>
    (spells_symbol _).bind fun _ _ hclosing =>
    .pure ⟨hopening.append (hinner.append hclosing), by simp⟩

theorem spells_arrayInitializer (h : Spelt code sub) : Spells code (arrayInitializer sub) :=
  spells_build (by decide) fun _ =>
    (spells_symbol _).bind fun _ _ hopening =>
    (spells_maybe (spells_commaList (h .initializer)).all).bind fun _ _ hvalues =>
    (spells_option (spells_symbol _)).bind fun _ _ hcomma =>
    (spells_symbol _).bind fun _ _ hclosing =>
    .pure ⟨((hopening.append hvalues).append hcomma).append hclosing, by simp⟩

theorem spells_initializer (h : Spelt code sub) : Spells code (initializer sub) := fun _ =>
  (looks_looksAt _).reads fun _ =>
    .ite (fun _ => spells_arrayInitializer h _) fun _ => h .expression _

theorem operatorAt_length {ts : List Token} {text : String} {n : Nat}
    (h : operatorAt ts = some (text, n)) : 0 < n ∧ n ≤ ts.length := by
  unfold operatorAt at h
  repeat' split at h
  all_goals simp only [Option.some.injEq, Prod.mk.injEq, reduceCtorEq] at h
  all_goals obtain ⟨-, rfl⟩ := h; simp

theorem row_operator {ts : List Token} {hi n : Nat} (h : Queue code lo ts hi) (hpos : 0 < n)
    (hle : n ≤ ts.length) : ∃ mid,
      Row code lo
        [.mk .token none (Node.branch .token ((ts.take n).map (leaf .token))).extent []] mid ∧
      Queue code mid (ts.drop n) hi := by
  rw [← List.take_append_drop n ts] at h
  obtain ⟨mid, hfront, hback⟩ := h.split
  refine ⟨mid, ?_, hback⟩
  have hne : (ts.take n).map (leaf .token) ≠ [] := by
    rw [Ne, List.map_eq_nil_iff, ← List.length_eq_zero_iff, List.length_take]
    omega
  have hrow := row_branch (k := .token) rfl (hfront.row_leaves (by decide)) hne
  generalize Node.branch .token ((ts.take n).map (leaf .token)) = joined at hrow
  cases hrow.chain with
  | cons hstart hrest =>
    have hlaid := hrow.laid joined List.mem_cons_self
    refine ⟨.cons hstart (by cases hrest with | nil hle => exact .nil hle), fun m hm => ?_⟩
    rw [List.mem_singleton.mp hm]
    exact .intro hlaid.starts hlaid.stops hlaid.nonempty (.nil (Nat.le_of_lt hlaid.nonempty))
      (fits_of_isLoose rfl _ _ _) (by simp)

theorem spells_operator (allowed : String → Bool) : Spells code (operator allowed) := by
  intro lo ts hi n rest heq hts
  unfold operator at heq
  split at heq
  · rename_i text k hop
    split at heq
    · obtain ⟨rfl, rfl⟩ := Prod.mk.inj (Option.some.inj heq)
      obtain ⟨hpos, hle⟩ := operatorAt_length hop
      exact row_operator hts hpos hle
    · cases heq
  · cases heq

theorem spells_instanceOfRight (h : Spelt code sub) : SpellsAll code (instanceOfRight sub) := by
  have hpattern : SpellsAll code (do
      let p ← sub .recordPattern
      return [p.as .pattern]) := fun _ =>
    (h .recordPattern).bind fun _ _ hp => .pure (hp.as _)
  have htype : SpellsAll code (do
      let type ← sub .type
      let bound ← maybe (one name)
      return type.as .right :: bound.map (·.as .name)) := fun _ =>
    (h .type).bind fun _ _ htype =>
    (spells_option spells_name).bind fun _ _ hbound =>
    .pure ((htype.as _).append (hbound.mapAs _))
  have hright : SpellsAll code ((do
      let p ← sub .recordPattern
      return [p.as .pattern]) <|> (do
      let type ← sub .type
      let bound ← maybe (one name)
      return type.as .right :: bound.map (·.as .name))) :=
    fun lo => (hpattern lo).orElse (htype lo)
  exact fun _ => (spells_option (spells_word _)).bind fun _ _ hfinal =>
    hright.bind fun _ _ hright =>
    .pure (hfinal.append hright)

theorem reads_binaryRest (h : Spelt code sub) (fuel : Nat) :
    ∀ (lo least mid : Nat) (left : Node), Row code lo [left] mid →
      Reads code mid (fun n => Row code lo [n]) (binaryRest sub fuel least left) := by
  induction fuel with
  | zero =>
    intro lo least mid left hleft ts hi n rest heq hts
    obtain ⟨rfl, rfl⟩ := Prod.mk.inj (Option.some.inj heq)
    exact ⟨mid, hleft, hts⟩
  | succ fuel ih =>
    intro lo least mid left hleft ts hi n rest heq hts
    have hstay : (left, ts) = (n, rest) →
        ∃ stop, Row code lo [n] stop ∧ Queue code stop rest hi := by
      intro he
      obtain ⟨rfl, rfl⟩ := Prod.mk.inj he
      exact ⟨mid, hleft, hts⟩
    unfold binaryRest at heq
    split at heq
    · exact hstay (Option.some.inj heq)
    rename_i text k hop
    split at heq
    · exact hstay (Option.some.inj heq)
    rename_i s _
    split at heq
    · exact hstay (Option.some.inj heq)
    obtain ⟨hpos, hle⟩ := operatorAt_length hop
    obtain ⟨stop, hop, hdrop⟩ := row_operator hts hpos hle
    generalize Node.mk .token none _ [] = op at heq hop
    dsimp only at heq
    split at heq
    · cases heq
    rename_i node rest' hcombined
    have hnode : ∃ stop', Row code lo [node] stop' ∧ Queue code stop' rest' hi := by
      split at hcombined
      · obtain ⟨⟨right, rest''⟩, hread, he⟩ := Option.map_eq_some_iff.mp hcombined
        obtain ⟨rfl, rfl⟩ := Prod.mk.inj he
        obtain ⟨last, hright, hrest⟩ := spells_instanceOfRight h stop _ hi right rest'' hread hdrop
        exact ⟨last, row_branch (by decide) ((hleft.as _).append (hop.append hright)) (by simp),
          hrest⟩
      · split at hcombined
        · cases hcombined
        rename_i operand ts' hread
        obtain ⟨mid', hoperand, hmid⟩ := h .operand stop _ hi operand ts' hread hdrop
        obtain ⟨⟨right, rest''⟩, hread', he⟩ := Option.map_eq_some_iff.mp hcombined
        obtain ⟨rfl, rfl⟩ := Prod.mk.inj he
        obtain ⟨last, hright, hrest⟩ :=
          ih stop (s + 1) mid' operand hoperand ts' hi right rest'' hread' hmid
        exact ⟨last, row_branch (by decide)
          ((hleft.as _).append (hop.append (hright.as _))) (by simp), hrest⟩
    obtain ⟨stop', hnode, hrest⟩ := hnode
    exact ih lo least stop' node hnode rest' hi n rest heq hrest

theorem spells_binary (h : Spelt code sub) : Spells code (binary sub) := fun lo =>
  (h .operand).bind fun first mid hfirst ts =>
    reads_binaryRest h (ts.length + 1) lo 0 mid first hfirst ts

theorem spells_expression (h : Spelt code sub) : Spells code (expression sub) := fun _ =>
  (spells_binary h).bind fun left mid hleft => (looks_looksAt _).reads fun _ => .ite
    (fun _ => reads_build (by decide) <|
      (spells_symbol _).bind fun _ _ hquestion =>
      (h .expression).bind fun _ _ hyes =>
      (spells_symbol _).bind fun _ _ hcolon =>
      (h .expression).bind fun _ _ hno =>
      .pure ⟨hleft.append (hquestion.append (hyes.append (hcolon.append hno))), by simp⟩)
    (fun _ ts hi n rest heq hts => by
      dsimp only at heq
      split at heq
      · rename_i op ts' hread
        obtain ⟨stop, hop, hmid⟩ := spells_operator _ mid ts hi op ts' hread hts
        obtain ⟨⟨right, rest'⟩, hread', he⟩ := Option.map_eq_some_iff.mp heq
        obtain ⟨rfl, rfl⟩ := Prod.mk.inj he
        obtain ⟨last, hright, hrest⟩ := h .expression stop ts' hi right rest' hread' hmid
        exact ⟨last, row_branch (by decide)
          ((hleft.as _).append (hop.append (hright.as _))) (by simp), hrest⟩
      · obtain ⟨rfl, rfl⟩ := Prod.mk.inj (Option.some.inj heq)
        exact ⟨mid, hleft, hts⟩)

theorem spells_inferredParameters : Spells code inferredParameters :=
  spells_build (by decide) fun _ =>
    (spells_symbol _).bind fun _ _ hopening =>
    (spells_commaList spells_name).bind fun _ _ hnames _ =>
    (spells_symbol _).bind fun _ _ hclosing =>
    .pure ⟨(hopening.append hnames).append hclosing, by simp⟩

theorem spells_lambda (h : Spelt code sub) : Spells code (lambda sub) := by
  have hbody : Spells code (do
      if ← atSymbol "\x7b" then sub .block else sub .expression) := fun _ =>
    (looks_looksAt _).reads fun _ => .ite (fun _ => h .block _) fun _ => h .expression _
  exact spells_build (by decide) fun _ =>
    (spells_name.orElse (spells_inferredParameters.orElse (h .formalParameters))).bind
      fun _ _ hparams =>
    (spells_symbol _).bind fun _ _ harrow =>
    hbody.bind fun _ _ hbody =>
    .pure ⟨(hparams.as _).append (harrow.append (hbody.as _)), by simp⟩

theorem spells_cast (h : Spelt code sub) : Spells code (cast sub) :=
  spells_build (by decide) fun _ =>
    (spells_symbol _).bind fun _ _ hopening =>
    (spells_separated _ (h .type)).bind fun _ _ htypes _ =>
    (spells_symbol _).bind fun _ _ hclosing =>
    (looks_looksAt _).reads fun _ =>
    (looks_looksAt _).reads fun _ =>
    (looks_looksAt _).reads fun _ =>
    (looks_looksAtNth _ _).reads fun _ =>
    (looks_guardThat _).reads fun _ =>
    (h .operand).bind fun _ _ hvalue =>
    .pure ⟨(hopening.append (htypes.mapNamed _)).append (hclosing.append (hvalue.as _)), by simp⟩

theorem spells_dimensionsExpr (h : Spelt code sub) : Spells code (dimensionsExpr sub) :=
  spells_build (by decide) fun _ =>
    (spells_annotations h).bind fun _ _ hmarks =>
    (spells_symbol _).bind fun _ _ hopening =>
    (h .expression).bind fun _ _ hsize =>
    (spells_symbol _).bind fun _ _ hclosing =>
    .pure ⟨hmarks.append (hopening.append (hsize.append hclosing)), by simp⟩

theorem reads_creationHead (h : Spelt code sub) :
    Reads code lo (fun head hi => Row code lo (head.1 ++ [head.2]) hi) (creationHead sub) :=
  (spells_word _).bind fun _ _ hnew =>
  (spells_annotations h).bind fun _ _ hmarks =>
  (spells_option (spells_typeArguments h)).bind fun _ _ hargs =>
  (spells_annotations h).bind fun _ _ hmore =>
  (spells_simpleType h).bind fun _ _ htype =>
  .pure ((((hnew.append hmarks).append (hargs.mapAs _)).append hmore).append (htype.as _))

theorem reads_creation (h : Spelt code sub) {mid : Nat} {outer : List Node}
    (houter : Row code lo outer mid) :
    Reads code mid (fun n => Row code lo [n]) (creation sub outer) := by
  have hbody : Spells code (do
      guardThat (← atSymbol "\x7b")
      sub .classBody) := fun _ =>
    (looks_looksAt _).reads fun _ => (looks_guardThat _).reads fun _ => h .classBody _
  refine (reads_creationHead h).bind fun head stop hhead => ?_
  obtain ⟨head, type⟩ := head
  refine (looks_looksAt _).reads fun _ => .ite (fun _ => ?_) fun _ => ?_
  · exact reads_build (by decide) <|
      (h .arguments).bind fun _ _ hargs =>
      (spells_option hbody).bind fun _ _ hbody =>
      .pure ⟨by simpa using ((houter.append hhead).append (hargs.as _)).append hbody, by simp⟩
  · have hhead := hhead.lower houter.le
    refine reads_build (by decide) <|
      (spells_repeated (spells_dimensionsExpr h)).bind fun sized _ hsized =>
        .ite (fun hnone => ?_) fun _ => ?_
    · have hsized := hhead.append hsized
      rw [List.isEmpty_iff.mp hnone, List.append_nil] at hsized
      exact (spells_dimensions h).bind fun _ _ hdims =>
        (spells_arrayInitializer h).bind fun _ _ hvalue =>
        .pure ⟨by simpa using hsized.append ((hdims.as _).append (hvalue.as _)), by simp⟩
    · exact (spells_option (spells_dimensions h)).bind fun _ _ hdims =>
        .pure ⟨by simpa using hhead.append ((hsized.append hdims).mapAs .dimensions), by simp⟩

theorem reads_methodReferenceTail (h : Spelt code sub) {mid : Nat} {qualifier : Node}
    (hqualifier : Row code lo [qualifier] mid) :
    Reads code mid (fun n => Row code lo [n]) (methodReferenceTail sub qualifier) :=
  reads_build (by decide) <|
    (spells_symbol _).bind fun _ _ hcolons =>
    (spells_option (spells_typeArguments h)).bind fun _ _ hargs =>
    ((spells_word _).orElse spells_name).bind fun _ _ hmember =>
    .pure ⟨((hqualifier.append hcolons).append hargs).append hmember, by simp⟩

theorem spells_typeLed (h : Spelt code sub) : Spells code (typeLed sub) := fun _ =>
  (h .plainType).bind fun _ _ htype => (looks_looksAt _).reads fun _ => .ite
    (fun _ => reads_build (by decide) <|
      (spells_symbol _).bind fun _ _ hdot =>
      (spells_word _).bind fun _ _ hword =>
      .pure ⟨htype.append (hdot.append hword), by simp⟩)
    (fun _ => (looks_guardThat _).reads fun _ => reads_methodReferenceTail h htype)

theorem reads_invocation (h : Spelt code sub) {stop mid : Nat} {head : List Node} {called : Node}
    (hhead : Row code lo head stop) (hcalled : Row code stop [called] mid) :
    Reads code mid (fun n => Row code lo [n]) (invocation sub head called) :=
  reads_build (by decide) <|
    (h .arguments).bind fun _ _ hargs =>
    .pure ⟨hhead.append ((hcalled.as _).append (hargs.as _)), by simp⟩

theorem spells_literal : Spells code literal :=
  (spells_accept (by decide) _).orElse (spells_accept (by decide) _)

theorem spells_primaryHead (h : Spelt code sub) : Spells code (primaryHead sub) := by
  have hname : Spells code (do
      let called ← looseName
      if ← atSymbol "(" then invocation sub [] called else return called) := fun _ =>
    (spells_accept (by decide) _).bind fun _ _ hcalled => (looks_looksAt _).reads fun _ => .ite
      (fun _ => reads_invocation h .nil hcalled) fun _ => .pure hcalled
  exact fun _ =>
    (looks_looksAt _).reads fun _ => .ite (fun _ => spells_parenthesized h _) fun _ =>
    (looks_looksAt _).reads fun _ => .ite (fun _ => reads_creation h .nil) fun _ =>
    (looks_looksAt _).reads fun _ => .ite (fun _ => spells_this _) fun _ =>
    (looks_looksAt _).reads fun _ => .ite (fun _ => spells_super _) fun _ =>
    spells_literal.orElse ((spells_typeLed h).orElse hname) _

theorem reads_afterDot (h : Spelt code sub) {mid : Nat} {object : Node}
    (hobject : Row code lo [object] mid) :
    Reads code mid (fun n => Row code lo [n]) (afterDot sub object) := by
  have hthrough : SpellsAll code (do
      let super ← accept .super (isWord "super")
      let dot ← symbol "."
      return [super, dot]) := fun _ =>
    spells_super.bind fun _ _ hsuper =>
    (spells_symbol _).bind fun _ _ hdot =>
    .pure (hsuper.append hdot)
  refine (spells_symbol _).bind fun dot _ hdot => ?_
  refine (looks_looksAt _).reads fun _ =>
    .ite (fun _ => reads_creation h (hobject.append hdot)) fun _ => ?_
  refine (looks_looksAt _).reads fun _ => .ite (fun _ => ?_) fun _ => ?_
  · exact reads_build (by decide) <|
      spells_this.bind fun _ _ hthis =>
      .pure ⟨(hobject.as _).append (hdot.append (hthis.as _)), by simp⟩
  refine (looks_looksAt _).reads fun _ => .ite (fun _ => ?_) fun _ => ?_
  · exact reads_build (by decide) <|
      spells_literal.bind fun _ _ htemplate =>
      .pure ⟨hobject.append (hdot.append htemplate), by simp⟩
  refine (spells_maybe hthrough).bind fun through _ hthrough => ?_
  have hhead := ((hobject.as .object).append hdot).append hthrough
  refine (spells_option (spells_typeArguments h)).bind fun args _ hargs => ?_
  refine spells_name.bind fun called _ hcalled => ?_
  refine (looks_looksAt _).reads fun _ => .ite (fun _ => ?_) fun _ => ?_
  · exact reads_invocation h (hhead.append (hargs.mapAs _)) hcalled
  · refine (reads_guardThat _).bind fun _ _ hguard => ?_
    obtain ⟨rfl, hnone⟩ := hguard
    obtain rfl := List.isEmpty_iff.mp hnone
    have hhead := hhead.append hargs
    rw [List.append_nil] at hhead
    exact reads_build (by decide) (.pure ⟨hhead.append (hcalled.as _), by simp⟩)

theorem reads_primaryStep (h : Spelt code sub) {mid : Nat} {object : Node}
    (hobject : Row code lo [object] mid) :
    Reads code mid (fun n => Row code lo [n]) (primaryStep sub object) :=
  (looks_looksAt _).reads fun _ => .ite (fun _ => reads_afterDot h hobject) fun _ =>
    (looks_looksAt _).reads fun _ => .ite
      (fun _ => reads_build (by decide) <|
        (spells_symbol _).bind fun _ _ hopening =>
        (h .expression).bind fun _ _ hindex =>
        (spells_symbol _).bind fun _ _ hclosing =>
        .pure ⟨hobject.append (hopening.append (hindex.append hclosing)), by simp⟩)
      (fun _ => reads_methodReferenceTail h hobject)

theorem spells_primary (h : Spelt code sub) : Spells code (primary sub) := fun _ =>
  (spells_primaryHead h).bind fun _ _ hhead => reads_grow (fun _ _ => reads_primaryStep h) hhead

theorem spells_typePattern (h : Spelt code sub) : Spells code (typePattern sub) :=
  spells_build (by decide) fun _ =>
    (h .plainType).bind fun _ _ htype =>
    (spells_accept (by decide) _).bind fun _ _ hbound =>
    .pure ⟨htype.append hbound, by simp⟩

theorem spells_recordPatternComponent (h : Spelt code sub) :
    Spells code (recordPatternComponent sub) := by
  refine .orElse ?_ (spells_build (by decide) (spells_one (spells_accept (by decide) _)))
  exact spells_build (by decide) fun _ =>
    (h .plainType).bind fun _ _ htype =>
    (spells_accept (by decide) _).bind fun _ _ hbound =>
    .pure ⟨htype.append hbound, by simp⟩

theorem spells_recordPatternBody (h : Spelt code sub) : Spells code (recordPatternBody sub) :=
  spells_build (by decide) fun _ =>
    (spells_symbol _).bind fun _ _ hopening =>
    (spells_maybe (spells_commaList ((h .recordPattern).orElse
      (spells_recordPatternComponent h))).all).bind fun _ _ hparts =>
    (spells_symbol _).bind fun _ _ hclosing =>
    .pure ⟨(hopening.append hparts).append hclosing, by simp⟩

theorem spells_recordPattern (h : Spelt code sub) : Spells code (recordPattern sub) := by
  unfold recordPattern
  refine spells_build (by decide) fun lo => (looks_looksAtNth _ _).reads fun plain => ?_
  split
  · exact spells_name.bind fun _ _ hhead =>
      (spells_recordPatternBody h).bind fun _ _ hbody => .pure ⟨hhead.append hbody, by simp⟩
  · exact (spells_namedType h).bind fun _ _ hhead =>
      (spells_recordPatternBody h).bind fun _ _ hbody => .pure ⟨hhead.append hbody, by simp⟩

theorem spells_switchLabel (h : Spelt code sub) : Spells code (switchLabel sub) := by
  intro lo ts
  have hguard : Spells code (build .guard do
      let word ← word "when"
      let test ← sub .expression
      return [word, test]) :=
    spells_build (by decide) fun _ =>
      (spells_word _).bind fun _ _ hword =>
      (h .expression).bind fun _ _ htest =>
      .pure ⟨hword.append htest, by simp⟩
  have hvalues : SpellsSome code
      (one (sub .recordPattern <|> typePattern sub) <|> commaList (sub .expression)) := fun lo =>
    (spells_one ((h .recordPattern).orElse (spells_typePattern h)) lo).orElse
      (spells_commaList (h .expression) lo)
  unfold switchLabel
  extract_lets label
  have hlabel : Spells code label :=
    spells_build (by decide) fun _ => (looks_looksAt _).reads fun _ => .ite
      (fun _ => spells_one (spells_word _) _)
      (fun _ =>
        (spells_word _).bind fun _ _ hcase =>
        hvalues.bind fun _ _ hvalues _ =>
        (spells_option hguard).bind fun _ _ hcondition =>
        .pure ⟨(hcase.append hvalues).append hcondition, by simp⟩)
  split
  · exact reads_within (hlabel lo) ts
  · exact hlabel lo ts

theorem spells_expressionStatement (h : Spelt code sub) : Spells code (expressionStatement sub) :=
  spells_build (by decide) fun _ =>
    (h .expression).bind fun _ _ hvalue =>
    (spells_symbol _).bind fun _ _ hsemicolon =>
    .pure ⟨hvalue.append hsemicolon, by simp⟩

theorem spells_switchRule (h : Spelt code sub) : Spells code (switchRule sub) := by
  have haction : Spells code (do
      if (← atSymbol "\x7b") || (← atWord "throw") then sub .statement
      else expressionStatement sub) := fun _ =>
    (looks_looksAt _).reads fun _ => (looks_looksAt _).reads fun _ =>
      .ite (fun _ => h .statement _) fun _ => spells_expressionStatement h _
  exact spells_build (by decide) fun _ =>
    (spells_switchLabel h).bind fun _ _ hlabel =>
    (spells_symbol _).bind fun _ _ harrow =>
    haction.bind fun _ _ haction =>
    .pure ⟨hlabel.append (harrow.append haction), by simp⟩

theorem spells_switchGroup (h : Spelt code sub) : Spells code (switchGroup sub) := by
  have hlabelled : SpellsSome code (do
      let label ← switchLabel sub
      let colon ← symbol ":"
      return [label, colon]) := fun _ =>
    (spells_switchLabel h).bind fun _ _ hlabel =>
    (spells_symbol _).bind fun _ _ hcolon =>
    .pure ⟨hlabel.append hcolon, by simp⟩
  exact spells_build (by decide) fun _ =>
    hlabelled.bind fun _ _ hfirst hne =>
    (spells_many hlabelled.all).bind fun _ _ hlabels =>
    (spells_repeated (h .statement)).bind fun _ _ hbody =>
    .pure ⟨(hfirst.append hlabels).append hbody, by simp [hne]⟩

theorem spells_switchBlock (h : Spelt code sub) : Spells code (switchBlock sub) :=
  spells_build (by decide) fun _ =>
    (spells_symbol _).bind fun _ _ hopening =>
    (spells_repeated ((spells_switchRule h).orElse (spells_switchGroup h))).bind fun _ _ hparts =>
    (spells_symbol _).bind fun _ _ hclosing =>
    .pure ⟨(hopening.append hparts).append hclosing, by simp⟩

theorem spells_switch (h : Spelt code sub) : Spells code («switch» sub) :=
  spells_build (by decide) fun _ =>
    (spells_word _).bind fun _ _ hword =>
    (spells_parenthesized h).bind fun _ _ hcondition =>
    (spells_switchBlock h).bind fun _ _ hbody =>
    .pure ⟨hword.append (hcondition.append (hbody.as _)), by simp⟩

theorem spells_operand (h : Spelt code sub) : Spells code (operand sub) := by
  intro lo
  refine looks_atLambda.reads fun _ => .ite (fun _ => spells_lambda h _) fun _ => ?_
  refine (looks_looksAt _).reads fun _ => .ite (fun _ => ?_) fun _ => ?_
  · exact reads_build (by decide) <|
      (spells_accept (by decide) _).bind fun _ _ hsign =>
      (h .operand).bind fun _ _ hinner =>
      .pure ⟨hsign.append hinner, by simp⟩
  refine (looks_looksAt _).reads fun _ => .ite (fun _ => ?_) fun _ => ?_
  · exact reads_build (by decide) <|
      (spells_accept (by decide) _).bind fun _ _ hstep =>
      (h .operand).bind fun _ _ hinner =>
      .pure ⟨hstep.append hinner, by simp⟩
  refine (looks_looksAt _).reads fun _ => .ite (fun _ => spells_switch h _) fun _ => ?_
  refine ((spells_cast h).orElse (spells_primary h)).bind fun base _ hbase => ?_
  refine .ite (fun _ => .pure hbase) fun _ => reads_grow (fun n _ hn => ?_) hbase
  exact reads_build (by decide) <|
    (spells_accept (by decide) _).bind fun _ _ hstep => .pure ⟨hn.append hstep, by simp⟩

end Carve.Java.Grammar
