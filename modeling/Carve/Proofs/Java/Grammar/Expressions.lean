import Carve.Java.Grammar.Expressions
import Carve.Proofs.Java.Grammar.Types

/-!
# Names in expressions

Operators are cut out of the tokens by hand, which makes their productions the ones to follow token
by token; the others are put together from the tools of the grammar.
-/

namespace Carve.Java.Grammar

open Parse

variable {source : List Char} {sub : Sub}

theorem yields_arguments (h : Subs source sub) : Yields source (Whole source) (arguments sub) :=
  yields_build <|
    (yields_symbol _).bind fun _ hopening =>
    (yields_maybe (yields_commaList (h .expression))).bind fun _ hargs =>
    (yields_symbol _).bind fun _ hclosing =>
    .pure (by simp [*])

theorem yields_parenthesized (h : Subs source sub) :
    Yields source (Whole source) (parenthesized sub) :=
  yields_build <|
    (yields_symbol _).bind fun _ hopening =>
    (h .expression).bind fun _ hinner =>
    (yields_symbol _).bind fun _ hclosing =>
    .pure (by simp [*])

theorem yields_arrayInitializer (h : Subs source sub) :
    Yields source (Whole source) (arrayInitializer sub) :=
  yields_build <|
    (yields_symbol _).bind fun _ hopening =>
    (yields_maybe (yields_commaList (h .initializer))).bind fun _ hvalues =>
    (yields_option (yields_symbol _)).bind fun _ hcomma =>
    (yields_symbol _).bind fun _ hclosing =>
    .pure (by simp [*])

theorem yields_initializer (h : Subs source sub) :
    Yields source (Whole source) (initializer sub) :=
  (looks_looksAt _).bind fun _ => .ite (fun _ => yields_arrayInitializer h) fun _ => h .expression

theorem yields_operator (allowed : String → Bool) :
    Yields source (Whole source) (operator allowed) := by
  intro ts n rest heq hts
  unfold operator at heq
  split at heq
  · split at heq
    · obtain ⟨rfl, rfl⟩ := Prod.mk.inj (Option.some.inj heq)
      exact ⟨whole_mk all_nil, fun t ht => hts t (List.mem_of_mem_drop ht)⟩
    · cases heq
  · cases heq

theorem yields_instanceOfRight (h : Subs source sub) :
    Yields source (All (Part source)) (instanceOfRight sub) := by
  have hpattern : Yields source (All (Part source)) (do
      let p ← sub .recordPattern
      return [p.as .pattern]) :=
    (h .recordPattern).bind fun _ hp => .pure (by simp [*])
  have htype : Yields source (All (Part source)) (do
      let type ← sub .type
      let bound ← maybe (one name)
      return type.as .right :: bound.map (·.as .name)) :=
    (h .type).bind fun _ htype =>
    (yields_maybe (yields_one yields_name)).bind fun _ hbound =>
    .pure (by simp [*])
  exact (yields_option (yields_word _)).bind fun _ hfinal =>
    (hpattern.orElse htype).bind fun _ hright =>
    .pure (by simp [*])

theorem yields_binaryRest (h : Subs source sub) (fuel : Nat) : ∀ (least : Nat) (left : Node),
    Whole source left → Yields source (Whole source) (binaryRest sub fuel least left) := by
  induction fuel with
  | zero =>
    intro least left hleft ts n rest heq hts
    obtain ⟨rfl, rfl⟩ := Prod.mk.inj (Option.some.inj heq)
    exact ⟨hleft, hts⟩
  | succ fuel ih =>
    intro least left hleft ts n rest heq hts
    have hstay : (left, ts) = (n, rest) → Whole source n ∧ ∀ t ∈ rest, Genuine source t := by
      intro he
      obtain ⟨rfl, rfl⟩ := Prod.mk.inj he
      exact ⟨hleft, hts⟩
    unfold binaryRest at heq
    split at heq
    · exact hstay (Option.some.inj heq)
    rename_i text k _
    split at heq
    · exact hstay (Option.some.inj heq)
    rename_i s _
    split at heq
    · exact hstay (Option.some.inj heq)
    have hop : Whole source
        (Node.mk .token none (Node.branch .token ((ts.take k).map (leaf .token))).extent []) :=
      whole_mk all_nil
    have hdrop : ∀ t ∈ ts.drop k, Genuine source t := fun t ht => hts t (List.mem_of_mem_drop ht)
    generalize Node.mk .token none _ [] = op at heq hop
    dsimp only at heq
    split at heq
    · cases heq
    rename_i node rest' hcombined
    have hnode : Whole source node ∧ ∀ t ∈ rest', Genuine source t := by
      split at hcombined
      · obtain ⟨⟨right, rest''⟩, hread, he⟩ := Option.map_eq_some_iff.mp hcombined
        obtain ⟨rfl, rfl⟩ := Prod.mk.inj he
        obtain ⟨hright, hrest⟩ := yields_instanceOfRight h _ right rest'' hread hdrop
        exact ⟨whole_branch _ (by simp [*]), hrest⟩
      · split at hcombined
        · cases hcombined
        rename_i operand mid hread
        obtain ⟨hoperand, hmid⟩ := h .operand _ operand mid hread hdrop
        obtain ⟨⟨right, rest''⟩, hread', he⟩ := Option.map_eq_some_iff.mp hcombined
        obtain ⟨rfl, rfl⟩ := Prod.mk.inj he
        obtain ⟨hright, hrest⟩ := ih (s + 1) operand hoperand mid right rest'' hread' hmid
        exact ⟨whole_branch _ (by simp [*]), hrest⟩
    exact ih least node hnode.1 rest' n rest heq hnode.2

theorem yields_binary (h : Subs source sub) : Yields source (Whole source) (binary sub) :=
  (h .operand).bind fun first hfirst ts => yields_binaryRest h (ts.length + 1) 0 first hfirst ts

theorem yields_expression (h : Subs source sub) : Yields source (Whole source) (expression sub) :=
  (yields_binary h).bind fun left hleft => (looks_looksAt _).bind fun _ => .ite
    (fun _ => yields_build <|
      (yields_symbol _).bind fun _ hquestion =>
      (h .expression).bind fun _ hyes =>
      (yields_symbol _).bind fun _ hcolon =>
      (h .expression).bind fun _ hno =>
      .pure (by simp [*]))
    (fun _ ts n rest heq hts => by
      dsimp only at heq
      split at heq
      · rename_i op mid hread
        obtain ⟨hop, hmid⟩ := yields_operator _ ts op mid hread hts
        obtain ⟨⟨right, rest'⟩, hread', he⟩ := Option.map_eq_some_iff.mp heq
        obtain ⟨rfl, rfl⟩ := Prod.mk.inj he
        obtain ⟨hright, hrest⟩ := h .expression mid right rest' hread' hmid
        exact ⟨whole_branch _ (by simp [*]), hrest⟩
      · obtain ⟨rfl, rfl⟩ := Prod.mk.inj (Option.some.inj heq)
        exact ⟨hleft, hts⟩)

theorem yields_inferredParameters : Yields source (Whole source) inferredParameters :=
  yields_build <|
    (yields_symbol _).bind fun _ hopening =>
    (yields_commaList (yields_name.imp fun _ => Name.whole)).bind fun _ hnames =>
    (yields_symbol _).bind fun _ hclosing =>
    .pure (by simp [*])

theorem yields_lambda (h : Subs source sub) : Yields source (Whole source) (lambda sub) := by
  have hbody : Yields source (Whole source) (do
      if ← atSymbol "\x7b" then sub .block else sub .expression) :=
    (looks_looksAt _).bind fun _ => .ite (fun _ => h .block) fun _ => h .expression
  exact yields_build <|
    ((yields_name.imp fun _ => Name.whole).orElse
      (yields_inferredParameters.orElse (h .formalParameters))).bind fun _ hparams =>
    (yields_symbol _).bind fun _ harrow =>
    hbody.bind fun _ hbody =>
    .pure (by simp [*])

theorem yields_cast (h : Subs source sub) : Yields source (Whole source) (cast sub) :=
  yields_build <|
    (yields_symbol _).bind fun _ hopening =>
    (yields_separated _ (h .type)).bind fun types htypes =>
    (yields_symbol _).bind fun _ hclosing =>
    (looks_looksAt _).bind fun _ =>
    (looks_looksAt _).bind fun _ =>
    (looks_looksAt _).bind fun _ =>
    (looks_looksAtNth _ _).bind fun _ =>
    (looks_guardThat _).bind fun _ =>
    (h .operand).bind fun _ hvalue => by
      have hmarked : All (Part source)
          (types.map fun n => if n.isNamed then n.as .type else n) := by
        intro n hn
        obtain ⟨m, hm, rfl⟩ := List.mem_map.mp hn
        split
        · exact (htypes m hm).part_as (by decide) (by decide)
        · exact htypes m hm
      exact .pure (by simp [*])

theorem yields_dimensionsExpr (h : Subs source sub) :
    Yields source (Whole source) (dimensionsExpr sub) :=
  yields_build <|
    (yields_annotations h).bind fun _ hmarks =>
    (yields_symbol _).bind fun _ hopening =>
    (h .expression).bind fun _ hsize =>
    (yields_symbol _).bind fun _ hclosing =>
    .pure (by simp [*])

theorem yields_creationHead (h : Subs source sub) :
    Yields source (fun head => All (Part source) head.1 ∧ Part source head.2)
      (creationHead sub) :=
  (yields_word _).bind fun _ hnew =>
  (yields_annotations h).bind fun _ hmarks =>
  (yields_option (yields_typeArguments h)).bind fun _ hargs =>
  (yields_annotations h).bind fun _ hmore =>
  (yields_simpleType h).bind fun _ htype =>
  .pure (by simp [*])

theorem yields_creation (h : Subs source sub) {outer : List Node}
    (houter : All (Part source) outer) : Yields source (Whole source) (creation sub outer) := by
  have hbody : Yields source (Whole source) (do
      guardThat (← atSymbol "\x7b")
      sub .classBody) :=
    (looks_looksAt _).bind fun _ => (looks_guardThat _).bind fun _ => h .classBody
  refine (yields_creationHead h).bind fun head hhead => ?_
  obtain ⟨head, type⟩ := head
  obtain ⟨hhead, htype⟩ := hhead
  refine (looks_looksAt _).bind fun _ => .ite (fun _ => ?_) fun _ => ?_
  · exact yields_build <|
      (h .arguments).bind fun _ hargs =>
      (yields_option hbody).bind fun _ hbody =>
      .pure (by simp_all)
  · refine yields_build <| (yields_repeated (yields_dimensionsExpr h)).bind fun _ hsized =>
      .ite (fun _ => ?_) fun _ => ?_
    · exact (yields_dimensions h).bind fun _ hdims =>
        (yields_arrayInitializer h).bind fun _ hvalue =>
        .pure (by simp_all)
    · refine (yields_option (yields_dimensions h)).bind fun _ hdims => .pure ?_
      have hall := all_part_map_as (r := .dimensions) (all_append.mpr ⟨hsized, hdims⟩)
        (by decide) (by decide)
      simp_all

theorem yields_methodReferenceTail (h : Subs source sub) {qualifier : Node}
    (hqualifier : Whole source qualifier) :
    Yields source (Whole source) (methodReferenceTail sub qualifier) :=
  yields_build <|
    (yields_symbol _).bind fun _ hcolons =>
    (yields_option (yields_typeArguments h)).bind fun _ hargs =>
    ((yields_word _).orElse (yields_name.imp fun _ => Name.whole)).bind fun _ hmember =>
    .pure (by simp [*])

theorem yields_typeLed (h : Subs source sub) : Yields source (Whole source) (typeLed sub) :=
  (h .plainType).bind fun _ htype => (looks_looksAt _).bind fun _ => .ite
    (fun _ => yields_build <|
      (yields_symbol _).bind fun _ hdot =>
      (yields_word _).bind fun _ hword =>
      .pure (by simp [*]))
    (fun _ => (looks_guardThat _).bind fun _ => yields_methodReferenceTail h htype)

theorem yields_invocation (h : Subs source sub) {head : List Node} {called : Node}
    (hhead : All (Part source) head) (hcalled : Name source called) :
    Yields source (Whole source) (invocation sub head called) :=
  yields_build <| (h .arguments).bind fun _ hargs => .pure (by simp [*])

theorem yields_literal : Yields source (Whole source) literal :=
  (yields_accept _ _).orElse (yields_accept _ _)

theorem yields_looseName : Yields source (Name source) looseName :=
  yields_accept_name fun t ht => by
    simp only [isName, isWord, Bool.or_eq_true, Bool.and_eq_true, beq_iff_eq] at ht
    exact ht.elim And.left And.left

theorem yields_primaryHead (h : Subs source sub) :
    Yields source (Whole source) (primaryHead sub) := by
  have hname : Yields source (Whole source) (do
      let called ← looseName
      if ← atSymbol "(" then invocation sub [] called else return called) :=
    yields_looseName.bind fun _ hcalled => (looks_looksAt _).bind fun _ => .ite
      (fun _ => yields_invocation h all_nil hcalled) (fun _ => .pure hcalled.whole)
  exact (looks_looksAt _).bind fun _ => .ite (fun _ => yields_parenthesized h) fun _ =>
    (looks_looksAt _).bind fun _ => .ite (fun _ => yields_creation h all_nil) fun _ =>
    (looks_looksAt _).bind fun _ => .ite (fun _ => yields_accept _ _) fun _ =>
    (looks_looksAt _).bind fun _ => .ite (fun _ => yields_accept _ _) fun _ =>
    yields_literal.orElse ((yields_typeLed h).orElse hname)

theorem yields_afterDot (h : Subs source sub) {object : Node} (hobject : Whole source object) :
    Yields source (Whole source) (afterDot sub object) := by
  have hthrough : Yields source (All (Part source)) (maybe do
      let super ← accept .super (isWord "super")
      let dot ← symbol "."
      return [super, dot]) :=
    yields_maybe <|
      (yields_accept _ _).bind fun _ hsuper =>
      (yields_symbol _).bind fun _ hdot =>
      .pure (by simp [*])
  refine (yields_symbol _).bind fun dot hdot => ?_
  refine (looks_looksAt _).bind fun _ => .ite (fun _ => yields_creation h (by simp [*])) fun _ => ?_
  refine (looks_looksAt _).bind fun _ => .ite (fun _ => ?_) fun _ => ?_
  · exact yields_build <| (yields_accept _ _).bind fun _ hthis => .pure (by simp [*])
  refine (looks_looksAt _).bind fun _ => .ite (fun _ => ?_) fun _ => ?_
  · exact yields_build <| yields_literal.bind fun _ htemplate => .pure (by simp [*])
  refine hthrough.bind fun through hthrough => ?_
  refine (yields_option (yields_typeArguments h)).bind fun args hargs => ?_
  refine yields_name.bind fun called hcalled => ?_
  refine (looks_looksAt _).bind fun _ => .ite (fun _ => ?_) fun _ => ?_
  · exact yields_invocation h (by simp [*]) hcalled
  · exact (looks_guardThat _).bind fun _ => yields_build (.pure (by simp [*]))

theorem yields_primaryStep (h : Subs source sub) {object : Node} (hobject : Whole source object) :
    Yields source (Whole source) (primaryStep sub object) :=
  (looks_looksAt _).bind fun _ => .ite (fun _ => yields_afterDot h hobject) fun _ =>
    (looks_looksAt _).bind fun _ => .ite
      (fun _ => yields_build <|
        (yields_symbol _).bind fun _ hopening =>
        (h .expression).bind fun _ hindex =>
        (yields_symbol _).bind fun _ hclosing =>
        .pure (by simp [*]))
      (fun _ => yields_methodReferenceTail h hobject)

theorem yields_primary (h : Subs source sub) : Yields source (Whole source) (primary sub) :=
  (yields_primaryHead h).bind fun _ hhead => yields_grow (fun _ => yields_primaryStep h) hhead

theorem yields_typePattern (h : Subs source sub) :
    Yields source (Whole source) (typePattern sub) :=
  yields_build <|
    (h .plainType).bind fun _ htype =>
    (yields_accept _ _).bind fun _ hbound =>
    .pure (by simp [*])

theorem yields_recordPatternComponent (h : Subs source sub) :
    Yields source (Whole source) (recordPatternComponent sub) := by
  refine .orElse ?_ (yields_build (yields_one ((yields_accept _ _).imp fun _ => Whole.part)))
  exact yields_build <|
    (h .plainType).bind fun _ htype =>
    (yields_accept _ _).bind fun _ hbound =>
    .pure (by simp [*])

theorem yields_recordPatternBody (h : Subs source sub) :
    Yields source (Whole source) (recordPatternBody sub) :=
  yields_build <|
    (yields_symbol _).bind fun _ hopening =>
    (yields_maybe (yields_commaList ((h .recordPattern).orElse
      (yields_recordPatternComponent h)))).bind fun _ hparts =>
    (yields_symbol _).bind fun _ hclosing =>
    .pure (by simp [*])

theorem yields_recordPattern (h : Subs source sub) :
    Yields source (Whole source) (recordPattern sub) := by
  unfold recordPattern
  refine yields_build <| (looks_looksAtNth _ _).bind fun plain => ?_
  split
  · exact yields_name.bind fun _ hhead =>
      (yields_recordPatternBody h).bind fun _ hbody => .pure (by simp [*])
  · exact (yields_namedType h).bind fun _ hhead =>
      (yields_recordPatternBody h).bind fun _ hbody => .pure (by simp [*])

theorem yields_switchLabel (h : Subs source sub) :
    Yields source (Whole source) (switchLabel sub) := by
  intro ts
  have hguard : Yields source (Whole source) (build .guard do
      let word ← word "when"
      let test ← sub .expression
      return [word, test]) :=
    yields_build <|
      (yields_word _).bind fun _ hword =>
      (h .expression).bind fun _ htest =>
      .pure (by simp [*])
  have hvalues : Yields source (All (Part source))
      (one (sub .recordPattern <|> typePattern sub) <|> commaList (sub .expression)) :=
    (yields_one (((h .recordPattern).orElse (yields_typePattern h)).imp fun _ => Whole.part)).orElse
      (yields_commaList (h .expression))
  unfold switchLabel
  extract_lets label
  have hlabel : Yields source (Whole source) label :=
    yields_build <| (looks_looksAt _).bind fun _ => .ite
      (fun _ => yields_one ((yields_word _).imp fun _ => Whole.part))
      (fun _ =>
        (yields_word _).bind fun _ hcase =>
        hvalues.bind fun _ hvalues =>
        (yields_option hguard).bind fun _ hcondition =>
        .pure (by simp [*]))
  split
  · exact yields_within hlabel ts
  · exact hlabel ts

theorem yields_expressionStatement (h : Subs source sub) :
    Yields source (Whole source) (expressionStatement sub) :=
  yields_build <|
    (h .expression).bind fun _ hvalue =>
    (yields_symbol _).bind fun _ hsemicolon =>
    .pure (by simp [*])

theorem yields_switchRule (h : Subs source sub) :
    Yields source (Whole source) (switchRule sub) := by
  have haction : Yields source (Whole source) (do
      if (← atSymbol "\x7b") || (← atWord "throw") then sub .statement
      else expressionStatement sub) :=
    (looks_looksAt _).bind fun _ => (looks_looksAt _).bind fun _ =>
      .ite (fun _ => h .statement) fun _ => yields_expressionStatement h
  exact yields_build <|
    (yields_switchLabel h).bind fun _ hlabel =>
    (yields_symbol _).bind fun _ harrow =>
    haction.bind fun _ haction =>
    .pure (by simp [*])

theorem yields_switchGroup (h : Subs source sub) :
    Yields source (Whole source) (switchGroup sub) := by
  have hlabelled : Yields source (All (Part source)) (do
      let label ← switchLabel sub
      let colon ← symbol ":"
      return [label, colon]) :=
    (yields_switchLabel h).bind fun _ hlabel =>
    (yields_symbol _).bind fun _ hcolon =>
    .pure (by simp [*])
  exact yields_build <|
    hlabelled.bind fun _ hfirst =>
    (yields_many hlabelled).bind fun _ hlabels =>
    (yields_repeated (h .statement)).bind fun _ hbody =>
    .pure (by simp [*])

theorem yields_switchBlock (h : Subs source sub) :
    Yields source (Whole source) (switchBlock sub) :=
  yields_build <|
    (yields_symbol _).bind fun _ hopening =>
    (yields_repeated ((yields_switchRule h).orElse (yields_switchGroup h))).bind fun _ hparts =>
    (yields_symbol _).bind fun _ hclosing =>
    .pure (by simp [*])

theorem yields_switch (h : Subs source sub) : Yields source (Whole source) («switch» sub) :=
  yields_build <|
    (yields_word _).bind fun _ hword =>
    (yields_parenthesized h).bind fun _ hcondition =>
    (yields_switchBlock h).bind fun _ hbody =>
    .pure (by simp [*])

theorem yields_operand (h : Subs source sub) : Yields source (Whole source) (operand sub) := by
  refine looks_atLambda.bind fun _ => .ite (fun _ => yields_lambda h) fun _ => ?_
  refine (looks_looksAt _).bind fun _ => .ite (fun _ => ?_) fun _ => ?_
  · exact yields_build <|
      (yields_accept _ _).bind fun _ hsign =>
      (h .operand).bind fun _ hinner =>
      .pure (by simp [*])
  refine (looks_looksAt _).bind fun _ => .ite (fun _ => ?_) fun _ => ?_
  · exact yields_build <|
      (yields_accept _ _).bind fun _ hstep =>
      (h .operand).bind fun _ hinner =>
      .pure (by simp [*])
  refine (looks_looksAt _).bind fun _ => .ite (fun _ => yields_switch h) fun _ => ?_
  refine ((yields_cast h).orElse (yields_primary h)).bind fun base hbase => ?_
  refine .ite (fun _ => .pure hbase) fun _ => yields_grow (fun n hn => ?_) hbase
  exact yields_build <| (yields_accept _ _).bind fun _ hstep => .pure (by simp [*])

end Carve.Java.Grammar
