import Carve.Java.Grammar.Declarations
import Carve.Proofs.Java.Grammar.Statements

/-!
# Names in declarations and in whole files

The names of types and members are single words, in every tree that the parser makes.
-/

namespace Carve.Java

namespace Grammar

open Parse

variable {source : List Char} {sub : Sub} {mods : List Node}

theorem yields_classBody (h : Subs source sub) : Yields source (Whole source) (classBody sub) :=
  yields_build <|
    (yields_symbol _).bind fun _ hopening =>
    (yields_repeated (h .member)).bind fun _ hmembers =>
    (yields_symbol _).bind fun _ hclosing =>
    .pure (by simp [*])

theorem yields_interfaceBody (h : Subs source sub) :
    Yields source (Whole source) (interfaceBody sub) :=
  yields_build <|
    (yields_symbol _).bind fun _ hopening =>
    (yields_repeated (h .member)).bind fun _ hmembers =>
    (yields_symbol _).bind fun _ hclosing =>
    .pure (by simp [*])

theorem yields_annotationBody (h : Subs source sub) :
    Yields source (Whole source) (annotationBody sub) :=
  yields_build <|
    (yields_symbol _).bind fun _ hopening =>
    (yields_repeated (h .element)).bind fun _ hmembers =>
    (yields_symbol _).bind fun _ hclosing =>
    .pure (by simp [*])

theorem yields_superInterfaces (h : Subs source sub) :
    Yields source (Whole source) (superInterfaces sub) :=
  yields_build <|
    (yields_word _).bind fun _ hword =>
    (yields_typeList h).bind fun _ hlist =>
    .pure (by simp [*])

theorem yields_permits (h : Subs source sub) : Yields source (Whole source) (permits sub) :=
  yields_build <|
    (yields_word _).bind fun _ hword =>
    (yields_typeList h).bind fun _ hlist =>
    .pure (by simp [*])

theorem yields_superclass (h : Subs source sub) : Yields source (Whole source) (superclass sub) :=
  yields_build <|
    (yields_word _).bind fun _ hword =>
    (h .type).bind fun _ htype =>
    .pure (by simp [*])

theorem yields_extendsInterfaces (h : Subs source sub) :
    Yields source (Whole source) (extendsInterfaces sub) :=
  yields_build <|
    (yields_word _).bind fun _ hword =>
    (yields_typeList h).bind fun _ hlist =>
    .pure (by simp [*])

theorem yields_ownTypeParameters (h : Subs source sub) :
    Yields source (All (Part source)) (ownTypeParameters sub) :=
  (yields_option (yields_typeParameters h)).bind fun _ hparams => .pure (by simp [*])

theorem yields_classDeclaration (h : Subs source sub) (hmods : All (Part source) mods) :
    Yields source (Whole source) (classDeclaration sub mods) :=
  yields_build <|
    (yields_word _).bind fun _ hword =>
    yields_name.bind fun _ hcalled =>
    (yields_ownTypeParameters h).bind fun _ hparams =>
    (yields_option (yields_superclass h)).bind fun _ hparent =>
    (yields_option (yields_superInterfaces h)).bind fun _ hinterfaces =>
    (yields_option (yields_permits h)).bind fun _ hpermitted =>
    (yields_classBody h).bind fun _ hbody =>
    .pure (by simp [*])

theorem yields_interfaceDeclaration (h : Subs source sub) (hmods : All (Part source) mods) :
    Yields source (Whole source) (interfaceDeclaration sub mods) :=
  yields_build <|
    (yields_word _).bind fun _ hword =>
    yields_name.bind fun _ hcalled =>
    (yields_ownTypeParameters h).bind fun _ hparams =>
    (yields_option (yields_extendsInterfaces h)).bind fun _ hparents =>
    (yields_option (yields_permits h)).bind fun _ hpermitted =>
    (yields_interfaceBody h).bind fun _ hbody =>
    .pure (by simp [*])

theorem yields_recordDeclaration (h : Subs source sub) (hmods : All (Part source) mods) :
    Yields source (Whole source) (recordDeclaration sub mods) :=
  yields_build <|
    (yields_word _).bind fun _ hword =>
    yields_name.bind fun _ hcalled =>
    (yields_ownTypeParameters h).bind fun _ hparams =>
    (h .formalParameters).bind fun _ hcomponents =>
    (yields_option (yields_superInterfaces h)).bind fun _ hinterfaces =>
    (yields_classBody h).bind fun _ hbody =>
    .pure (by simp [*])

theorem yields_annotationDeclaration (h : Subs source sub) (hmods : All (Part source) mods) :
    Yields source (Whole source) (annotationDeclaration sub mods) :=
  yields_build <|
    (yields_symbol _).bind fun _ hmark =>
    yields_name.bind fun _ hcalled =>
    (yields_annotationBody h).bind fun _ hbody =>
    .pure (by simp [*])

theorem yields_enumConstant (h : Subs source sub) :
    Yields source (Whole source) (enumConstant sub) := by
  have hbody : Yields source (Whole source) (do
      guardThat (← atSymbol "\x7b")
      sub .classBody) :=
    (looks_looksAt _).bind fun _ => (looks_guardThat _).bind fun _ => h .classBody
  exact yields_build <|
    (yields_option (yields_modifiers h)).bind fun _ hmods =>
    yields_name.bind fun _ hcalled =>
    (yields_option (h .arguments)).bind fun _ hargs =>
    (yields_option hbody).bind fun _ hbody =>
    .pure (by simp [*])

theorem yields_enumMembers (h : Subs source sub) :
    Yields source (Whole source) (enumMembers sub) :=
  yields_build <|
    (yields_symbol _).bind fun _ hsemicolon =>
    (yields_repeated (h .member)).bind fun _ hmembers =>
    .pure (by simp [*])

theorem yields_enumBody (h : Subs source sub) : Yields source (Whole source) (enumBody sub) :=
  yields_build <|
    (yields_symbol _).bind fun _ hopening =>
    (yields_maybe (yields_commaList (yields_enumConstant h))).bind fun _ hconstants =>
    (yields_option (yields_symbol _)).bind fun _ hcomma =>
    (yields_option (yields_enumMembers h)).bind fun _ hmembers =>
    (yields_symbol _).bind fun _ hclosing =>
    .pure (by simp [*])

theorem yields_enumDeclaration (h : Subs source sub) (hmods : All (Part source) mods) :
    Yields source (Whole source) (enumDeclaration sub mods) :=
  yields_build <|
    (yields_word _).bind fun _ hword =>
    yields_name.bind fun _ hcalled =>
    (yields_option (yields_superInterfaces h)).bind fun _ hinterfaces =>
    (yields_enumBody h).bind fun _ hbody =>
    .pure (by simp [*])

theorem yields_typeDeclaration (h : Subs source sub) :
    Yields source (Whole source) (typeDeclaration sub) :=
  (yields_option (yields_modifiers h)).bind fun _ hmods =>
    (yields_classDeclaration h hmods).orElse <| (yields_interfaceDeclaration h hmods).orElse <|
    (yields_enumDeclaration h hmods).orElse <| (yields_recordDeclaration h hmods).orElse <|
    yields_annotationDeclaration h hmods

theorem yields_throwsClause (h : Subs source sub) :
    Yields source (Whole source) (throwsClause sub) :=
  yields_build <|
    (yields_word _).bind fun _ hword =>
    (yields_commaList (h .type)).bind fun _ htypes =>
    .pure (by simp [*])

theorem yields_ctorInvocation (h : Subs source sub) :
    Yields source (Whole source) (ctorInvocation sub) := by
  refine yields_build <| Yields.bind (P := All (Part source)) (.orElse ?_ ?_) fun _ hcallee => ?_
  · exact (yields_option (yields_typeArguments h)).bind fun _ hargs =>
      ((yields_accept _ _).orElse (yields_accept _ _)).bind fun _ htarget =>
      (looks_looksAt _).bind fun _ => (looks_guardThat _).bind fun _ =>
      .pure (by simp [*])
  · exact (yields_primary h).bind fun _ hobject =>
      (yields_symbol _).bind fun _ hdot =>
      (yields_option (yields_typeArguments h)).bind fun _ hargs =>
      (yields_accept _ _).bind fun _ htarget =>
      .pure (by simp [*])
  · exact (h .arguments).bind fun _ hargs =>
      (yields_symbol _).bind fun _ hsemicolon =>
      .pure (by simp [*])

theorem yields_ctorBody (h : Subs source sub) : Yields source (Whole source) (ctorBody sub) :=
  yields_build <|
    (yields_symbol _).bind fun _ hopening =>
    (yields_option (yields_ctorInvocation h)).bind fun _ hcall =>
    (yields_repeated (h .statement)).bind fun _ hbody =>
    (yields_symbol _).bind fun _ hclosing =>
    .pure (by simp [*])

theorem yields_ctorDeclaration (h : Subs source sub) {head : List Node}
    (hhead : All (Part source) head) :
    Yields source (Whole source) (ctorDeclaration sub head) :=
  yields_build <|
    yields_name.bind fun _ hcalled =>
    (h .formalParameters).bind fun _ hparams =>
    (yields_option (yields_throwsClause h)).bind fun _ hthrown =>
    (yields_ctorBody h).bind fun _ hbody =>
    .pure (by simp [*])

theorem yields_compactCtorDeclaration (h : Subs source sub) (hmods : All (Part source) mods) :
    Yields source (Whole source) (compactCtorDeclaration sub mods) :=
  yields_build <|
    yields_name.bind fun _ hcalled =>
    (h .block).bind fun _ hbody =>
    .pure (by simp [*])

theorem yields_methodDeclaration (h : Subs source sub) {head : List Node}
    (hhead : All (Part source) head) :
    Yields source (Whole source) (methodDeclaration sub head) := by
  have hbody : Yields source (Part source) (do
      if ← atSymbol ";" then symbol ";" else return (← sub .block).as .body) :=
    (looks_looksAt _).bind fun _ => .ite
      (fun _ => (yields_symbol _).imp fun _ => Whole.part)
      (fun _ => (h .block).bind fun _ hbody => .pure (by simp [*]))
  exact yields_build <|
    (yields_annotations h).bind fun _ hmarks =>
    (h .plainType).bind fun _ htype =>
    yields_name.bind fun _ hcalled =>
    (h .formalParameters).bind fun _ hparams =>
    (yields_option (yields_dimensions h)).bind fun _ hdims =>
    (yields_option (yields_throwsClause h)).bind fun _ hthrown =>
    hbody.bind fun _ hbody =>
    .pure (by simp [*])

theorem yields_fieldDeclaration (h : Subs source sub) (hmods : All (Part source) mods) :
    Yields source (Whole source) (fieldDeclaration sub mods) :=
  yields_build <|
    (h .plainType).bind fun _ htype =>
    (yields_declarators h).bind fun _ hlist =>
    (yields_symbol _).bind fun _ hsemicolon =>
    .pure (by simp [*])

theorem yields_member (h : Subs source sub) : Yields source (Whole source) (member sub) := by
  have hinitializer : Yields source (Whole source) (build .staticInitializer do
      let word ← word "static"
      let body ← sub .block
      return [word, body]) :=
    yields_build <|
      (yields_word _).bind fun _ hword =>
      (h .block).bind fun _ hbody =>
      .pure (by simp [*])
  refine (looks_looksAt _).bind fun _ => .ite (fun _ => yields_symbol _) fun _ => ?_
  refine (looks_looksAt _).bind fun _ => .ite (fun _ => h .block) fun _ => ?_
  refine (looks_bind (looks_looksAt _) fun _ => looks_bind (looks_looksAtNth _ _) fun _ =>
    looks_pure _).bind fun _ => .ite (fun _ => hinitializer) fun _ => ?_
  refine (looks_isAhead _).bind fun _ => .ite (fun _ => h .typeDeclaration) fun _ => ?_
  refine (yields_option (yields_modifiers h)).bind fun mods hmods => ?_
  refine (yields_ownTypeParameters h).bind fun params hparams => ?_
  refine (looks_looksAt _).bind fun named => (looks_looksAtNth _ _).bind fun _ => ?_
  refine .ite (fun _ => yields_ctorDeclaration h (by simp [*])) fun _ => ?_
  refine (looks_looksAtNth _ _).bind fun _ => ?_
  refine .ite (fun _ => yields_compactCtorDeclaration h hmods) fun _ => ?_
  exact (looks_isAhead _).bind fun _ => .ite
    (fun _ => yields_methodDeclaration h (by simp [*])) fun _ => yields_fieldDeclaration h hmods

theorem yields_element (h : Subs source sub) : Yields source (Whole source) (element sub) := by
  have hvalue : Yields source (All (Part source)) (maybe do
      let word ← word "default"
      let value ← sub .elementValue
      return [word, value.as .value]) :=
    yields_maybe <|
      (yields_word _).bind fun _ hword =>
      (h .elementValue).bind fun _ hvalue =>
      .pure (by simp [*])
  refine (looks_isAhead _).bind fun _ => .ite (fun _ => ?_) fun _ => h .member
  exact yields_build <|
    (yields_option (yields_modifiers h)).bind fun _ hmods =>
    (h .plainType).bind fun _ htype =>
    yields_name.bind fun _ hcalled =>
    (yields_symbol _).bind fun _ hopening =>
    (yields_symbol _).bind fun _ hclosing =>
    (yields_option (yields_dimensions h)).bind fun _ hdims =>
    hvalue.bind fun _ hvalue =>
    (yields_symbol _).bind fun _ hsemicolon =>
    .pure (by simp [*])

theorem yields_packageDeclaration (h : Subs source sub) :
    Yields source (Whole source) (packageDeclaration sub) :=
  yields_build <|
    (yields_annotations h).bind fun _ hmarks =>
    (yields_word _).bind fun _ hword =>
    yields_qualified.bind fun _ hcalled =>
    (yields_symbol _).bind fun _ hsemicolon =>
    .pure (by simp [*])

theorem yields_importDeclaration : Yields source (Whole source) importDeclaration := by
  have hall : Yields source (All (Part source)) (maybe do
      let dot ← symbol "."
      let star ← accept .asterisk (isSymbol "*")
      return [dot, star]) :=
    yields_maybe <|
      (yields_symbol _).bind fun _ hdot =>
      (yields_accept _ _).bind fun _ hstar =>
      .pure (by simp [*])
  exact yields_build <|
    (yields_word _).bind fun _ hword =>
    (yields_option (yields_word _)).bind fun _ hstatic =>
    yields_qualified.bind fun _ hcalled =>
    hall.bind fun _ hall =>
    (yields_symbol _).bind fun _ hsemicolon =>
    .pure (by simp [*])

theorem yields_moduleDeclaration (h : Subs source sub) :
    Yields source (Whole source) (moduleDeclaration sub) := by
  have hinner : Yields source (All (Part source)) fun ts =>
      (closingIndex 0 ts).map fun n => ((ts.take n).map (leaf .token), ts.drop n) := by
    intro ts ns rest heq hts
    obtain ⟨n, -, he⟩ := Option.map_eq_some_iff.mp heq
    obtain ⟨rfl, rfl⟩ := Prod.mk.inj he
    refine ⟨fun m hm => ?_, fun t ht => hts t (List.mem_of_mem_drop ht)⟩
    obtain ⟨t, -, rfl⟩ := List.mem_map.mp hm
    exact (whole_leaf .token t).part
  exact yields_build <|
    (yields_annotations h).bind fun _ hmarks =>
    (yields_option (yields_word _)).bind fun _ hopened =>
    (yields_word _).bind fun _ hword =>
    yields_qualified.bind fun _ hcalled =>
    (yields_symbol _).bind fun _ hopening =>
    hinner.bind fun _ hinner =>
    (yields_symbol _).bind fun _ hclosing =>
    .pure (by simp [*])

theorem yields_fileItem (h : Subs source sub) : Yields source (Whole source) (fileItem sub) :=
  (yields_packageDeclaration h).orElse <| yields_importDeclaration.orElse <|
  (yields_moduleDeclaration h).orElse <| (h .member).orElse <|
  (h .statement).orElse (yields_accept _ _)

theorem yields_production (h : Subs source sub) : Subs source (production sub)
  | .type => yields_type h
  | .plainType => yields_plainType h
  | .annotationMark => yields_annotationMark h
  | .elementValue => yields_elementValue h
  | .expression => yields_expression h
  | .operand => yields_operand h
  | .initializer => yields_initializer h
  | .arguments => yields_arguments h
  | .formalParameters => yields_formalParameters h
  | .classBody => yields_classBody h
  | .block => yields_block h
  | .statement => yields_statement h
  | .localVariable => yields_variableDeclaration h _
  | .member => yields_member h
  | .element => yields_element h
  | .recordPattern => yields_recordPattern h
  | .typeDeclaration => yields_typeDeclaration h

/-- By induction on the depth, whatever goal is parsed yields whole nodes. -/
theorem yields_goalAt (depth : Nat) : Subs source (goalAt depth) := by
  induction depth with
  | zero => exact fun g ts n rest heq _ => by cases heq
  | succ depth ih => exact yields_production ih

end Grammar

variable {source : List Char}

theorem weave_role (comments : List Node) (n : Node) : (n.weave comments).role = n.role := by
  cases n; simp [Node.weave, Node.role]

theorem weave_kind (comments : List Node) (n : Node) : (n.weave comments).kind = n.kind := by
  cases n; simp [Node.weave, Node.kind]

theorem plain_weave {comments : List Node} {n : Node} :
    Plain source (n.weave comments) ↔ Plain source n := by
  cases n; simp [Node.weave, Plain, Node.text, Node.span, Node.extent]

mutual
theorem tidy_weave : ∀ {comments : List Node} {n : Node}, All (Whole source) comments →
    Tidy source n → Tidy source (n.weave comments)
  | comments, .mk k r e cs, hcomments, .intro hname hdeclares hcs => by
    unfold Node.weave
    have hparts := weaveInto_parts hcomments hcs
    refine .intro (fun hk d hd hrole => ?_) (fun d hd hrole => ?_) fun d hd => (hparts d hd).1
    · obtain ⟨c, hc, hrole', -, hplain⟩ := (hparts d hd).2 (by simp [hrole])
      exact hplain (hname hk c hc (hrole' ▸ hrole))
    · obtain ⟨c, hc, hrole', hkind, -⟩ := (hparts d hd).2 (by simp [hrole])
      exact hkind ▸ hdeclares c hc (hrole' ▸ hrole)

theorem weaveInto_parts : ∀ {comments cs : List Node}, All (Whole source) comments →
    (∀ c ∈ cs, Tidy source c) → ∀ d ∈ Node.weaveInto comments cs, Tidy source d ∧
      (d.role ≠ none →
        ∃ c ∈ cs, d.role = c.role ∧ c.kind = d.kind ∧ (Plain source c → Plain source d))
  | comments, [], hcomments, _, d, hd => by
    unfold Node.weaveInto at hd
    exact ⟨(hcomments d hd).tidy, fun hrole => absurd (hcomments d hd).role hrole⟩
  | comments, n :: ns, hcomments, hcs, d, hd => by
    unfold Node.weaveInto at hd
    extract_lets before later inside after at hd
    have hlater : All (Whole source) later := fun c hc =>
      hcomments c ((List.dropWhile_sublist _).subset hc)
    have hafter : All (Whole source) after := fun c hc =>
      hlater c ((List.dropWhile_sublist _).subset hc)
    rcases List.mem_append.mp hd with hd | hd
    · have hwhole := hcomments d ((List.takeWhile_sublist _).subset hd)
      exact ⟨hwhole.tidy, fun hrole => absurd hwhole.role hrole⟩
    rcases List.mem_cons.mp hd with rfl | hd
    · have hinside : All (Whole source) inside := fun c hc =>
        hlater c ((List.takeWhile_sublist _).subset hc)
      refine ⟨tidy_weave hinside (hcs n List.mem_cons_self), fun hrole => ?_⟩
      exact ⟨n, List.mem_cons_self, weave_role _ n, (weave_kind _ n).symm, plain_weave.mpr⟩
    · obtain ⟨htidy, hname⟩ :=
        weaveInto_parts hafter (fun c hc => hcs c (List.mem_cons_of_mem _ hc)) d hd
      refine ⟨htidy, fun hrole => ?_⟩
      obtain ⟨c, hc, hrest⟩ := hname hrole
      exact ⟨c, List.mem_cons_of_mem _ hc, hrest⟩
end

theorem genuine_of_mem_scan {t : Token} (h : t ∈ Token.scan source) : Genuine source t := by
  intro hword
  obtain ⟨hstands, -, hchars⟩ := Token.scan_stands source h
  unfold Token.StandsIn at hstands
  simpa [Plain, Node.text, Node.span, Parse.leaf, Node.extent, hstands] using hchars hword

/-- In the tree of a source text all names but those of annotations are single words. -/
theorem parse_tidy (source : List Char) : Tidy source (parse source) := by
  unfold parse
  extract_lets tokens isComment code comments sub items stop
  have hcomments : All (Whole source) comments := by
    intro c hc
    obtain ⟨t, -, rfl⟩ := List.mem_map.mp hc
    exact Grammar.whole_leaf .comment t
  have hitems : All (Part source) items := by
    have hsub : Grammar.Subs source sub := Grammar.yields_goalAt (8 * code.length + 8)
    have hread := Grammar.yields_repeated (Grammar.yields_fileItem hsub)
    cases h : Parse.many (Parse.one (Grammar.fileItem sub)) code with
    | none => simp [items, h]
    | some r =>
      obtain ⟨ns, rest⟩ := r
      have hcode : ∀ t ∈ code, Genuine source t := fun t ht =>
        genuine_of_mem_scan (List.mem_filter.mp ht).1
      simpa [items, h] using (hread code ns rest h hcode).1
  exact tidy_weave hcomments (whole_mk hitems).tidy

end Carve.Java
