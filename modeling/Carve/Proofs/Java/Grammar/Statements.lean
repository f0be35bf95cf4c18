import Carve.Java.Grammar.Statements
import Carve.Proofs.Java.Grammar.Expressions

/-!
# Names in variables and statements

A declarator is called by its first part, which is a single word.
-/

namespace Carve.Java.Grammar

open Parse

variable {source : List Char} {sub : Sub}

theorem yields_declaratorId (h : Subs source sub) :
    Yields source (All (Part source)) (declaratorId sub) :=
  yields_name.bind fun _ hcalled =>
  (yields_option (yields_dimensions h)).bind fun _ hdims =>
  .pure (by simp [*])

theorem yields_variableDeclarator_kind (h : Subs source sub) :
    Yields source (fun n => Whole source n ∧ n.kind = .variableDeclarator)
      (variableDeclarator sub) := by
  have hvalue : Yields source (All (Part source)) (maybe do
      let eq ← symbol "="
      let value ← sub .initializer
      return [eq, value.as .value]) :=
    yields_maybe <|
      (yields_symbol _).bind fun _ heq =>
      (h .initializer).bind fun _ hvalue =>
      .pure (by simp [*])
  exact yields_build_kind <|
    (yields_declaratorId h).bind fun _ hid =>
    hvalue.bind fun _ hvalue =>
    .pure (by simp [*])

theorem yields_variableDeclarator (h : Subs source sub) :
    Yields source (Whole source) (variableDeclarator sub) :=
  (yields_variableDeclarator_kind h).imp fun _ => And.left

theorem yields_declarators (h : Subs source sub) :
    Yields source (All (Part source)) (declarators sub) := by
  let P : Node → Prop := fun n =>
    Part source n ∧ (n.isNamed = true → n.kind = .variableDeclarator)
  have hcomma : Yields source P (symbol ",") := by
    intro ts n rest heq hts
    obtain ⟨hwhole, hrest⟩ := yields_symbol "," ts n rest heq hts
    refine ⟨⟨hwhole.part, fun hnamed => ?_⟩, hrest⟩
    cases ts with
    | nil => cases heq
    | cons t ts =>
      simp only [symbol, accept] at heq
      split at heq
      · obtain ⟨rfl, -⟩ := Prod.mk.inj (Option.some.inj heq)
        simp [leaf, Node.isNamed, Node.kind] at hnamed
      · cases heq
  have hitem : Yields source P (variableDeclarator sub) :=
    (yields_variableDeclarator_kind h).imp fun _ hn => ⟨hn.1.part, fun _ => hn.2⟩
  refine (yields_separatedBy hcomma hitem).bind fun list hlist => .pure fun n hn => ?_
  obtain ⟨m, hm, rfl⟩ := List.mem_map.mp hn
  obtain ⟨hpart, hkind⟩ := hlist m hm
  split
  · rename_i hnamed
    refine ⟨tidy_as.mpr hpart.tidy, fun hname => ?_, fun _ => ?_⟩
    · rw [role_as] at hname; cases hname
    · rw [kind_as]; exact hkind hnamed
  · exact hpart

theorem yields_variableDeclaration (h : Subs source sub) (k : Kind) :
    Yields source (Whole source) (variableDeclaration sub k) :=
  yields_build <|
    (yields_option (yields_modifiers h)).bind fun _ hmods =>
    (h .plainType).bind fun _ htype =>
    (yields_declarators h).bind fun _ hlist =>
    (yields_symbol _).bind fun _ hsemicolon =>
    .pure (by simp [*])

theorem yields_receiverParameter (h : Subs source sub) :
    Yields source (Whole source) (receiverParameter sub) := by
  have hthrough : Yields source (All (Part source)) (do
      let scope ← name
      let dot ← symbol "."
      return [scope, dot]) :=
    yields_name.bind fun _ hscope =>
    (yields_symbol _).bind fun _ hdot =>
    .pure (by simp [*])
  exact yields_build <|
    (yields_annotations h).bind fun _ hmarks =>
    (h .plainType).bind fun _ htype =>
    (yields_many hthrough).bind fun _ hthrough =>
    (yields_accept _ _).bind fun _ hthis =>
    .pure (by simp [*])

theorem yields_formalParameter (h : Subs source sub) :
    Yields source (Whole source) (formalParameter sub) :=
  yields_build <|
    (yields_option (yields_modifiers h)).bind fun _ hmods =>
    (h .plainType).bind fun _ htype =>
    (yields_declaratorId h).bind fun _ hid =>
    .pure (by simp [*])

theorem yields_spreadParameter (h : Subs source sub) :
    Yields source (Whole source) (spreadParameter sub) :=
  yields_build <|
    (yields_option (yields_modifiers h)).bind fun _ hmods =>
    (h .plainType).bind fun _ htype =>
    (yields_annotations h).bind fun _ hmarks =>
    (yields_symbol _).bind fun _ hdots =>
    (yields_variableDeclarator h).bind fun _ hdeclared =>
    .pure (by simp [*])

theorem yields_formalParameters (h : Subs source sub) :
    Yields source (Whole source) (formalParameters sub) :=
  yields_build <|
    (yields_symbol _).bind fun _ hopening =>
    (yields_maybe (yields_commaList ((yields_receiverParameter h).orElse
      ((yields_formalParameter h).orElse (yields_spreadParameter h))))).bind fun _ hparams =>
    (yields_symbol _).bind fun _ hclosing =>
    .pure (by simp [*])

theorem yields_block (h : Subs source sub) : Yields source (Whole source) (block sub) :=
  yields_build <|
    (yields_symbol _).bind fun _ hopening =>
    (yields_repeated (h .statement)).bind fun _ hbody =>
    (yields_symbol _).bind fun _ hclosing =>
    .pure (by simp [*])

theorem yields_keywordStatement {k : Kind} {keyword : String} {parts : Parse (List Node)}
    (hparts : Yields source (All (Part source)) parts) :
    Yields source (Whole source) (keywordStatement k keyword parts) :=
  yields_build <|
    (yields_word _).bind fun _ hword =>
    hparts.bind fun _ hinner =>
    (yields_symbol _).bind fun _ hsemicolon =>
    .pure (by simp [*])

theorem yields_ifStatement (h : Subs source sub) :
    Yields source (Whole source) (ifStatement sub) := by
  have hno : Yields source (All (Part source)) (maybe do
      let word ← Parse.word "else"
      let body ← sub .statement
      return [word, body]) :=
    yields_maybe <|
      (yields_word _).bind fun _ hword =>
      (h .statement).bind fun _ hbody =>
      .pure (by simp [*])
  exact yields_build <|
    (yields_word _).bind fun _ hword =>
    (yields_parenthesized h).bind fun _ hcondition =>
    (h .statement).bind fun _ hyes =>
    hno.bind fun _ hno =>
    .pure (by simp [*])

theorem yields_whileStatement (h : Subs source sub) :
    Yields source (Whole source) (whileStatement sub) :=
  yields_build <|
    (yields_word _).bind fun _ hword =>
    (yields_parenthesized h).bind fun _ hcondition =>
    (h .statement).bind fun _ hbody =>
    .pure (by simp [*])

theorem yields_doStatement (h : Subs source sub) :
    Yields source (Whole source) (doStatement sub) :=
  yields_build <|
    (yields_word _).bind fun _ hword =>
    (h .statement).bind fun _ hbody =>
    (yields_word _).bind fun _ hword' =>
    (yields_parenthesized h).bind fun _ hcondition =>
    (yields_symbol _).bind fun _ hsemicolon =>
    .pure (by simp [*])

theorem yields_enhancedFor (h : Subs source sub) :
    Yields source (Whole source) (enhancedFor sub) :=
  yields_build <|
    (yields_word _).bind fun _ hword =>
    (yields_symbol _).bind fun _ hopening =>
    (yields_option (yields_modifiers h)).bind fun _ hmods =>
    (h .plainType).bind fun _ htype =>
    (yields_declaratorId h).bind fun _ hid =>
    (yields_symbol _).bind fun _ hcolon =>
    (h .expression).bind fun _ hvalue =>
    (yields_symbol _).bind fun _ hclosing =>
    (h .statement).bind fun _ hbody =>
    .pure (by simp [*])

theorem yields_classicFor (h : Subs source sub) :
    Yields source (Whole source) (classicFor sub) := by
  have hlist : Yields source (All (Part source)) (maybe (commaList (sub .expression))) :=
    yields_maybe (yields_commaList (h .expression))
  have hinit : Yields source (All (Part source)) (one (sub .localVariable) <|> (do
      let list ← maybe (commaList (sub .expression))
      let semicolon ← symbol ";"
      return list ++ [semicolon])) :=
    (yields_one ((h .localVariable).imp fun _ => Whole.part)).orElse <|
      hlist.bind fun _ hlist =>
      (yields_symbol _).bind fun _ hsemicolon =>
      .pure (by simp [*])
  exact yields_build <|
    (yields_word _).bind fun _ hword =>
    (yields_symbol _).bind fun _ hopening =>
    hinit.bind fun _ hinit =>
    (yields_option (h .expression)).bind fun _ hcondition =>
    (yields_symbol _).bind fun _ hsemicolon =>
    hlist.bind fun _ hupdate =>
    (yields_symbol _).bind fun _ hclosing =>
    (h .statement).bind fun _ hbody =>
    .pure (by simp [*])

theorem yields_catchType (h : Subs source sub) : Yields source (Whole source) (catchType sub) :=
  yields_build (yields_separated _ (h .plainType))

theorem yields_catchParameter (h : Subs source sub) :
    Yields source (Whole source) (catchParameter sub) :=
  yields_build <|
    (yields_option (yields_modifiers h)).bind fun _ hmods =>
    (yields_catchType h).bind fun _ htypes =>
    (yields_declaratorId h).bind fun _ hid =>
    .pure (by simp [*])

theorem yields_catchClause (h : Subs source sub) :
    Yields source (Whole source) (catchClause sub) :=
  yields_build <|
    (yields_word _).bind fun _ hword =>
    (yields_symbol _).bind fun _ hopening =>
    (yields_catchParameter h).bind fun _ hparam =>
    (yields_symbol _).bind fun _ hclosing =>
    (h .block).bind fun _ hbody =>
    .pure (by simp [*])

theorem yields_finallyClause (h : Subs source sub) :
    Yields source (Whole source) (finallyClause sub) :=
  yields_build <|
    (yields_word _).bind fun _ hword =>
    (h .block).bind fun _ hbody =>
    .pure (by simp [*])

theorem yields_resource (h : Subs source sub) : Yields source (Whole source) (resource sub) := by
  refine .orElse ?_ (yields_build (yields_one ((yields_primary h).imp fun _ => Whole.part)))
  exact yields_build <|
    (yields_option (yields_modifiers h)).bind fun _ hmods =>
    (h .plainType).bind fun _ htype =>
    (yields_declaratorId h).bind fun _ hid =>
    (yields_symbol _).bind fun _ heq =>
    (h .expression).bind fun _ hvalue =>
    .pure (by simp [*])

theorem yields_resources (h : Subs source sub) : Yields source (Whole source) (resources sub) :=
  yields_build <|
    (yields_symbol _).bind fun _ hopening =>
    (yields_separated _ (yields_resource h)).bind fun _ hlist =>
    (yields_option (yields_symbol _)).bind fun _ hlast =>
    (yields_symbol _).bind fun _ hclosing =>
    .pure (by simp [*])

theorem yields_tryStatement (h : Subs source sub) :
    Yields source (Whole source) (tryStatement sub) :=
  (yields_word _).bind fun _ hword =>
  (yields_option (yields_resources h)).bind fun _ hmanaged =>
  (h .block).bind fun _ hbody =>
  (yields_repeated (yields_catchClause h)).bind fun _ hclauses =>
  (yields_option (yields_finallyClause h)).bind fun _ hfinal =>
  yields_build (.pure (by simp [*]))

theorem yields_synchronizedStatement (h : Subs source sub) :
    Yields source (Whole source) (synchronizedStatement sub) :=
  yields_build <|
    (yields_word _).bind fun _ hword =>
    (yields_parenthesized h).bind fun _ hlock =>
    (h .block).bind fun _ hbody =>
    .pure (by simp [*])

theorem yields_labeledStatement (h : Subs source sub) :
    Yields source (Whole source) (labeledStatement sub) :=
  yields_build <|
    yields_name.bind fun _ hlabel =>
    (yields_symbol _).bind fun _ hcolon =>
    (h .statement).bind fun _ hbody =>
    .pure (by simp [*])

theorem yields_assertStatement (h : Subs source sub) :
    Yields source (Whole source) (assertStatement sub) := by
  have hmessage : Yields source (All (Part source)) (maybe do
      let colon ← symbol ":"
      let text ← sub .expression
      return [colon, text]) :=
    yields_maybe <|
      (yields_symbol _).bind fun _ hcolon =>
      (h .expression).bind fun _ htext =>
      .pure (by simp [*])
  exact yields_keywordStatement <|
    (h .expression).bind fun _ htest =>
    hmessage.bind fun _ hmessage =>
    .pure (by simp [*])

theorem yields_simpleStatement (h : Subs source sub) :
    Yields source (Whole source) (simpleStatement sub) :=
  (looks_isAhead _).bind fun _ => .ite (fun _ => h .typeDeclaration) fun _ =>
    (looks_isAhead _).bind fun _ => .ite (fun _ => h .localVariable) fun _ =>
      yields_expressionStatement h

theorem yields_statement (h : Subs source sub) : Yields source (Whole source) (statement sub) := by
  have hexpression : Yields source (All (Part source)) (one (sub .expression)) :=
    yields_one ((h .expression).imp fun _ => Whole.part)
  have hlabel : Yields source (All (Part source)) (maybe (one name)) :=
    yields_option (yields_name.imp fun _ => Name.whole)
  refine (looks_looksAt _).bind fun _ => .ite (fun _ => h .block) fun _ => ?_
  refine (looks_looksAt _).bind fun _ => .ite (fun _ => yields_symbol _) fun _ => ?_
  refine looks_peek?.bind fun ahead => ?_
  split
  · split
    · exact yields_ifStatement h
    · exact yields_whileStatement h
    · exact yields_doStatement h
    · exact (looks_isAhead _).bind fun _ =>
        .ite (fun _ => yields_enhancedFor h) fun _ => yields_classicFor h
    · exact yields_tryStatement h
    · exact (yields_switch h).orElse (yields_expressionStatement h)
    · exact yields_keywordStatement (yields_maybe hexpression)
    · exact yields_keywordStatement hexpression
    · exact yields_keywordStatement hlabel
    · exact yields_keywordStatement hlabel
    · exact yields_keywordStatement hexpression
    · exact yields_assertStatement h
    · exact yields_synchronizedStatement h
    · refine (looks_bind (looks_looksAt _) fun _ => looks_bind (looks_looksAtNth _ _) fun _ =>
        looks_pure _).bind fun _ => .ite (fun _ => yields_labeledStatement h) fun _ => ?_
      exact yields_simpleStatement h
  · exact yields_simpleStatement h

end Carve.Java.Grammar
