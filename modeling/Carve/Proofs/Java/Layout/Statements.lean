import Carve.Java.Grammar.Statements
import Carve.Proofs.Java.Layout.Expressions

/-!
# Places of variables and statements

A statement takes its keyword, its parts and its semicolon in the order of reading.
-/

namespace Carve.Java.Grammar

open Parse

variable {code : List Token} {sub : Sub}

theorem reads_declaratorId (h : Spelt code sub) {lo : Nat} :
    Reads code lo (fun ns mid => Row code lo ns mid ∧ ns ≠ [] ∧
      (ns.filterMap (·.role)).Sublist [.name, .dimensions]) (declaratorId sub) := by
  have hdims : ∀ lo, Reads code lo (fun ns mid => Row code lo ns mid ∧
      ((ns.map (·.as .dimensions)).filterMap (·.role)).Sublist [.dimensions])
      (maybe (one (dimensions sub))) := fun _ =>
    reads_maybe ((reads_one (spells_dimensions h)).imp fun _ _ ⟨_, hns, hrow⟩ =>
      hns ▸ ⟨hrow, by simp [role_as]⟩) ⟨.nil, by simp⟩
  exact spells_name.bind fun _ _ hcalled =>
    (hdims _).bind fun _ _ ⟨hdims, hroles⟩ =>
    .pure ⟨(hcalled.as _).append (hdims.mapAs _), by simp, by simpa [role_as] using hroles⟩

theorem spells_declaratorId (h : Spelt code sub) : SpellsAll code (declaratorId sub) := fun _ =>
  (reads_declaratorId h).imp fun _ _ ⟨hrow, _⟩ => hrow

theorem spells_variableDeclarator (h : Spelt code sub) : Spells code (variableDeclarator sub) := by
  have hvalue : ∀ lo, Reads code lo (fun ns mid => Row code lo ns mid ∧
      (ns.filterMap (·.role)).Sublist [.value]) (do
      let eq ← symbol "="
      let value ← sub .initializer
      return [eq, value.as .value]) := fun _ =>
    (reads_symbol _).bind fun _ _ ⟨heq, _, hrole, _⟩ =>
    (h .initializer).bind fun _ _ hvalue =>
    .pure ⟨heq.append (hvalue.as _), by simp [hrole, role_as]⟩
  refine fun _ => reads_build_of <|
    (reads_declaratorId h).bind fun id _ ⟨hid, hne, hroles⟩ =>
    (reads_maybe (hvalue _) ⟨.nil, by simp⟩).bind fun value _ ⟨hvalue, hlast⟩ =>
    .pure ⟨hid.append hvalue, by simp [hne], ?_⟩
  show ((id ++ value).filterMap (·.role)).Sublist [.name, .dimensions, .value]
  rw [List.filterMap_append]
  exact hroles.append hlast

theorem spells_declarators (h : Spelt code sub) : SpellsAll code (declarators sub) := fun _ =>
  (spells_commaList (spells_variableDeclarator h)).bind fun _ _ hlist _ =>
  .pure (hlist.mapNamed _)

theorem spells_variableDeclaration (h : Spelt code sub) {k : Kind} (hk : k.isLoose = true) :
    Spells code (variableDeclaration sub k) :=
  spells_build hk fun _ =>
    (spells_option (spells_modifiers h)).bind fun _ _ hmods =>
    (h .plainType).bind fun _ _ htype =>
    (spells_declarators h).bind fun _ _ hlist =>
    (spells_symbol _).bind fun _ _ hsemicolon =>
    .pure ⟨(hmods.append ((htype.as _).append hlist)).append hsemicolon, by simp⟩

theorem spells_receiverParameter (h : Spelt code sub) : Spells code (receiverParameter sub) := by
  have hthrough : SpellsAll code (do
      let scope ← name
      let dot ← symbol "."
      return [scope, dot]) := fun _ =>
    spells_name.bind fun _ _ hscope =>
    (spells_symbol _).bind fun _ _ hdot =>
    .pure (hscope.append hdot)
  exact spells_build (by decide) fun _ =>
    (spells_annotations h).bind fun _ _ hmarks =>
    (h .plainType).bind fun _ _ htype =>
    (spells_many hthrough).bind fun _ _ hthrough =>
    spells_this.bind fun _ _ hthis =>
    .pure ⟨(hmarks.append (htype.append hthrough)).append hthis, by simp⟩

theorem spells_formalParameter (h : Spelt code sub) : Spells code (formalParameter sub) :=
  spells_build (by decide) fun _ =>
    (spells_option (spells_modifiers h)).bind fun _ _ hmods =>
    (h .plainType).bind fun _ _ htype =>
    (spells_declaratorId h).bind fun _ _ hid =>
    .pure ⟨hmods.append ((htype.as _).append hid), by simp⟩

theorem spells_spreadParameter (h : Spelt code sub) : Spells code (spreadParameter sub) :=
  spells_build (by decide) fun _ =>
    (spells_option (spells_modifiers h)).bind fun _ _ hmods =>
    (h .plainType).bind fun _ _ htype =>
    (spells_annotations h).bind fun _ _ hmarks =>
    (spells_symbol _).bind fun _ _ hdots =>
    (spells_variableDeclarator h).bind fun _ _ hdeclared =>
    .pure ⟨(hmods.append (htype.append hmarks)).append (hdots.append hdeclared), by simp⟩

theorem spells_formalParameters (h : Spelt code sub) : Spells code (formalParameters sub) :=
  spells_build (by decide) fun _ =>
    (spells_symbol _).bind fun _ _ hopening =>
    (spells_maybe (spells_commaList ((spells_receiverParameter h).orElse
      ((spells_formalParameter h).orElse (spells_spreadParameter h)))).all).bind
      fun _ _ hparams =>
    (spells_symbol _).bind fun _ _ hclosing =>
    .pure ⟨(hopening.append hparams).append hclosing, by simp⟩

theorem spells_block (h : Spelt code sub) : Spells code (block sub) :=
  spells_build (by decide) fun _ =>
    (spells_symbol _).bind fun _ _ hopening =>
    (spells_repeated (h .statement)).bind fun _ _ hbody =>
    (spells_symbol _).bind fun _ _ hclosing =>
    .pure ⟨(hopening.append hbody).append hclosing, by simp⟩

theorem spells_keywordStatement {k : Kind} (hk : k.isLoose = true) {keyword : String}
    {parts : Parse (List Node)} (hparts : SpellsAll code parts) :
    Spells code (keywordStatement k keyword parts) :=
  spells_build hk fun _ =>
    (spells_word _).bind fun _ _ hword =>
    hparts.bind fun _ _ hinner =>
    (spells_symbol _).bind fun _ _ hsemicolon =>
    .pure ⟨(hword.append hinner).append hsemicolon, by simp⟩

theorem spells_ifStatement (h : Spelt code sub) : Spells code (ifStatement sub) := by
  have hno : SpellsAll code (do
      let word ← Parse.word "else"
      let body ← sub .statement
      return [word, body]) := fun _ =>
    (spells_word _).bind fun _ _ hword =>
    (h .statement).bind fun _ _ hbody =>
    .pure (hword.append hbody)
  exact spells_build (by decide) fun _ =>
    (spells_word _).bind fun _ _ hword =>
    (spells_parenthesized h).bind fun _ _ hcondition =>
    (h .statement).bind fun _ _ hyes =>
    (spells_maybe hno).bind fun _ _ hno =>
    .pure ⟨(hword.append (hcondition.append hyes)).append hno, by simp⟩

theorem spells_whileStatement (h : Spelt code sub) : Spells code (whileStatement sub) :=
  spells_build (by decide) fun _ =>
    (spells_word _).bind fun _ _ hword =>
    (spells_parenthesized h).bind fun _ _ hcondition =>
    (h .statement).bind fun _ _ hbody =>
    .pure ⟨hword.append (hcondition.append (hbody.as _)), by simp⟩

theorem spells_doStatement (h : Spelt code sub) : Spells code (doStatement sub) :=
  spells_build (by decide) fun _ =>
    (spells_word _).bind fun _ _ hword =>
    (h .statement).bind fun _ _ hbody =>
    (spells_word _).bind fun _ _ hword' =>
    (spells_parenthesized h).bind fun _ _ hcondition =>
    (spells_symbol _).bind fun _ _ hsemicolon =>
    .pure ⟨hword.append ((hbody.as _).append (hword'.append (hcondition.append hsemicolon))),
      by simp⟩

theorem spells_enhancedFor (h : Spelt code sub) : Spells code (enhancedFor sub) :=
  spells_build (by decide) fun _ =>
    (spells_word _).bind fun _ _ hword =>
    (spells_symbol _).bind fun _ _ hopening =>
    (spells_option (spells_modifiers h)).bind fun _ _ hmods =>
    (h .plainType).bind fun _ _ htype =>
    (spells_declaratorId h).bind fun _ _ hid =>
    (spells_symbol _).bind fun _ _ hcolon =>
    (h .expression).bind fun _ _ hvalue =>
    (spells_symbol _).bind fun _ _ hclosing =>
    (h .statement).bind fun _ _ hbody =>
    .pure ⟨(((hword.append hopening).append hmods).append ((htype.as _).append hid)).append
      (hcolon.append ((hvalue.as _).append (hclosing.append (hbody.as _)))), by simp⟩

theorem spells_classicFor (h : Spelt code sub) : Spells code (classicFor sub) := by
  have hlist : SpellsAll code (maybe (commaList (sub .expression))) :=
    spells_maybe (spells_commaList (h .expression)).all
  have hinit : SpellsAll code (one (sub .localVariable) <|> (do
      let list ← maybe (commaList (sub .expression))
      let semicolon ← symbol ";"
      return list ++ [semicolon])) := fun _ =>
    ((spells_one (h .localVariable)).all _).orElse <|
      hlist.bind fun _ _ hlist =>
      (spells_symbol _).bind fun _ _ hsemicolon =>
      .pure (hlist.append hsemicolon)
  exact spells_build (by decide) fun _ =>
    (spells_word _).bind fun _ _ hword =>
    (spells_symbol _).bind fun _ _ hopening =>
    hinit.bind fun _ _ hinit =>
    (spells_option (h .expression)).bind fun _ _ hcondition =>
    (spells_symbol _).bind fun _ _ hsemicolon =>
    hlist.bind fun _ _ hupdate =>
    (spells_symbol _).bind fun _ _ hclosing =>
    (h .statement).bind fun _ _ hbody =>
    .pure ⟨(((((hword.append hopening).append hinit).append hcondition).append
      hsemicolon).append hupdate).append (hclosing.append (hbody.as _)), by simp⟩

theorem spells_catchType (h : Spelt code sub) : Spells code (catchType sub) :=
  spells_build (by decide) (spells_separated _ (h .plainType))

theorem spells_catchParameter (h : Spelt code sub) : Spells code (catchParameter sub) :=
  spells_build (by decide) fun _ =>
    (spells_option (spells_modifiers h)).bind fun _ _ hmods =>
    (spells_catchType h).bind fun _ _ htypes =>
    (spells_declaratorId h).bind fun _ _ hid =>
    .pure ⟨hmods.append (htypes.append hid), by simp⟩

theorem spells_catchClause (h : Spelt code sub) : Spells code (catchClause sub) :=
  spells_build (by decide) fun _ =>
    (spells_word _).bind fun _ _ hword =>
    (spells_symbol _).bind fun _ _ hopening =>
    (spells_catchParameter h).bind fun _ _ hparam =>
    (spells_symbol _).bind fun _ _ hclosing =>
    (h .block).bind fun _ _ hbody =>
    .pure ⟨hword.append (hopening.append (hparam.append (hclosing.append (hbody.as _)))),
      by simp⟩

theorem spells_finallyClause (h : Spelt code sub) : Spells code (finallyClause sub) :=
  spells_build (by decide) fun _ =>
    (spells_word _).bind fun _ _ hword =>
    (h .block).bind fun _ _ hbody =>
    .pure ⟨hword.append hbody, by simp⟩

theorem spells_resource (h : Spelt code sub) : Spells code (resource sub) := by
  refine .orElse ?_ (spells_build (by decide) (spells_one (spells_primary h)))
  exact spells_build (by decide) fun _ =>
    (spells_option (spells_modifiers h)).bind fun _ _ hmods =>
    (h .plainType).bind fun _ _ htype =>
    (spells_declaratorId h).bind fun _ _ hid =>
    (spells_symbol _).bind fun _ _ heq =>
    (h .expression).bind fun _ _ hvalue =>
    .pure ⟨(hmods.append ((htype.as _).append hid)).append (heq.append (hvalue.as _)), by simp⟩

theorem spells_resources (h : Spelt code sub) : Spells code (resources sub) :=
  spells_build (by decide) fun _ =>
    (spells_symbol _).bind fun _ _ hopening =>
    (spells_separated _ (spells_resource h)).bind fun _ _ hlist _ =>
    (spells_option (spells_symbol _)).bind fun _ _ hlast =>
    (spells_symbol _).bind fun _ _ hclosing =>
    .pure ⟨((hopening.append hlist).append hlast).append hclosing, by simp⟩

theorem spells_tryStatement (h : Spelt code sub) : Spells code (tryStatement sub) := fun _ =>
  (spells_word _).bind fun _ _ hword =>
  (spells_option (spells_resources h)).bind fun managed _ hmanaged =>
  (h .block).bind fun _ _ hbody =>
  (spells_repeated (spells_catchClause h)).bind fun _ _ hclauses =>
  (spells_option (spells_finallyClause h)).bind fun _ _ hfinal => by
    have hk : (if managed.isEmpty then Kind.tryStatement else .tryWithResources).isLoose := by
      split <;> rfl
    exact reads_build hk
      (.pure ⟨((hword.append hmanaged).append ((hbody.as _).append hclauses)).append hfinal,
        by simp⟩)

theorem spells_synchronizedStatement (h : Spelt code sub) :
    Spells code (synchronizedStatement sub) :=
  spells_build (by decide) fun _ =>
    (spells_word _).bind fun _ _ hword =>
    (spells_parenthesized h).bind fun _ _ hlock =>
    (h .block).bind fun _ _ hbody =>
    .pure ⟨hword.append (hlock.append (hbody.as _)), by simp⟩

theorem spells_labeledStatement (h : Spelt code sub) : Spells code (labeledStatement sub) :=
  spells_build (by decide) fun _ =>
    spells_name.bind fun _ _ hlabel =>
    (spells_symbol _).bind fun _ _ hcolon =>
    (h .statement).bind fun _ _ hbody =>
    .pure ⟨hlabel.append (hcolon.append hbody), by simp⟩

theorem spells_assertStatement (h : Spelt code sub) : Spells code (assertStatement sub) := by
  have hmessage : SpellsAll code (do
      let colon ← symbol ":"
      let text ← sub .expression
      return [colon, text]) := fun _ =>
    (spells_symbol _).bind fun _ _ hcolon =>
    (h .expression).bind fun _ _ htext =>
    .pure (hcolon.append htext)
  exact spells_keywordStatement (by decide) fun _ =>
    (h .expression).bind fun _ _ htest =>
    (spells_maybe hmessage).bind fun _ _ hmessage =>
    .pure (htest.append hmessage)

theorem spells_simpleStatement (h : Spelt code sub) : Spells code (simpleStatement sub) := fun _ =>
  (looks_isAhead _).reads fun _ => .ite (fun _ => h .typeDeclaration _) fun _ =>
    (looks_isAhead _).reads fun _ => .ite (fun _ => h .localVariable _) fun _ =>
      spells_expressionStatement h _

theorem spells_statement (h : Spelt code sub) : Spells code (statement sub) := by
  have hexpression : SpellsAll code (one (sub .expression)) := (spells_one (h .expression)).all
  have hlabel : SpellsAll code (maybe (one name)) := spells_option spells_name
  intro lo
  refine (looks_looksAt _).reads fun _ => .ite (fun _ => h .block _) fun _ => ?_
  refine (looks_looksAt _).reads fun _ => .ite (fun _ => spells_symbol _ _) fun _ => ?_
  refine looks_peek?.reads fun ahead => ?_
  split
  · split
    · exact spells_ifStatement h _
    · exact spells_whileStatement h _
    · exact spells_doStatement h _
    · exact (looks_isAhead _).reads fun _ =>
        .ite (fun _ => spells_enhancedFor h _) fun _ => spells_classicFor h _
    · exact spells_tryStatement h _
    · exact (spells_switch h).orElse (spells_expressionStatement h) _
    · exact spells_keywordStatement (by decide) (spells_maybe hexpression) _
    · exact spells_keywordStatement (by decide) hexpression _
    · exact spells_keywordStatement (by decide) hlabel _
    · exact spells_keywordStatement (by decide) hlabel _
    · exact spells_keywordStatement (by decide) hexpression _
    · exact spells_assertStatement h _
    · exact spells_synchronizedStatement h _
    · refine (looks_bind (looks_looksAt _) fun _ => looks_bind (looks_looksAtNth _ _) fun _ =>
        looks_pure _).reads fun _ => .ite (fun _ => spells_labeledStatement h _) fun _ => ?_
      exact spells_simpleStatement h _
  · exact spells_simpleStatement h _

end Carve.Java.Grammar
