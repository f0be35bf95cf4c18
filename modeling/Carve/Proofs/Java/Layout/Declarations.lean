import Carve.Java.Grammar.Declarations
import Carve.Proofs.Java.Grammar.Declarations
import Carve.Proofs.Java.Layout.Statements
import Carve.Proofs.Text.Slices

/-!
# Places of declarations and of the parts of a file

The modifiers of a declaration are read before its kind is known, so a declaration starts with
nodes that stand already. In the body of an enum all constants come before the other members.
-/

namespace Carve.Java

namespace Grammar

open Parse

variable {code : List Token} {sub : Sub} {lo mid : Nat} {mods : List Node}

theorem spells_classBody (h : Spelt code sub) : Spells code (classBody sub) :=
  spells_build (by decide) fun _ =>
    (spells_symbol _).bind fun _ _ hopening =>
    (spells_repeated (h .member)).bind fun _ _ hmembers =>
    (spells_symbol _).bind fun _ _ hclosing =>
    .pure ⟨(hopening.append hmembers).append hclosing, by simp⟩

theorem spells_interfaceBody (h : Spelt code sub) : Spells code (interfaceBody sub) :=
  spells_build (by decide) fun _ =>
    (spells_symbol _).bind fun _ _ hopening =>
    (spells_repeated (h .member)).bind fun _ _ hmembers =>
    (spells_symbol _).bind fun _ _ hclosing =>
    .pure ⟨(hopening.append hmembers).append hclosing, by simp⟩

theorem spells_annotationBody (h : Spelt code sub) : Spells code (annotationBody sub) :=
  spells_build (by decide) fun _ =>
    (spells_symbol _).bind fun _ _ hopening =>
    (spells_repeated (h .element)).bind fun _ _ hmembers =>
    (spells_symbol _).bind fun _ _ hclosing =>
    .pure ⟨(hopening.append hmembers).append hclosing, by simp⟩

theorem spells_superInterfaces (h : Spelt code sub) : Spells code (superInterfaces sub) :=
  spells_build (by decide) fun _ =>
    (spells_word _).bind fun _ _ hword =>
    (spells_typeList h).bind fun _ _ hlist =>
    .pure ⟨hword.append hlist, by simp⟩

theorem spells_permits (h : Spelt code sub) : Spells code (permits sub) :=
  spells_build (by decide) fun _ =>
    (spells_word _).bind fun _ _ hword =>
    (spells_typeList h).bind fun _ _ hlist =>
    .pure ⟨hword.append hlist, by simp⟩

theorem spells_superclass (h : Spelt code sub) : Spells code (superclass sub) :=
  spells_build (by decide) fun _ =>
    (spells_word _).bind fun _ _ hword =>
    (h .type).bind fun _ _ htype =>
    .pure ⟨hword.append htype, by simp⟩

theorem spells_extendsInterfaces (h : Spelt code sub) : Spells code (extendsInterfaces sub) :=
  spells_build (by decide) fun _ =>
    (spells_word _).bind fun _ _ hword =>
    (spells_typeList h).bind fun _ _ hlist =>
    .pure ⟨hword.append hlist, by simp⟩

theorem spells_ownTypeParameters (h : Spelt code sub) : SpellsAll code (ownTypeParameters sub) :=
  fun _ => (spells_option (spells_typeParameters h)).bind fun _ _ hparams =>
    .pure (hparams.mapAs _)

/-! The declarations of types stand behind their modifiers. -/

theorem reads_classDeclaration (h : Spelt code sub) (hmods : Row code lo mods mid) :
    Reads code mid (fun n => Row code lo [n]) (classDeclaration sub mods) :=
  reads_build (by decide) <|
    (spells_word _).bind fun _ _ hword =>
    spells_name.bind fun _ _ hcalled =>
    (spells_ownTypeParameters h).bind fun _ _ hparams =>
    (spells_option (spells_superclass h)).bind fun _ _ hparent =>
    (spells_option (spells_superInterfaces h)).bind fun _ _ hinterfaces =>
    (spells_option (spells_permits h)).bind fun _ _ hpermitted =>
    (spells_classBody h).bind fun _ _ hbody =>
    .pure ⟨(((((hmods.append (hword.append (hcalled.as _))).append hparams).append
      hparent).append hinterfaces).append hpermitted).append (hbody.as _), by simp⟩

theorem reads_interfaceDeclaration (h : Spelt code sub) (hmods : Row code lo mods mid) :
    Reads code mid (fun n => Row code lo [n]) (interfaceDeclaration sub mods) :=
  reads_build (by decide) <|
    (spells_word _).bind fun _ _ hword =>
    spells_name.bind fun _ _ hcalled =>
    (spells_ownTypeParameters h).bind fun _ _ hparams =>
    (spells_option (spells_extendsInterfaces h)).bind fun _ _ hparents =>
    (spells_option (spells_permits h)).bind fun _ _ hpermitted =>
    (spells_interfaceBody h).bind fun _ _ hbody =>
    .pure ⟨((((hmods.append (hword.append (hcalled.as _))).append hparams).append
      hparents).append hpermitted).append (hbody.as _), by simp⟩

theorem reads_recordDeclaration (h : Spelt code sub) (hmods : Row code lo mods mid) :
    Reads code mid (fun n => Row code lo [n]) (recordDeclaration sub mods) :=
  reads_build (by decide) <|
    (spells_word _).bind fun _ _ hword =>
    spells_name.bind fun _ _ hcalled =>
    (spells_ownTypeParameters h).bind fun _ _ hparams =>
    (h .formalParameters).bind fun _ _ hcomponents =>
    (spells_option (spells_superInterfaces h)).bind fun _ _ hinterfaces =>
    (spells_classBody h).bind fun _ _ hbody =>
    .pure ⟨((((hmods.append (hword.append (hcalled.as _))).append hparams).append
      (hcomponents.as _)).append hinterfaces).append (hbody.as _), by simp⟩

theorem reads_annotationDeclaration (h : Spelt code sub) (hmods : Row code lo mods mid) :
    Reads code mid (fun n => Row code lo [n]) (annotationDeclaration sub mods) :=
  reads_build (by decide) <|
    (spells_symbol _).bind fun _ _ hmark =>
    spells_name.bind fun _ _ hcalled =>
    (spells_annotationBody h).bind fun _ _ hbody =>
    .pure ⟨hmods.append (hmark.append ((hcalled.as _).append (hbody.as _))), by simp⟩

theorem spells_enumConstant (h : Spelt code sub) : Spells code (enumConstant sub) := by
  have hbody : Spells code (do
      guardThat (← atSymbol "\x7b")
      sub .classBody) := fun _ =>
    (looks_looksAt _).reads fun _ => (looks_guardThat _).reads fun _ => h .classBody _
  exact spells_build (by decide) fun _ =>
    (spells_option (spells_modifiers h)).bind fun _ _ hmods =>
    spells_name.bind fun _ _ hcalled =>
    (spells_option (h .arguments)).bind fun _ _ hargs =>
    (spells_option hbody).bind fun _ _ hbody =>
    .pure ⟨(hmods.append ((hcalled.as _).append (hargs.mapAs _))).append (hbody.mapAs _), by simp⟩

theorem spells_enumMembers (h : Spelt code sub) : Spells code (enumMembers sub) :=
  spells_build (by decide) fun _ =>
    (spells_symbol _).bind fun _ _ hsemicolon =>
    (spells_repeated (h .member)).bind fun _ _ hmembers =>
    .pure ⟨hsemicolon.append hmembers, by simp⟩

end Grammar

theorem genuine_nil (t : Token) : Genuine [] t := by
  intro _
  unfold Plain Node.text
  split
  · rename_i cs hslice
    have hempty : cs = [] := List.infix_nil.mp (Text.slice?_infix hslice)
    simp [hempty]
  · simp

theorem Reads.also {code : List Token} {lo : Nat} {α : Type} {Q : α → Nat → Prop} {P : α → Prop}
    {p : Parse α} (hp : Reads code lo Q p) (hy : Yields [] P p) :
    Reads code lo (fun a hi => Q a hi ∧ P a) p := by
  intro ts hi a rest heq hts
  obtain ⟨mid, ha, hrest⟩ := hp ts hi a rest heq hts
  exact ⟨mid, ⟨ha, (hy ts a rest heq fun t _ => genuine_nil t).1⟩, hrest⟩

theorem enumParts_of {front back : List Node}
    (hfront : All (fun n => n.kind = .token ∨ n.kind = .enumConstant) front)
    (hback : All (fun n => n.kind = .token ∨ n.kind = .enumMembers) back) :
    EnumParts (front ++ back) := by
  constructor
  · intro n hn
    rcases List.mem_append.mp hn with hn | hn
    · rcases hfront n hn with hk | hk <;> simp [hk]
    · rcases hback n hn with hk | hk <;> simp [hk]
  · refine List.pairwise_append.mpr ⟨?_, ?_, fun a ha b hb hk => ?_⟩
    · refine .imp_of_mem (fun ha _ _ hk => ?_) (List.pairwise_of_forall fun _ _ => trivial)
      rcases hfront _ ha with h | h <;> rw [h] at hk <;> cases hk
    · refine .imp_of_mem (fun _ hb _ _ => ?_) (List.pairwise_of_forall fun _ _ => trivial)
      rcases hback _ hb with h | h <;> rw [h] <;> decide
    · rcases hback b hb with h | h <;> rw [h] <;> decide

namespace Grammar

open Parse

variable {code : List Token} {sub : Sub} {lo mid : Nat} {mods : List Node}

theorem yields_accept_of_kind (k : Kind) (p : Token → Bool) :
    Yields [] (fun n => n.kind = k) (accept k p) := by
  intro ts n rest heq _
  refine ⟨?_, fun t _ => genuine_nil t⟩
  cases ts with
  | nil => cases heq
  | cons t ts =>
    simp only [accept] at heq
    split at heq
    · obtain ⟨rfl, -⟩ := Prod.mk.inj (Option.some.inj heq)
      rfl
    · cases heq

theorem yields_build_of_kind (k : Kind) (parts : Parse (List Node)) :
    Yields [] (fun n => n.kind = k) (build k parts) := by
  intro ts n rest heq _
  refine ⟨?_, fun t _ => genuine_nil t⟩
  obtain ⟨⟨ns, rest'⟩, -, he⟩ := Option.map_eq_some_iff.mp heq
  obtain ⟨rfl, -⟩ := Prod.mk.inj he
  cases ns <;> rfl

theorem spells_enumBody (h : Spelt code sub) : Spells code (enumBody sub) := by
  have hconstants : Yields [] (All fun n => n.kind = .token ∨ n.kind = .enumConstant)
      (maybe (commaList (enumConstant sub))) :=
    yields_maybe (yields_separatedBy ((yields_accept_of_kind _ _).imp fun _ => Or.inl)
      ((yields_build_of_kind _ _).imp fun _ => Or.inr))
  have hcomma : Yields [] (All fun n => n.kind = .token ∨ n.kind = .enumConstant)
      (maybe (one (symbol ","))) :=
    yields_maybe (yields_one ((yields_accept_of_kind _ _).imp fun _ => Or.inl))
  have hmembers : Yields [] (All fun n => n.kind = .token ∨ n.kind = .enumMembers)
      (maybe (one (enumMembers sub))) :=
    yields_maybe (yields_one ((yields_build_of_kind _ _).imp fun _ => Or.inr))
  have hparts : ∀ lo, Reads code lo (fun ns mid => Row code lo ns mid ∧ ns ≠ [] ∧ EnumParts ns) (do
      let opening ← symbol "\x7b"
      let constants ← maybe (commaList (enumConstant sub))
      let comma ← maybe (one (symbol ","))
      let members ← maybe (one (enumMembers sub))
      let closing ← symbol "\x7d"
      return opening :: constants ++ comma ++ members ++ [closing]) := by
    intro lo
    refine ((spells_symbol _ lo).also (yields_accept_of_kind _ _)).bind
      fun opening _ ⟨hopening, hkind⟩ => ?_
    refine Reads.bind (((spells_maybe (spells_commaList (spells_enumConstant h)).all) _).also
      hconstants) fun constants _ ⟨hconstants, hkinds⟩ => ?_
    refine (((spells_option (spells_symbol _)) _).also hcomma).bind
      fun comma _ ⟨hcomma, hcommas⟩ => ?_
    refine (((spells_option (spells_enumMembers h)) _).also hmembers).bind
      fun members _ ⟨hmembers, hmember⟩ => ?_
    refine ((spells_symbol _ _).also (yields_accept_of_kind _ _)).bind
      fun closing _ ⟨hclosing, hlast⟩ => .pure ⟨?_, by simp, ?_⟩
    · exact (((hopening.append hconstants).append hcomma).append hmembers).append hclosing
    · rw [List.append_assoc]
      exact enumParts_of (by simp [hkind, hkinds, hcommas]) (by simp [hmember, hlast])
  exact fun lo => reads_build_of (hparts lo)

theorem reads_enumDeclaration (h : Spelt code sub) (hmods : Row code lo mods mid) :
    Reads code mid (fun n => Row code lo [n]) (enumDeclaration sub mods) :=
  reads_build (by decide) <|
    (spells_word _).bind fun _ _ hword =>
    spells_name.bind fun _ _ hcalled =>
    (spells_option (spells_superInterfaces h)).bind fun _ _ hinterfaces =>
    (spells_enumBody h).bind fun _ _ hbody =>
    .pure ⟨((hmods.append (hword.append (hcalled.as _))).append hinterfaces).append
      (hbody.as _), by simp⟩

theorem spells_typeDeclaration (h : Spelt code sub) : Spells code (typeDeclaration sub) := fun _ =>
  (spells_option (spells_modifiers h)).bind fun _ _ hmods =>
    (reads_classDeclaration h hmods).orElse <| (reads_interfaceDeclaration h hmods).orElse <|
    (reads_enumDeclaration h hmods).orElse <| (reads_recordDeclaration h hmods).orElse <|
    reads_annotationDeclaration h hmods

theorem spells_throwsClause (h : Spelt code sub) : Spells code (throwsClause sub) :=
  spells_build (by decide) fun _ =>
    (spells_word _).bind fun _ _ hword =>
    (spells_commaList (h .type)).bind fun _ _ htypes _ =>
    .pure ⟨hword.append htypes, by simp⟩

def Callee (callee : List Node) : Prop :=
  ∀ rest : List Node, (∀ c ∈ rest, ¬ Target c ∧ c.role ≠ some .typeArguments) →
    CallParts (Node.branch .ctorInvocation (callee ++ rest)).extent (callee ++ rest)

theorem not_target_as (n : Node) (r : Role) : ¬ Target (n.as r) := by
  rintro ⟨hrole, -⟩
  rw [role_as] at hrole
  cases hrole

theorem target_alone {front rest : List Node} {target : Node} (hfront : ∀ c ∈ front, ¬ Target c)
    (hrest : ∀ c ∈ rest, ¬ Target c) :
    ∀ c ∈ front ++ [target] ++ rest, Target c → c.kind = target.kind := by
  intro c hc hctarget
  rcases List.mem_append.mp hc with hc | hc
  · rcases List.mem_append.mp hc with hc | hc
    · exact absurd hctarget (hfront c hc)
    · rw [List.mem_singleton.mp hc]
  · exact absurd hctarget (hrest c hc)

theorem callee_target {args : List Node} {target : Node}
    (hargs : All (·.kind = .typeArguments) args) (htarget : Target target) :
    Callee (args.map (·.as .typeArguments) ++ [target]) := by
  intro rest hrest
  have hfront : ∀ c ∈ args.map (·.as .typeArguments), ¬ Target c := by
    intro c hc
    obtain ⟨a, -, rfl⟩ := List.mem_map.mp hc
    exact not_target_as a _
  refine ⟨target, by simp, htarget, target_alone hfront fun c hc => (hrest c hc).1, ?_⟩
  cases args with
  | nil =>
    refine .inl ⟨rfl, fun c hc => ?_⟩
    rcases List.mem_cons.mp hc with rfl | hc
    · rw [htarget.1]
      decide
    · exact (hrest c hc).2
  | cons a args =>
    refine .inr (.inl ⟨a.as .typeArguments, by simp, ?_, role_as, rfl⟩)
    rw [kind_as]
    exact hargs a List.mem_cons_self

theorem callee_object {object dot target : Node} {args : List Node} (hdot : dot.kind = .token)
    (htarget : Target target) (hsuper : target.kind = .super) :
    Callee (object.as .object :: dot :: args.map (·.as .typeArguments) ++ [target]) := by
  intro rest hrest
  have hfront : ∀ c ∈ object.as .object :: dot :: args.map (·.as .typeArguments), ¬ Target c := by
    intro c hc
    rcases List.mem_cons.mp hc with rfl | hc
    · exact not_target_as object _
    rcases List.mem_cons.mp hc with rfl | hc
    · simp [Target, hdot]
    · obtain ⟨a, -, rfl⟩ := List.mem_map.mp hc
      exact not_target_as a _
  exact ⟨target, by simp, htarget, target_alone hfront fun c hc => (hrest c hc).1,
    .inr (.inr ⟨hsuper, object.as .object, by simp, role_as⟩)⟩

theorem spells_ctorInvocation (h : Spelt code sub) : Spells code (ctorInvocation sub) := by
  have htypeArguments : ∀ lo, Reads code lo (fun ns mid => Row code lo ns mid ∧
      All (·.kind = .typeArguments) ns) (maybe (one (typeArguments sub))) := fun lo =>
    (spells_option (spells_typeArguments h) lo).also
      (yields_maybe (yields_one (yields_build_of_kind _ _)))
  refine fun lo => reads_build_of <| Reads.bind
    (Q := fun ns hi => Row code lo ns hi ∧ Callee ns) (.orElse ?_ ?_) fun _ _ ⟨hcallee, hcalls⟩ => ?_
  · have htarget : ∀ lo, Reads code lo (fun n mid => Row code lo [n] mid ∧ Target n)
        (accept .this (isWord "this") <|> accept .super (isWord "super")) := fun _ =>
      .orElse (reads_this.imp fun _ _ ⟨hrow, hkind, hrole⟩ => ⟨hrow, hrole, .inl hkind⟩)
        (reads_super.imp fun _ _ ⟨hrow, hkind, hrole⟩ => ⟨hrow, hrole, .inr hkind⟩)
    exact (htypeArguments _).bind fun _ _ ⟨hargs, hkinds⟩ =>
      (htarget _).bind fun _ _ ⟨hrow, htarget⟩ =>
      (looks_looksAt _).reads fun _ => (looks_guardThat _).reads fun _ =>
      .pure ⟨(hargs.mapAs _).append hrow, callee_target hkinds htarget⟩
  · exact (spells_primary h).bind fun _ _ hobject =>
      (reads_symbol _).bind fun _ _ ⟨hdot, hkind, _⟩ =>
      (spells_option (spells_typeArguments h)).bind fun _ _ hargs =>
      reads_super.bind fun _ _ ⟨hrow, hsuper, hrole⟩ =>
      .pure ⟨(((hobject.as _).append hdot).append (hargs.mapAs _)).append hrow,
        callee_object hkind ⟨hrole, .inr hsuper⟩ hsuper⟩
  · refine (h .arguments).bind fun args _ hargs =>
      (reads_symbol _).bind fun semicolon _ ⟨hsemicolon, hkind, hrole, _⟩ =>
      .pure ⟨hcallee.append ((hargs.as _).append hsemicolon), by simp, hcalls _ fun c hc => ?_⟩
    rcases List.mem_cons.mp hc with rfl | hc
    · simp [Target, role_as]
    · obtain rfl := List.mem_singleton.mp hc
      simp [Target, hkind, hrole]

theorem spells_ctorBody (h : Spelt code sub) : Spells code (ctorBody sub) :=
  spells_build (by decide) fun _ =>
    (spells_symbol _).bind fun _ _ hopening =>
    (spells_option (spells_ctorInvocation h)).bind fun _ _ hcall =>
    (spells_repeated (h .statement)).bind fun _ _ hbody =>
    (spells_symbol _).bind fun _ _ hclosing =>
    .pure ⟨((hopening.append hcall).append hbody).append hclosing, by simp⟩

/-! So do those of members. -/

theorem reads_ctorDeclaration (h : Spelt code sub) {head : List Node}
    (hhead : Row code lo head mid) :
    Reads code mid (fun n => Row code lo [n]) (ctorDeclaration sub head) :=
  reads_build (by decide) <|
    spells_name.bind fun _ _ hcalled =>
    (h .formalParameters).bind fun _ _ hparams =>
    (spells_option (spells_throwsClause h)).bind fun _ _ hthrown =>
    (spells_ctorBody h).bind fun _ _ hbody =>
    .pure ⟨((hhead.append ((hcalled.as _).append (hparams.as _))).append hthrown).append
      (hbody.as _), by simp⟩

theorem reads_compactCtorDeclaration (h : Spelt code sub) (hmods : Row code lo mods mid) :
    Reads code mid (fun n => Row code lo [n]) (compactCtorDeclaration sub mods) :=
  reads_build (by decide) <|
    spells_name.bind fun _ _ hcalled =>
    (h .block).bind fun _ _ hbody =>
    .pure ⟨hmods.append ((hcalled.as _).append (hbody.as _)), by simp⟩

theorem reads_methodDeclaration (h : Spelt code sub) {head : List Node}
    (hhead : Row code lo head mid) :
    Reads code mid (fun n => Row code lo [n]) (methodDeclaration sub head) := by
  have hbody : Spells code (do
      if ← atSymbol ";" then symbol ";" else return (← sub .block).as .body) := fun _ =>
    (looks_looksAt _).reads fun _ => .ite (fun _ => spells_symbol _ _)
      (fun _ => (h .block).bind fun _ _ hbody => .pure (hbody.as _))
  exact reads_build (by decide) <|
    (spells_annotations h).bind fun _ _ hmarks =>
    (h .plainType).bind fun _ _ htype =>
    spells_name.bind fun _ _ hcalled =>
    (h .formalParameters).bind fun _ _ hparams =>
    (spells_option (spells_dimensions h)).bind fun _ _ hdims =>
    (spells_option (spells_throwsClause h)).bind fun _ _ hthrown =>
    hbody.bind fun _ _ hbody =>
    .pure ⟨((((hhead.append hmarks).append ((htype.as _).append ((hcalled.as _).append
      (hparams.as _)))).append (hdims.mapAs _)).append hthrown).append hbody, by simp⟩

theorem branch_stop (k : Kind) (ns : List Node) (last : Node) :
    (Node.branch k (ns ++ [last])).extent.stop = last.extent.stop := by
  cases ns with
  | nil => rfl
  | cons first rest => simp [Node.branch, Node.extent]

theorem reads_fieldDeclaration (h : Spelt code sub) (hmods : Row code lo mods mid) :
    Reads code mid (fun n => Row code lo [n]) (fieldDeclaration sub mods) :=
  reads_build_of <|
    (h .plainType).bind fun _ _ htype =>
    (spells_declarators h).bind fun _ _ hlist =>
    (reads_symbol _).bind fun semicolon _ ⟨hsemicolon, _, hrole, htells⟩ =>
    .pure ⟨(hmods.append ((htype.as _).append hlist)).append hsemicolon, by simp,
      semicolon, by simp, hrole, (branch_stop _ _ _).symm, htells⟩

theorem spells_member (h : Spelt code sub) : Spells code (member sub) := by
  have hinitializer : Spells code (build .staticInitializer do
      let word ← word "static"
      let body ← sub .block
      return [word, body]) :=
    spells_build (by decide) fun _ =>
      (spells_word _).bind fun _ _ hword =>
      (h .block).bind fun _ _ hbody =>
      .pure ⟨hword.append hbody, by simp⟩
  intro lo
  refine (looks_looksAt _).reads fun _ => .ite (fun _ => spells_symbol _ _) fun _ => ?_
  refine (looks_looksAt _).reads fun _ => .ite (fun _ => h .block _) fun _ => ?_
  refine (looks_bind (looks_looksAt _) fun _ => looks_bind (looks_looksAtNth _ _) fun _ =>
    looks_pure _).reads fun _ => .ite (fun _ => hinitializer _) fun _ => ?_
  refine (looks_isAhead _).reads fun _ => .ite (fun _ => h .typeDeclaration _) fun _ => ?_
  refine (spells_option (spells_modifiers h)).bind fun mods mid hmods => ?_
  refine (spells_ownTypeParameters h).bind fun params _ hparams => ?_
  refine (looks_looksAt _).reads fun named => (looks_looksAtNth _ _).reads fun _ => ?_
  refine .ite (fun _ => reads_ctorDeclaration h (hmods.append hparams)) fun _ => ?_
  refine (looks_looksAtNth _ _).reads fun _ => ?_
  refine .ite (fun _ => reads_compactCtorDeclaration h (hmods.widen hparams.le)) fun _ => ?_
  exact (looks_isAhead _).reads fun _ => .ite
    (fun _ => reads_methodDeclaration h (hmods.append hparams))
    fun _ => reads_fieldDeclaration h (hmods.widen hparams.le)

theorem spells_element (h : Spelt code sub) : Spells code (element sub) := by
  have hvalue : SpellsAll code (maybe do
      let word ← word "default"
      let value ← sub .elementValue
      return [word, value.as .value]) :=
    spells_maybe fun _ =>
      (spells_word _).bind fun _ _ hword =>
      (h .elementValue).bind fun _ _ hvalue =>
      .pure (hword.append (hvalue.as _))
  intro lo
  refine (looks_isAhead _).reads fun _ => .ite (fun _ => ?_) fun _ => h .member _
  exact spells_build (by decide) (fun _ =>
    (spells_option (spells_modifiers h)).bind fun _ _ hmods =>
    (h .plainType).bind fun _ _ htype =>
    spells_name.bind fun _ _ hcalled =>
    (spells_symbol _).bind fun _ _ hopening =>
    (spells_symbol _).bind fun _ _ hclosing =>
    (spells_option (spells_dimensions h)).bind fun _ _ hdims =>
    hvalue.bind fun _ _ hvalue =>
    (spells_symbol _).bind fun _ _ hsemicolon =>
    .pure ⟨(((hmods.append ((htype.as _).append ((hcalled.as _).append (hopening.append
      hclosing)))).append (hdims.mapAs _)).append hvalue).append hsemicolon, by simp⟩) _

theorem spells_packageDeclaration (h : Spelt code sub) : Spells code (packageDeclaration sub) :=
  spells_build (by decide) fun _ =>
    (spells_annotations h).bind fun _ _ hmarks =>
    (spells_word _).bind fun _ _ hword =>
    spells_qualified.bind fun _ _ hcalled =>
    (spells_symbol _).bind fun _ _ hsemicolon =>
    .pure ⟨hmarks.append (hword.append (hcalled.append hsemicolon)), by simp⟩

theorem spells_importDeclaration : Spells code importDeclaration := by
  have hall : SpellsAll code (maybe do
      let dot ← symbol "."
      let star ← accept .asterisk (isSymbol "*")
      return [dot, star]) :=
    spells_maybe fun _ =>
      (spells_symbol _).bind fun _ _ hdot =>
      (spells_accept (by decide) _).bind fun _ _ hstar =>
      .pure (hdot.append hstar)
  exact spells_build (by decide) fun _ =>
    (spells_word _).bind fun _ _ hword =>
    (spells_option (spells_word _)).bind fun _ _ hstatic =>
    spells_qualified.bind fun _ _ hcalled =>
    hall.bind fun _ _ hall =>
    (spells_symbol _).bind fun _ _ hsemicolon =>
    .pure ⟨(((hword.append hstatic).append hcalled).append hall).append hsemicolon, by simp⟩

theorem spells_moduleDeclaration (h : Spelt code sub) : Spells code (moduleDeclaration sub) := by
  have hinner : SpellsAll code fun ts =>
      (closingIndex 0 ts).map fun n => ((ts.take n).map (leaf .token), ts.drop n) := by
    intro lo ts hi ns rest heq hts
    obtain ⟨n, -, he⟩ := Option.map_eq_some_iff.mp heq
    obtain ⟨rfl, rfl⟩ := Prod.mk.inj he
    rw [← List.take_append_drop n ts] at hts
    obtain ⟨mid, hfront, hback⟩ := hts.split
    exact ⟨mid, hfront.row_leaves (by decide), hback⟩
  exact spells_build (by decide) fun _ =>
    (spells_annotations h).bind fun _ _ hmarks =>
    (spells_option (spells_word _)).bind fun _ _ hopened =>
    (spells_word _).bind fun _ _ hword =>
    spells_qualified.bind fun _ _ hcalled =>
    (spells_symbol _).bind fun _ _ hopening =>
    hinner.bind fun _ _ hinner =>
    (spells_symbol _).bind fun _ _ hclosing =>
    .pure ⟨(((hmarks.append hopened).append (hword.append (hcalled.append hopening))).append
      hinner).append hclosing, by simp⟩

theorem spells_fileItem (h : Spelt code sub) : Spells code (fileItem sub) :=
  (spells_packageDeclaration h).orElse <| spells_importDeclaration.orElse <|
  (spells_moduleDeclaration h).orElse <| (h .member).orElse <|
  (h .statement).orElse (spells_accept (by decide) _)

theorem spelt_production (h : Spelt code sub) : Spelt code (production sub)
  | .type => spells_type h
  | .plainType => spells_plainType h
  | .annotationMark => spells_annotationMark h
  | .elementValue => spells_elementValue h
  | .expression => spells_expression h
  | .operand => spells_operand h
  | .initializer => spells_initializer h
  | .arguments => spells_arguments h
  | .formalParameters => spells_formalParameters h
  | .classBody => spells_classBody h
  | .block => spells_block h
  | .statement => spells_statement h
  | .localVariable => spells_variableDeclaration h (by decide)
  | .member => spells_member h
  | .element => spells_element h
  | .recordPattern => spells_recordPattern h
  | .typeDeclaration => spells_typeDeclaration h

/-- By induction on the depth, whatever goal is parsed makes nodes that stand in their places. -/
theorem spelt_goalAt (depth : Nat) : Spelt code (goalAt depth) := by
  induction depth with
  | zero => exact fun g lo ts hi n rest heq _ => by cases heq
  | succ depth ih => exact spelt_production ih

end Grammar

end Carve.Java
