import Carve.Java.Grammar.Types
import Carve.Proofs.Java.Grammar.Basic

/-!
# Names in annotations and types

An annotation is the one node that is called by a qualified name.
-/

namespace Carve.Java.Grammar

open Parse

variable {source : List Char} {sub : Sub}

theorem yields_qualified : Yields source (Whole source) qualified :=
  yields_name.bind fun first hfirst => by
    refine yields_grow (fun scope hscope => ?_) hfirst.whole
    exact yields_build <|
      (looks_looksAtNth _ _).bind fun _ =>
      (looks_guardThat _).bind fun _ =>
      (yields_symbol _).bind fun _ hdot =>
      yields_name.bind fun _ hlast =>
      .pure (by simp [*])

theorem yields_elementPair (h : Subs source sub) :
    Yields source (Whole source) (elementPair sub) :=
  yields_build <|
    yields_name.bind fun _ hkey =>
    (yields_symbol _).bind fun _ heq =>
    (h .elementValue).bind fun _ hvalue =>
    .pure (by simp [*])

theorem yields_elementArray (h : Subs source sub) :
    Yields source (Whole source) (elementArray sub) :=
  yields_build <|
    (yields_symbol _).bind fun _ hopening =>
    (yields_maybe (yields_commaList (h .elementValue))).bind fun _ hvalues =>
    (yields_option (yields_symbol _)).bind fun _ hcomma =>
    (yields_symbol _).bind fun _ hclosing =>
    .pure (by simp [*])

theorem yields_elementValue (h : Subs source sub) :
    Yields source (Whole source) (elementValue sub) :=
  (looks_looksAt _).bind fun _ => .ite (fun _ => yields_elementArray h) fun _ =>
    (looks_looksAt _).bind fun _ => .ite (fun _ => h .annotationMark) fun _ => h .expression

theorem yields_annotationArguments (h : Subs source sub) :
    Yields source (Whole source) (annotationArguments sub) := by
  unfold annotationArguments
  refine yields_build <|
    (yields_symbol _).bind fun _ hopening =>
    (looks_looksAtNth _ _).bind fun pairs => ?_
  split
  · exact (yields_commaList (yields_elementPair h)).bind fun _ hvalues =>
      (yields_symbol _).bind fun _ hclosing => .pure (by simp [*])
  · exact (yields_option (h .elementValue)).bind fun _ hvalues =>
      (yields_symbol _).bind fun _ hclosing => .pure (by simp [*])

theorem yields_annotationMark (h : Subs source sub) :
    Yields source (Whole source) (annotationMark sub) := by
  intro ts n rest heq hts
  obtain ⟨⟨ns, rest'⟩, hread, he⟩ := Option.map_eq_some_iff.mp heq
  obtain ⟨rfl, rfl⟩ := Prod.mk.inj he
  have hparts : Yields source (All fun n => Tidy source n ∧ Declares n) (do
      let mark ← symbol "@"
      let called ← qualified
      let args ← maybe (one (annotationArguments sub))
      return [mark, called.as .name] ++ args) :=
    (yields_symbol _).bind fun _ hmark =>
    yields_qualified.bind fun _ hcalled =>
    (yields_option (yields_annotationArguments h)).bind fun _ hargs =>
    .pure (by
      have hargs' := hargs.imp fun n hn => And.intro hn.tidy hn.declares
      simp [hmark.tidy, hmark.part.declares, tidy_as, hcalled.tidy, declares_as, hargs'])
  obtain ⟨hns, hrest⟩ := hparts ts ns rest' hread hts
  refine ⟨?_, hrest⟩
  unfold Node.branch
  split
  · exact whole_mk all_nil
  · exact ⟨⟨fun hk => absurd rfl hk, fun c hc => (hns c hc).2, fun c hc => (hns c hc).1⟩, rfl⟩

theorem yields_annotations (h : Subs source sub) :
    Yields source (All (Part source)) (annotations sub) :=
  yields_repeated (h .annotationMark)

theorem yields_wildcard (h : Subs source sub) : Yields source (Whole source) (wildcard sub) :=
  yields_build <|
    (yields_annotations h).bind fun _ hmarks =>
    (yields_symbol _).bind fun _ hquestion =>
    (yields_maybe (P := Part source) <|
      ((yields_word _).orElse (yields_accept _ _)).bind fun _ hword =>
      (h .type).bind fun _ htype =>
      .pure (by simp [*])).bind fun _ hbound =>
    .pure (by simp [*])

theorem yields_typeArguments (h : Subs source sub) :
    Yields source (Whole source) (typeArguments sub) :=
  yields_build <|
    (yields_symbol _).bind fun _ hopening =>
    (yields_maybe (yields_commaList ((yields_wildcard h).orElse (h .type)))).bind fun _ hargs =>
    (yields_symbol _).bind fun _ hclosing =>
    .pure (by simp [*])

theorem yields_typeStep (h : Subs source sub) {type : Node} (htype : Whole source type) :
    Yields source (Whole source) (typeStep sub type) :=
  (looks_looksAt _).bind fun _ => .ite
    (fun _ => (looks_guardThat _).bind fun _ => yields_build <|
      (yields_typeArguments h).bind fun _ hargs =>
      .pure (by simp [*]))
    (fun _ => yields_build <|
      (yields_symbol _).bind fun _ hdot =>
      (yields_annotations h).bind fun _ hmarks =>
      (yields_accept _ _).bind fun _ hlast =>
      .pure (by simp [*]))

theorem yields_namedType (h : Subs source sub) : Yields source (Whole source) (namedType sub) :=
  (yields_accept _ _).bind fun _ hfirst => yields_grow (fun _ => yields_typeStep h) hfirst

theorem yields_simpleType (h : Subs source sub) : Yields source (Whole source) (simpleType sub) :=
  (yields_accept _ _).orElse (yields_namedType h)

theorem yields_dimensions (h : Subs source sub) :
    Yields source (Whole source) (dimensions sub) := by
  have hdimension : Yields source (All (Part source)) (do
      let marks ← annotations sub
      let opening ← symbol "["
      let closing ← symbol "]"
      return marks ++ [opening, closing]) :=
    (yields_annotations h).bind fun _ hmarks =>
    (yields_symbol _).bind fun _ hopening =>
    (yields_symbol _).bind fun _ hclosing =>
    .pure (by simp [*])
  exact yields_build <|
    hdimension.bind fun _ hfirst =>
    (yields_many hdimension).bind fun _ hrest =>
    .pure (by simp [*])

theorem yields_plainType (h : Subs source sub) : Yields source (Whole source) (plainType sub) :=
  (yields_simpleType h).bind fun element helement =>
  (yields_option (yields_dimensions h)).bind fun dims hdims => by
    split
    · exact .pure helement
    · exact .pure (whole_branch _ (by simp [*]))

theorem yields_type (h : Subs source sub) : Yields source (Whole source) (type sub) :=
  (yields_annotations h).bind fun _ hmarks =>
  (h .plainType).bind fun _ hbare =>
  .ite (fun _ => .pure hbare) fun _ => .pure (whole_branch _ (by simp [*]))

theorem yields_typeList (h : Subs source sub) : Yields source (Whole source) (typeList sub) :=
  yields_build (yields_commaList (h .type))

theorem yields_typeParameter (h : Subs source sub) :
    Yields source (Whole source) (typeParameter sub) :=
  yields_build <|
    (yields_annotations h).bind fun _ hmarks =>
    (yields_accept _ _).bind fun _ hcalled =>
    (yields_option <| yields_build <|
      (yields_word _).bind fun _ hword =>
      (yields_separated _ (h .type)).bind fun _ htypes =>
      .pure (by simp [*])).bind fun _ hbound =>
    .pure (by simp [*])

theorem yields_typeParameters (h : Subs source sub) :
    Yields source (Whole source) (typeParameters sub) :=
  yields_build <|
    (yields_symbol _).bind fun _ hopening =>
    (yields_commaList (yields_typeParameter h)).bind fun _ hparams =>
    (yields_symbol _).bind fun _ hclosing =>
    .pure (by simp [*])

theorem yields_modifierWord : Yields source (Whole source) modifierWord :=
  (looks_looksAt _).bind fun _ => .ite
    (fun _ => (looks_looksAtNth _ _).bind fun _ => (looks_guardThat _).bind fun _ => yields_word _)
    (fun _ => yields_accept _ _)

theorem yields_modifiers (h : Subs source sub) : Yields source (Whole source) (modifiers sub) := by
  have hone : Yields source (All (Part source)) (one (sub .annotationMark <|> modifierWord)) :=
    yields_one (((h .annotationMark).orElse yields_modifierWord).imp fun _ => Whole.part)
  exact yields_build <|
    hone.bind fun _ hfirst =>
    (yields_many hone).bind fun _ hrest =>
    .pure (by simp [*])

end Carve.Java.Grammar
