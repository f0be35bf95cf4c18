import Carve.Java.Grammar.Types
import Carve.Proofs.Java.Layout.Basic

/-!
# Places of annotations and types

Each production makes a node of the parts that it names, in the order in which it reads them.
-/

namespace Carve.Java.Grammar

open Parse

variable {code : List Token} {sub : Sub}

theorem spells_qualified : Spells code qualified := fun _ =>
  spells_name.bind fun _ _ hfirst => reads_grow (fun _ _ hscope => reads_build (by decide) <|
    (looks_looksAtNth _ _).reads fun _ => (looks_guardThat _).reads fun _ =>
    (spells_symbol _).bind fun _ _ hdot =>
    spells_name.bind fun _ _ hlast =>
    .pure ⟨hscope.append (hdot.append (hlast.as _)), by simp⟩) hfirst

theorem spells_elementPair (h : Spelt code sub) : Spells code (elementPair sub) :=
  spells_build (by decide) fun _ =>
    spells_name.bind fun _ _ hkey =>
    (spells_symbol _).bind fun _ _ heq =>
    (h .elementValue).bind fun _ _ hvalue =>
    .pure ⟨hkey.append (heq.append (hvalue.as _)), by simp⟩

theorem spells_elementArray (h : Spelt code sub) : Spells code (elementArray sub) :=
  spells_build (by decide) fun _ =>
    (spells_symbol _).bind fun _ _ hopening =>
    (spells_maybe (spells_commaList (h .elementValue)).all).bind fun _ _ hvalues =>
    (spells_option (spells_symbol _)).bind fun _ _ hcomma =>
    (spells_symbol _).bind fun _ _ hclosing =>
    .pure ⟨((hopening.append hvalues).append hcomma).append hclosing, by simp⟩

theorem spells_elementValue (h : Spelt code sub) : Spells code (elementValue sub) := fun _ =>
  (looks_looksAt _).reads fun _ => .ite (fun _ => spells_elementArray h _) fun _ =>
    (looks_looksAt _).reads fun _ => .ite (fun _ => h .annotationMark _) fun _ =>
      h .expression _

theorem spells_annotationArguments (h : Spelt code sub) :
    Spells code (annotationArguments sub) := by
  unfold annotationArguments
  refine spells_build (by decide) fun lo =>
    (spells_symbol _).bind fun _ _ hopening => (looks_looksAtNth _ _).reads fun pairs => ?_
  split
  · exact (spells_commaList (spells_elementPair h)).bind fun _ _ hvalues _ =>
      (spells_symbol _).bind fun _ _ hclosing =>
      .pure ⟨(hopening.append hvalues).append hclosing, by simp⟩
  · exact (spells_option (h .elementValue)).bind fun _ _ hvalues =>
      (spells_symbol _).bind fun _ _ hclosing =>
      .pure ⟨(hopening.append hvalues).append hclosing, by simp⟩

theorem spells_annotationMark (h : Spelt code sub) : Spells code (annotationMark sub) :=
  spells_build (by decide) fun _ =>
    (spells_symbol _).bind fun _ _ hmark =>
    spells_qualified.bind fun _ _ hcalled =>
    (spells_option (spells_annotationArguments h)).bind fun _ _ hargs =>
    .pure ⟨(hmark.append (hcalled.as _)).append hargs, by simp⟩

theorem spells_annotations (h : Spelt code sub) : SpellsAll code (annotations sub) :=
  spells_repeated (h .annotationMark)

theorem spells_wildcard (h : Spelt code sub) : Spells code (wildcard sub) := by
  have hbound : SpellsAll code (do
      let word ← word "extends" <|> accept .super (isWord "super")
      let type ← sub .type
      return [word, type]) := fun _ =>
    ((spells_word _).orElse spells_super).bind fun _ _ hword =>
    (h .type).bind fun _ _ htype =>
    .pure (hword.append htype)
  exact spells_build (by decide) fun _ =>
    (spells_annotations h).bind fun _ _ hmarks =>
    (spells_symbol _).bind fun _ _ hquestion =>
    (spells_maybe hbound).bind fun _ _ hbound =>
    .pure ⟨(hmarks.append hquestion).append hbound, by simp⟩

theorem spells_typeArguments (h : Spelt code sub) : Spells code (typeArguments sub) := fun _ =>
  reads_build_of <|
    (reads_symbol _).bind fun opening _ ⟨hopening, _, _, htells⟩ =>
    (spells_maybe (spells_commaList ((spells_wildcard h).orElse (h .type))).all).bind
      fun _ _ hargs =>
    (spells_symbol _).bind fun _ _ hclosing =>
    .pure ⟨(hopening.append hargs).append hclosing, by simp,
      opening, List.mem_cons_self, rfl, htells⟩

theorem reads_typeStep (h : Spelt code sub) {lo mid : Nat} {type : Node}
    (htype : Row code lo [type] mid) :
    Reads code mid (fun n => Row code lo [n]) (typeStep sub type) :=
  (looks_looksAt _).reads fun _ => .ite
    (fun _ => (looks_guardThat _).reads fun _ => reads_build (by decide) <|
      (spells_typeArguments h).bind fun _ _ hargs =>
      .pure ⟨htype.append hargs, by simp⟩)
    (fun _ => reads_build (by decide) <|
      (spells_symbol _).bind fun _ _ hdot =>
      (spells_annotations h).bind fun _ _ hmarks =>
      (spells_accept (by decide) _).bind fun _ _ hlast =>
      .pure ⟨((htype.append hdot).append hmarks).append hlast, by simp⟩)

theorem spells_namedType (h : Spelt code sub) : Spells code (namedType sub) := fun _ =>
  (spells_accept (by decide) _).bind fun _ _ hfirst =>
    reads_grow (fun _ _ => reads_typeStep h) hfirst

theorem spells_simpleType (h : Spelt code sub) : Spells code (simpleType sub) :=
  (spells_accept (by decide) _).orElse (spells_namedType h)

theorem spells_dimensions (h : Spelt code sub) : Spells code (dimensions sub) := by
  have hdimension : SpellsSome code (do
      let marks ← annotations sub
      let opening ← symbol "["
      let closing ← symbol "]"
      return marks ++ [opening, closing]) := fun _ =>
    (spells_annotations h).bind fun _ _ hmarks =>
    (spells_symbol _).bind fun _ _ hopening =>
    (spells_symbol _).bind fun _ _ hclosing =>
    .pure ⟨hmarks.append (hopening.append hclosing), by simp⟩
  exact spells_build (by decide) fun _ =>
    hdimension.bind fun _ _ hfirst hne =>
    (spells_many hdimension.all).bind fun _ _ hrest =>
    .pure ⟨hfirst.append hrest, by simp [hne]⟩

theorem spells_plainType (h : Spelt code sub) : Spells code (plainType sub) := fun _ =>
  (spells_simpleType h).bind fun element _ helement =>
  (spells_option (spells_dimensions h)).bind fun dims _ hdims => by
    split
    · have hsame := helement.append hdims
      exact .pure hsame
    · exact .pure (row_branch (by decide) ((helement.as _).append (hdims.mapAs _)) (by simp))

theorem spells_type (h : Spelt code sub) : Spells code (type sub) := fun _ =>
  (spells_annotations h).bind fun marks _ hmarks =>
  (h .plainType).bind fun _ _ hbare =>
  .ite (fun hnone => .pure (by simpa [List.isEmpty_iff.mp hnone] using hmarks.append hbare))
    fun _ => .pure (row_branch (by decide) (hmarks.append hbare) (by simp))

theorem spells_typeList (h : Spelt code sub) : Spells code (typeList sub) :=
  spells_build (by decide) (spells_commaList (h .type))

theorem spells_typeParameter (h : Spelt code sub) : Spells code (typeParameter sub) := by
  have hbound : Spells code (build .typeBound do
      let word ← word "extends"
      let types ← separated "&" (sub .type)
      return word :: types) :=
    spells_build (by decide) fun _ =>
      (spells_word _).bind fun _ _ hword =>
      (spells_separated _ (h .type)).bind fun _ _ htypes _ =>
      .pure ⟨hword.append htypes, by simp⟩
  exact spells_build (by decide) fun _ =>
    (spells_annotations h).bind fun _ _ hmarks =>
    (spells_accept (by decide) _).bind fun _ _ hcalled =>
    (spells_option hbound).bind fun _ _ hbound =>
    .pure ⟨(hmarks.append hcalled).append hbound, by simp⟩

theorem spells_typeParameters (h : Spelt code sub) : Spells code (typeParameters sub) :=
  spells_build (by decide) fun _ =>
    (spells_symbol _).bind fun _ _ hopening =>
    (spells_commaList (spells_typeParameter h)).bind fun _ _ hparams _ =>
    (spells_symbol _).bind fun _ _ hclosing =>
    .pure ⟨(hopening.append hparams).append hclosing, by simp⟩

theorem spells_modifierWord : Spells code modifierWord := fun _ =>
  (looks_looksAt _).reads fun _ => .ite
    (fun _ => (looks_looksAtNth _ _).reads fun _ => (looks_guardThat _).reads fun _ =>
      spells_word _ _)
    (fun _ => spells_accept (by decide) _ _)

theorem spells_modifiers (h : Spelt code sub) : Spells code (modifiers sub) := by
  have hone : SpellsSome code (one (sub .annotationMark <|> modifierWord)) :=
    spells_one ((h .annotationMark).orElse spells_modifierWord)
  exact spells_build (by decide) fun _ =>
    hone.bind fun _ _ hfirst hne =>
    (spells_many hone.all).bind fun _ _ hrest =>
    .pure ⟨hfirst.append hrest, by simp [hne]⟩

end Carve.Java.Grammar
