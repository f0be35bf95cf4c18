import Carve.Java.Emit
import Carve.Proofs.Text.Slices

/-!
# What stands in a written file

A piece that is kept in full is written as it stands in the source. A type around pieces is
written with its constants and all its pieces, but the constants are not written a second time and
neither are the further names of a field declaration, which stand where the first one does.
-/

namespace Carve

def Piece.span? (p : Piece) : Option Span := p.decl.outline?.map (·.span)

namespace Java

open Text

variable {source : List Char} {style : Placeholder} {enclosing : Option Enclosing}
  {d : Declaration} {place : Location} {children : List Piece} {piece : List Char}

/-- A field that is given a value when it is written: a static final one that lacks it. -/
def Settled (o : Outline) : Prop :=
  o.isBlankFinal = true ∧ o.hasModifier "static" = true ∧ o.declarators = 1

theorem occurs_sliceOf {outer inner : Span} (hstart : Cut source outer.start)
    (hstop : Cut source outer.stop) (h : outer.Encloses inner)
    (hpiece : slice? source inner.start inner.stop = some piece) :
    Occurs (String.ofList piece) (sliceOf source outer) := by
  have hinner : inner.start ≤ inner.stop := by
    obtain ⟨-, -, -, -, hlen⟩ := slice?_eq_some_iff.mp hpiece
    omega
  obtain ⟨whole, hwhole⟩ := slice?_of_cuts hstart hstop (Nat.le_trans h.1 (Nat.le_trans hinner h.2))
  unfold sliceOf
  rw [hwhole]
  unfold Occurs
  rw [String.toList_ofList, String.toList_ofList]
  exact slice?_infix_slice? hwhole hpiece h.1 h.2

theorem settleField_eq {o : Outline} (h : ¬ Settled o) (text : String) :
    settleField o text = text := by
  unfold settleField
  rw [if_neg]
  simpa [Settled, and_assoc] using h

theorem stubField_eq {o : Outline} (h : o.declarators ≠ 1) (parent : Option Declaration.Kind) :
    stubField source o parent = sliceOf source o.span := by
  unfold stubField
  split
  · rw [if_neg]
    simp [h]
  · rfl

theorem occurs_withOverloads {o : Outline} (hplace : d.location = some place)
    (ho : o ∈ d.outlines) (f : Outline → String) :
    Occurs (f o) (withOverloads source place.layout f) := by
  unfold withOverloads
  refine occurs_joined (List.mem_map_of_mem ?_) _
  simpa [Declaration.outlines, hplace] using ho

theorem emit_full (hplace : d.location = some place) (hkind : d.kind ≠ .field) {o : Outline}
    (ho : o ∈ d.outlines) :
    Occurs (sliceOf source o.span) (emit source style enclosing ⟨d, .full, children⟩) := by
  unfold emit
  simp only [hplace]
  rw [if_neg (by simp [hkind])]
  exact occurs_withOverloads hplace ho fun o => sliceOf source o.span

theorem emit_full_field (hplace : d.location = some place) (hkind : d.kind = .field)
    (h : ¬ Settled place.layout.own) :
    emit source style enclosing ⟨d, .full, children⟩ = sliceOf source place.layout.own.span := by
  unfold emit
  simp only [hplace]
  rw [if_pos (by simp [hkind]), settleField_eq h]

/-- A declaration of several fields is written as it stands, in full or as a stub. -/
theorem emit_shared {p : Piece} (hplace : p.decl.location = some place)
    (hkind : p.decl.kind = .field) (h : place.layout.own.declarators ≠ 1)
    (hmode : p.mode ≠ .shell) :
    Occurs (sliceOf source place.layout.own.span) (emit source style enclosing p) := by
  obtain ⟨d, mode, children⟩ := p
  dsimp only at hplace hkind hmode
  have hsettled : ¬ Settled place.layout.own := fun hs => h hs.2.2
  cases mode with
  | full => exact emit_full_field hplace hkind hsettled ▸ Occurs.refl _
  | shell => exact absurd rfl hmode
  | stub =>
    have hstub : stubMember source style .field enclosing place.layout.own =
        sliceOf source place.layout.own.span := by
      unfold stubMember
      rw [stubField_eq h, settleField_eq hsettled]
    unfold emit
    simp only [hplace, hkind]
    rw [← hstub]
    exact occurs_withOverloads hplace (by simp [Declaration.outlines, hplace]) _

/-- A type that is not kept whole is written around its constants and what is kept inside. -/
theorem emit_around (hplace : d.location = some place) {mode : Mode} (hmode : mode ≠ .full)
    (htype : d.kind.isType = true) {body : Span} (hbody : place.layout.own.body = some body) :
    emit source style enclosing ⟨d, mode, children⟩ =
      headerOf source place.layout.own body ++ " \x7b\n" ++
        constantsText source d.kind place.layout.own
          (indentAt source place.layout.own.span.start) ++
        emitAll source style (enclosingOf d.kind children) place.layout.own.constants [] children ++
        indentAt source place.layout.own.span.start ++ "\x7d" := by
  unfold emit
  cases mode with
  | full => exact absurd rfl hmode
  | stub => simp only [hplace, htype, hbody, Bool.not_true, Bool.and_false, Bool.false_eq_true,
      if_false]
  | shell => simp [hplace, hbody]

theorem occurs_constantsText {o : Outline} {constants : Span} (h : o.constants = some constants)
    (kind : Declaration.Kind) (indent : String) :
    Occurs (sliceOf source constants) (constantsText source kind o indent) := by
  unfold constantsText
  rw [h]
  exact ((Occurs.refl _).append_left _).append_right _

theorem occurs_emit_around (hplace : d.location = some place) {mode : Mode} (hmode : mode ≠ .full)
    (htype : d.kind.isType = true) {body : Span} (hbody : place.layout.own.body = some body)
    {s : String} (h : (∃ c, place.layout.own.constants = some c ∧ Occurs s (sliceOf source c)) ∨
      Occurs s (emitAll source style (enclosingOf d.kind children) place.layout.own.constants []
        children)) :
    Occurs s (emit source style enclosing ⟨d, mode, children⟩) := by
  rw [emit_around hplace hmode htype hbody]
  refine Occurs.append_right (Occurs.append_right ?_ _) _
  rcases h with ⟨c, hconstants, hocc⟩ | hocc
  · exact ((hocc.trans (occurs_constantsText hconstants _ _)).append_left _).append_right _
  · exact hocc.append_left _

/-- The pieces that are written: those with a place, but no second one at a place and none among
the constants. -/
def shown (constants : Option Span) : List Span → List Piece → List Piece
  | _, [] => []
  | written, p :: ps =>
    match p.span? with
    | none => shown constants written ps
    | some s =>
      if constants.any (fun c => decide (c.Encloses s)) || written.contains s then
        shown constants written ps
      else p :: shown constants (written ++ [s]) ps

def lineOf (source : List Char) (style : Placeholder) (e : Enclosing) (p : Piece) : String :=
  "\n" ++ indentAt source ((p.span?.map (·.start)).getD 0) ++ emit source style (some e) p ++ "\n"

section

variable {e : Enclosing} {constants : Option Span} {p q : Piece} {s : Span}

theorem span?_of_location (h : p.decl.location = some place) :
    p.span? = some place.layout.own.span := by
  simp [Piece.span?, Declaration.outline?, h]

theorem span?_eq_none (h : p.decl.location = none) : p.span? = none := by
  simp [Piece.span?, Declaration.outline?, h]

theorem emitAll_eq_shown (ps : List Piece) : ∀ written : List Span,
    emitAll source style e constants written ps =
      ((shown constants written ps).map (lineOf source style e)).foldr (· ++ ·) "" := by
  induction ps with
  | nil =>
    intro written
    unfold emitAll shown
    rfl
  | cons p ps ih =>
    intro written
    unfold emitAll shown
    cases hplace : p.decl.location with
    | none =>
      rw [span?_eq_none hplace]
      exact ih written
    | some place =>
      rw [span?_of_location hplace]
      dsimp only
      split
      · exact ih written
      · rw [List.map_cons, List.foldr_cons, ← ih, lineOf, span?_of_location hplace]
        rfl

theorem shown_subset (ps : List Piece) : ∀ written : List Span,
    shown constants written ps ⊆ ps := by
  induction ps with
  | nil => exact fun _ _ h => h
  | cons p ps ih =>
    intro written q hq
    unfold shown at hq
    split at hq
    · exact List.mem_cons_of_mem _ (ih written hq)
    · split at hq
      · exact List.mem_cons_of_mem _ (ih written hq)
      · rcases List.mem_cons.mp hq with rfl | hq
        · exact List.mem_cons_self
        · exact List.mem_cons_of_mem _ (ih _ hq)

/-- Every piece with a place is written, or the first one of the same place is, unless the place is
among the constants or was written before. -/
theorem shown_cases (hspan : p.span? = some s) (ps : List Piece) : ∀ {written : List Span},
    p ∈ ps → (∃ c, constants = some c ∧ c.Encloses s) ∨ s ∈ written ∨
      ∃ q ∈ shown constants written ps, q.span? = some s := by
  induction ps with
  | nil => exact fun hp => absurd hp List.not_mem_nil
  | cons r ps ih =>
    intro written hp
    unfold shown
    split
    · rename_i hnone
      rcases List.mem_cons.mp hp with rfl | hp
      · rw [hnone] at hspan
        cases hspan
      · exact ih hp
    · rename_i t hr
      split
      · rename_i hpassed
        rcases List.mem_cons.mp hp with rfl | hp
        · obtain rfl := Option.some.inj (hspan.symm.trans hr)
          rcases Bool.or_eq_true_iff.mp hpassed with hc | hw
          · obtain ⟨c, hc, hencloses⟩ := (Option.any_eq_true _ _).mp hc
            exact .inl ⟨c, hc, of_decide_eq_true hencloses⟩
          · exact .inr (.inl (List.contains_iff_mem.mp hw))
        · exact ih hp
      · by_cases hsame : t = s
        · exact .inr (.inr ⟨r, List.mem_cons_self, hsame ▸ hr⟩)
        · rcases List.mem_cons.mp hp with rfl | hp
          · exact absurd (Option.some.inj (hr.symm.trans hspan)) hsame
          · rcases ih hp with hc | hw | ⟨q, hq, hqspan⟩
            · exact .inl hc
            · rcases List.mem_append.mp hw with hw | hw
              · exact .inr (.inl hw)
              · exact absurd (List.mem_singleton.mp hw).symm hsame
            · exact .inr (.inr ⟨q, List.mem_cons_of_mem _ hq, hqspan⟩)

theorem occurs_emitAll {written : List Span} {ps : List Piece}
    (hq : q ∈ shown constants written ps) :
    Occurs (emit source style (some e) q) (emitAll source style e constants written ps) := by
  rw [emitAll_eq_shown]
  generalize shown constants written ps = rs at hq
  induction rs with
  | nil => exact absurd hq List.not_mem_nil
  | cons r rs ih =>
    rw [List.map_cons, List.foldr_cons]
    rcases List.mem_cons.mp hq with rfl | hq
    · exact (((Occurs.refl _).append_left _).append_right _).append_right _
    · exact (ih hq).append_left _

end

end Java

end Carve
