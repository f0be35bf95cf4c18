import Carve.Extract
import Carve.Proofs.Index.Lookup
import Carve.Proofs.Java.Placing
import Carve.Proofs.Java.Writing
import Carve.Proofs.Plan
import Mathlib.Data.List.Pairwise

/-!
# What is kept in full survives

What a file keeps in full stands in the text that is written for it. The text of a declaration
that is kept is handed on from each type to the one around it: this one is copied as a whole or is
written with all its members, and what is not written as a member stands among the constants of an
enum or next to a field of the same declaration.
-/

namespace Carve.Java

open Text

/-- Files that have been read and do not stand in for each other. -/
structure Orderly (files : List SourceFile) : Prop where
  named : Index.NamedOnce files
  paths : files.Pairwise fun f g => ¬ f.path.Same g.path
  consistent : ∀ f ∈ files, Consistent f
  placed : ∀ f ∈ files, Placed f.text.toList f.path f.topLevel (f.entries.map (·.decl))
  fields : ∀ f ∈ files, ∀ e ∈ f.entries, e.decl.kind = .field → ∃ o, e.decl.outlines = [o]

section

variable {root : Path} {files : List SourceFile} {catalog : Catalog} {f g : SourceFile}
  {D T : Entry}

theorem Orderly.entry_eq (h : Orderly files) (hf : f ∈ files) (hg : g ∈ files)
    (hD : D ∈ f.entries) (hT : T ∈ g.entries) (hid : D.decl.id = T.decl.id) : D = T :=
  List.inj_on_of_nodup_map h.named (List.mem_flatMap.mpr ⟨f, hf, hD⟩)
    (List.mem_flatMap.mpr ⟨g, hg, hT⟩) hid

theorem Orderly.located (h : Orderly files) (hf : f ∈ files) (hD : D ∈ f.entries) :
    D.decl.path? = some f.path :=
  (h.placed f hf).located _ (List.mem_map_of_mem hD)

theorem Orderly.file_eq (h : Orderly files) (hf : f ∈ files) (hg : g ∈ files)
    (hpath : f.path.Same g.path) : f = g := Path.eq_of_apart h.paths hf hg hpath

theorem Orderly.file_eq_of_entry (h : Orderly files) (hf : f ∈ files) (hg : g ∈ files)
    (hDf : D ∈ f.entries) (hDg : D ∈ g.entries) : f = g := by
  apply h.file_eq hf hg
  rw [Option.some.inj ((h.located hf hDf).symm.trans (h.located hg hDg))]
  exact Path.Same.refl _

theorem Orderly.mem_children (h : Orderly files) (hf : f ∈ files) (hT : T ∈ f.entries)
    {d : Declaration} (hd : d ∈ (Index.ofFiles root files catalog).children T.decl.id) :
    (∃ D ∈ f.entries, D.decl = d) ∧ T.decl.kind.isType = true := by
  obtain ⟨hmem, hparent⟩ := Index.mem_children.mp hd
  rcases Index.mem_ofFiles hmem with ⟨g, hg, D, hD, rfl⟩ | ⟨-, -, hnone⟩
  · obtain ⟨P, hP, htype, hid⟩ := (h.consistent g hg).parents D hD _ hparent
    obtain rfl := h.entry_eq hg hf hP hT hid
    obtain rfl := h.file_eq_of_entry hf hg hT hP
    exact ⟨⟨D, hD, rfl⟩, htype⟩
  · rw [hparent] at hnone
    cases hnone

theorem Orderly.children_eq_nil (h : Orderly files) (hf : f ∈ files) (hD : D ∈ f.entries)
    (hmember : D.decl.kind.isType = false) :
    (Index.ofFiles root files catalog).children D.decl.id = [] := by
  rw [List.eq_nil_iff_forall_not_mem]
  intro d hd
  have htype := (h.mem_children hf hD hd).2
  rw [hmember] at htype
  cases htype

def height (x : Index) (id : QName) : Nat :=
  x.nodes.countP fun n => id.text.length < n.decl.id.text.length

theorem height_le (x : Index) (id : QName) : height x id ≤ x.nodes.length := List.countP_le_length

theorem height_lt_of_below {x : Index} {d : Declaration} (hd : d ∈ x.nodes.map (·.decl))
    {owner : QName} (hbelow : QName.Below owner d.id) : height x d.id < height x owner := by
  have hlt := length_of_below hbelow
  obtain ⟨n, hn, rfl⟩ := List.mem_map.mp hd
  refine countP_lt (fun m _ hm => ?_) hn ?_ ?_
  · have hm := of_decide_eq_true hm
    exact decide_eq_true (by omega)
  · simp
  · simpa using hlt

theorem Orderly.mem_nodes (root : Path) (catalog : Catalog) (h : Orderly files) (hf : f ∈ files)
    (hD : D ∈ f.entries) :
    D.decl ∈ (Index.ofFiles root files catalog).nodes.map (·.decl) :=
  (Index.get?_some (h.named.get? hf hD)).1

theorem Orderly.height_lt (root : Path) (catalog : Catalog) (h : Orderly files) (hf : f ∈ files)
    (hD : D ∈ f.entries) {p : QName} (hparent : D.decl.parent = some p) :
    height (Index.ofFiles root files catalog) D.decl.id <
      height (Index.ofFiles root files catalog) p :=
  height_lt_of_below (h.mem_nodes root catalog hf hD) ((h.consistent f hf).named D hD p hparent)

theorem Orderly.mem_pieces (h : Orderly files) (hf : f ∈ files) (hD : D ∈ f.entries)
    {owner : QName} (hparent : D.decl.parent = some owner) {sel : Selection} {depth : Nat}
    {p : Piece}
    (hp : Plan.pieceOf? (Index.ofFiles root files catalog) sel depth D.decl = some p) :
    p ∈ Plan.piecesOf (Index.ofFiles root files catalog) sel (depth + 1)
      ((Index.ofFiles root files catalog).children owner) := by
  rw [Plan.mem_piecesOf, Plan.pieceOf?_decl hp]
  exact ⟨Index.mem_children.mpr ⟨h.mem_nodes root catalog hf hD, hparent⟩, hp⟩

/-- A part of the text lies in the declaration, and wherever the declaration is looked for, there
is a piece for it that is written with this part. -/
structure Carried (x : Index) (sel : Selection) (source : List Char) (style : Placeholder)
    (span : Span) (piece : List Char) (d : Declaration) : Prop where
  within : ∃ o ∈ d.outlines, o.span.Encloses span
  written : ∀ depth, height x d.id ≤ depth → ∃ p, Plan.pieceOf? x sel depth d = some p ∧
    ∀ enclosing, Occurs (String.ofList piece) (emit source style enclosing p)

theorem sliceOf_eq {source : List Char} {span : Span} {piece : List Char}
    (h : slice? source span.start span.stop = some piece) :
    sliceOf source span = String.ofList piece := by
  unfold sliceOf
  rw [h]

variable {sel : Selection} {style : Placeholder} {span : Span} {piece : List Char}

theorem Orderly.carried_full (h : Orderly files) (hf : f ∈ files) (hD : D ∈ f.entries)
    (hfull : sel.lookup D.decl.id = some .full) {o : Outline} (ho : o ∈ D.decl.outlines)
    (hkept : ¬ (D.decl.kind = .field ∧ Settled o))
    (hpiece : slice? f.text.toList o.span.start o.span.stop = some piece) :
    Carried (Index.ofFiles root files catalog) sel f.text.toList style o.span piece D.decl where
  within := ⟨o, ho, Nat.le_refl _, Nat.le_refl _⟩
  written depth _ := by
    refine ⟨_, Plan.pieceOf?_full hfull, fun enclosing => ?_⟩
    obtain ⟨place, hplace, -⟩ := location_of_path (h.located hf hD)
    rw [← sliceOf_eq hpiece]
    by_cases hkind : D.decl.kind = .field
    · obtain ⟨own, hown⟩ := h.fields f hf D hD hkind
      obtain rfl : o = own := by simpa [hown] using ho
      obtain rfl := Declaration.own_eq_of_outlines hplace hown
      rw [emit_full_field hplace hkind fun hs => hkept ⟨hkind, hs⟩]
      exact Occurs.refl _
    · exact emit_full hplace hkind ho

theorem Orderly.own_encloses (h : Orderly files) (hf : f ∈ files) (hD : D ∈ f.entries)
    (hkind : D.decl.kind = .field) {place : Location} (hplace : D.decl.location = some place)
    {x : Index} (hc : Carried x sel f.text.toList style span piece D.decl) :
    place.layout.own.span.Encloses span := by
  obtain ⟨own, hown⟩ := h.fields f hf D hD hkind
  obtain ⟨o, ho, hspan⟩ := hc.within
  rw [hown, List.mem_singleton] at ho
  rw [Declaration.own_eq_of_outlines hplace hown, ← ho]
  exact hspan

/-- What a member carries is written with each piece that stands at its place: with its own piece,
or with that of another field of the same declaration. -/
theorem Orderly.occurs_at_place (h : Orderly files) (hf : f ∈ files) (hD : D ∈ f.entries)
    (hT : T ∈ f.entries) (hparent : D.decl.parent = some T.decl.id)
    (hpiece : slice? f.text.toList span.start span.stop = some piece)
    (hc : Carried (Index.ofFiles root files catalog) sel f.text.toList style span piece D.decl)
    {depth : Nat} (hdepth : height (Index.ofFiles root files catalog) D.decl.id ≤ depth)
    {q : Piece} (hq : q ∈ Plan.piecesOf (Index.ofFiles root files catalog) sel (depth + 1)
      ((Index.ofFiles root files catalog).children T.decl.id))
    (hspan : q.decl.outline?.map (·.span) = D.decl.outline?.map (·.span))
    (enclosing : Option Enclosing) :
    Occurs (String.ofList piece) (emit f.text.toList style enclosing q) := by
  have hplaced := h.placed f hf
  have hDmem : D.decl ∈ f.entries.map (·.decl) := List.mem_map_of_mem hD
  obtain ⟨hqmem, hqpiece⟩ := Plan.mem_piecesOf.mp hq
  obtain ⟨⟨Q, hQ, hQdecl⟩, -⟩ := h.mem_children hf hT hqmem
  rw [← hQdecl] at hqpiece hspan
  by_cases hsame : Q.decl = D.decl
  · obtain ⟨p, hp, hwritten⟩ := hc.written depth hdepth
    rw [hsame] at hqpiece
    exact Option.some.inj (hp.symm.trans hqpiece) ▸ hwritten enclosing
  · obtain ⟨place, hplace, -⟩ := location_of_path (h.located hf hD)
    obtain ⟨place', hplace', -⟩ := location_of_path (h.located hf hQ)
    have hown := Declaration.own_mem_outlines hplace
    have hown' := Declaration.own_mem_outlines hplace'
    have hplaces : place.layout.own.span = place'.layout.own.span := by
      simpa [Declaration.outline?, hplace, hplace'] using hspan.symm
    have hQparent : D.decl.parent = Q.decl.parent := by
      rw [hparent, hQdecl, (Index.mem_children.mp hqmem).2]
    obtain ⟨hkind, hQkind, hcount⟩ := hplaced.fields_of_span_eq hDmem (List.mem_map_of_mem hQ)
      (Ne.symm hsame) hQparent hown hown' hplaces
    have hmode : q.mode ≠ .shell := by
      rcases Plan.pieceOf?_childless (h.children_eq_nil hf hQ (by rw [hQkind]; rfl)) hqpiece
        with rfl | rfl
      · simp
      · simp
    have houtlined := hplaced.outlined _ hDmem _ hown
    have hslice := occurs_sliceOf houtlined.start houtlined.stop
      (h.own_encloses hf hD hkind hplace hc) hpiece
    rw [hplaces] at hslice
    exact hslice.trans (emit_shared (hQdecl ▸ hplace') (hQdecl ▸ hQkind) hcount hmode)

theorem Orderly.occurs_inside (h : Orderly files) (hf : f ∈ files) (hD : D ∈ f.entries)
    (hT : T ∈ f.entries) (htype : T.decl.kind.isType = true)
    (hparent : D.decl.parent = some T.decl.id) {t : Outline} (ht : t ∈ T.decl.outlines)
    (hpiece : slice? f.text.toList span.start span.stop = some piece)
    (hc : Carried (Index.ofFiles root files catalog) sel f.text.toList style span piece D.decl)
    {depth : Nat} (hdepth : height (Index.ofFiles root files catalog) D.decl.id ≤ depth)
    (e : Enclosing) :
    (∃ c, t.constants = some c ∧ c.Encloses span) ∨
      Occurs (String.ofList piece) (emitAll f.text.toList style e t.constants []
        (Plan.piecesOf (Index.ofFiles root files catalog) sel (depth + 1)
          ((Index.ofFiles root files catalog).children T.decl.id))) := by
  have hDmem : D.decl ∈ f.entries.map (·.decl) := List.mem_map_of_mem hD
  obtain ⟨place, hplace, -⟩ := location_of_path (h.located hf hD)
  have hown := Declaration.own_mem_outlines hplace
  obtain ⟨p, hp, -⟩ := hc.written depth hdepth
  have hspan : p.span? = some place.layout.own.span :=
    span?_of_location (by rw [Plan.pieceOf?_decl hp, hplace])
  rcases shown_cases hspan _ (h.mem_pieces hf hD hparent hp)
    with ⟨c, hconstants, hencloses⟩ | hw | ⟨q, hq, hqspan⟩
  · refine Or.inl ⟨c, hconstants, hencloses.trans (h.own_encloses hf hD ?_ hplace hc)⟩
    by_contra hkind
    have hafter := ((h.placed f hf).inside _ hDmem _ (List.mem_map_of_mem hT) htype hparent t ht _
      hown).2 c hconstants fun hfield => absurd hfield hkind
    have hlt := ((h.placed f hf).outlined _ hDmem _ hown).nonempty
    have hle := hencloses.2
    omega
  · exact absurd hw List.not_mem_nil
  · refine Or.inr (Occurs.trans ?_ (occurs_emitAll hq))
    refine h.occurs_at_place hf hD hT hparent hpiece hc hdepth (shown_subset _ _ hq) ?_ _
    rw [Declaration.outline?_of_location hplace]
    exact hqspan

theorem Orderly.carried_parent (h : Orderly files) (hf : f ∈ files) (hD : D ∈ f.entries)
    (hT : T ∈ f.entries) (htype : T.decl.kind.isType = true)
    (hparent : D.decl.parent = some T.decl.id)
    (hpiece : slice? f.text.toList span.start span.stop = some piece)
    (hc : Carried (Index.ofFiles root files catalog) sel f.text.toList style span piece D.decl) :
    Carried (Index.ofFiles root files catalog) sel f.text.toList style span piece T.decl := by
  have hplaced := h.placed f hf
  have hDmem : D.decl ∈ f.entries.map (·.decl) := List.mem_map_of_mem hD
  have hTmem : T.decl ∈ f.entries.map (·.decl) := List.mem_map_of_mem hT
  obtain ⟨t, ht⟩ := hplaced.single _ hTmem htype
  obtain ⟨o, ho, hspan⟩ := hc.within
  obtain ⟨⟨b, hb, hbody⟩, -⟩ := hplaced.inside _ hDmem _ hTmem htype hparent t (by simp [ht]) o ho
  have houtlined := hplaced.outlined _ hTmem t (by simp [ht])
  have hwithin : t.span.Encloses span := ((houtlined.body b hb).trans hbody).trans hspan
  refine ⟨⟨t, by simp [ht], hwithin⟩, fun depth hdepth => ?_⟩
  obtain ⟨place, hplace, -⟩ := location_of_path (h.located hf hT)
  obtain rfl := Declaration.own_eq_of_outlines hplace ht
  by_cases hfull : sel.lookup T.decl.id = some .full
  · refine ⟨_, Plan.pieceOf?_full hfull, fun enclosing => ?_⟩
    have hkind : T.decl.kind ≠ .field := by
      intro hk
      rw [hk] at htype
      cases htype
    exact (occurs_sliceOf houtlined.start houtlined.stop hwithin hpiece).trans
      (emit_full hplace hkind (by simp [ht]))
  · have hlt := h.height_lt root catalog hf hD hparent
    obtain ⟨depth, rfl⟩ : ∃ n, depth = n + 1 := ⟨depth - 1, by omega⟩
    obtain ⟨p, hp, -⟩ := hc.written depth (by omega)
    obtain ⟨mode, hmode, haround⟩ :=
      Plan.pieceOf?_around htype hfull (h.mem_pieces hf hD hparent hp)
    refine ⟨_, haround, fun enclosing => ?_⟩
    apply occurs_emit_around hplace hmode htype hb
    rcases h.occurs_inside (t := place.layout.own) hf hD hT htype hparent (by simp [ht]) hpiece hc
      (Nat.le_of_lt_succ (Nat.lt_of_lt_of_le hlt hdepth)) (enclosingOf T.decl.kind _)
      with ⟨c, hconstants, hencloses⟩ | hinside
    · obtain ⟨hstart, hstop, -⟩ := houtlined.constants c hconstants
      exact Or.inl ⟨c, hconstants, occurs_sliceOf hstart hstop hencloses hpiece⟩
    · exact Or.inr hinside

theorem Orderly.carried_top (h : Orderly files) (hf : f ∈ files)
    (hpiece : slice? f.text.toList span.start span.stop = some piece) :
    ∀ D ∈ f.entries,
      Carried (Index.ofFiles root files catalog) sel f.text.toList style span piece D.decl →
      ∃ T ∈ f.entries, T.decl.id ∈ f.topLevel ∧
        Carried (Index.ofFiles root files catalog) sel f.text.toList style span piece T.decl := by
  intro D
  induction hlen : D.decl.id.text.length using Nat.strongRecOn generalizing D with
  | ind n ih =>
    intro hD hc
    cases hparent : D.decl.parent with
    | none => exact ⟨D, hD, (h.placed f hf).top _ (List.mem_map_of_mem hD) hparent, hc⟩
    | some p =>
      obtain ⟨T, hT, htype, rfl⟩ := (h.consistent f hf).parents D hD p hparent
      have hlt := length_of_below ((h.consistent f hf).named D hD _ hparent)
      exact ih _ (hlen ▸ hlt) T rfl hT (h.carried_parent hf hD hT htype hparent hpiece hc)

/-- What some declaration of the file carries is written. -/
theorem Orderly.occurs_textOf (h : Orderly files) (hf : f ∈ files) (hD : D ∈ f.entries)
    (hpiece : slice? f.text.toList span.start span.stop = some piece)
    (hc : Carried (Index.ofFiles root files catalog) sel f.text.toList style span piece D.decl) :
    Occurs (String.ofList piece) (Extraction.textOf writer style (Index.unitOf f)
      (Plan.ofUnit (Index.ofFiles root files catalog) sel (Index.unitOf f))) := by
  obtain ⟨T, hT, htop, hcT⟩ := h.carried_top hf hpiece D hD hc
  obtain ⟨p, hp, hwritten⟩ := hcT.written _ (height_le _ _)
  have hmem : p ∈ Plan.ofUnit (Index.ofFiles root files catalog) sel (Index.unitOf f) := by
    unfold Plan.ofUnit
    rw [Plan.mem_piecesOf, Plan.pieceOf?_decl hp]
    exact ⟨List.mem_filterMap.mpr ⟨_, htop, h.named.get? hf hT⟩, hp⟩
  unfold Extraction.textOf
  split
  · unfold Occurs
    rw [String.toList_ofList]
    exact slice?_infix hpiece
  · have hpart : emit f.text.toList style none p ∈
        (Plan.ofUnit (Index.ofFiles root files catalog) sel (Index.unitOf f)).map
          (emit f.text.toList style none) := List.mem_map_of_mem hmem
    exact (((hwritten none).trans (occurs_joined hpart _)).append_left _).append_right _

end

end Carve.Java
