import Carve.Proofs.Java.BlankFinals

/-!
# The geometry of declarations

The outlines of a file nest as its text does. The parts of an outline lie inside it, the outlines
of members lie in the body of their type, and no two outlines of one type overlap: they are apart,
or they are the one place of a field declaration that introduces several names. So texts that are
cut out of a file by their outlines never cut each other in two.
-/

namespace Carve

/-- The other one lies in this span, and does not end before it starts. -/
def Span.Contains (s t : Span) : Prop := s.Encloses t ∧ t.start ≤ t.stop

theorem Span.Contains.trans {a b c : Span} (h : a.Contains b) (k : b.Contains c) : a.Contains c :=
  ⟨h.1.trans k.1, k.2⟩

namespace Java

variable {source : List Char} {t : Tree source} {n d c : Node} {name : String} {o : Outline}

/-! ### The parts of an outline -/

theorem Laid.contains_child (h : Laid (.ofText source) n) (hc : c ∈ n.children) :
    n.span.Contains c.span :=
  ⟨(Stands.children h).bounds c hc, Nat.le_of_lt (h.children c hc).nonempty⟩

theorem Laid.contains_body (h : Laid (.ofText source) n) {b : Span}
    (hb : (n.child? .body).map (·.span) = some b) : n.span.Contains b := by
  obtain ⟨m, hm, rfl⟩ := Option.map_eq_some_iff.mp hb
  exact h.contains_child (Reader.child?_mem hm)

theorem Laid.contains_ctorCall (h : Laid (.ofText source) n) {call : Span}
    (hcall : Reader.ctorCall? n = some call) : n.span.Contains call := by
  unfold Reader.ctorCall? at hcall
  split at hcall
  · rename_i first hfirst
    split at hcall
    · obtain rfl := Option.some.inj hcall
      exact h.contains_child (List.mem_filter.mp (List.mem_of_head? hfirst)).1
    · cases hcall
  · cases hcall

theorem Laid.contains_constants (h : Laid (.ofText source) n) {constants : Span}
    (hconstants : Reader.constantSpan? n = some constants) : n.span.Contains constants := by
  obtain ⟨-, -, hle, -⟩ := Reader.constantSpan?_places h hconstants
  refine ⟨?_, hle⟩
  unfold Reader.constantSpan? at hconstants
  split at hconstants
  · dsimp only at hconstants
    split at hconstants
    · rename_i first last hfirst hlast
      obtain rfl := Option.some.inj hconstants
      have hstart := h.contains_child (List.mem_filter.mp (List.mem_of_head? hfirst)).1
      have hstop := h.contains_child (List.mem_filter.mp (List.mem_of_getLast? hlast)).1
      exact ⟨hstart.1.1, hstop.1.2⟩
    · cases hconstants
  · cases hconstants

theorem Laid.declarator_order (h : Laid (.ofText source) d) (hk : d.kind = .variableDeclarator)
    {former latter : Role} (hnot : ¬ [latter, former].Sublist [.name, .dimensions, .value])
    (hne : former ≠ latter) {a b : Node} (ha : d.child? former = some a)
    (hb : d.child? latter = some b) : a.span.stop ≤ b.span.start := by
  have hformer := List.find?_some ha
  have hlatter := List.find?_some hb
  exact (Stands.children h).in_order (h.declaratorParts hk) (Reader.child?_mem ha)
    (Reader.child?_mem hb) (beq_iff_eq.mp hformer) (beq_iff_eq.mp hlatter) hne hnot

theorem Laid.declarator_places (h : Laid (.ofText source) d) (hk : d.kind = .variableDeclarator)
    (hname : d.child? .name = some c) {v : Node} (hvalue : d.child? .value = some v) :
    c.span.stop ≤ ((d.child? .dimensions).getD c).span.stop ∧
      ((d.child? .dimensions).getD c).span.stop ≤ v.span.start := by
  cases hdimensions : d.child? .dimensions with
  | none => exact ⟨Nat.le_refl _, h.declarator_order hk (by decide) (by decide) hname hvalue⟩
  | some m =>
    have hbehind := h.declarator_order hk (by decide) (by decide) hname hdimensions
    have hlt := (h.children m (Reader.child?_mem hdimensions)).nonempty
    exact ⟨show c.span.stop ≤ m.span.stop by omega,
      h.declarator_order hk (by decide) (by decide) hdimensions hvalue⟩

/-- The outline of a field tells a value only if the field is declared alone, and the value then
begins behind the name. -/
theorem DeclaredBy.initializer (h : DeclaredBy t name o n d c) {v : Span}
    (hv : o.initializer = some v) :
    n.childrenIn .declarator = [d] ∧ c.span.stop ≤ v.start ∧ o.span.Contains v := by
  have hd := h.declarator
  rw [h.span_eq]
  rw [h.outline] at hv
  unfold Node.fieldOutline at hv
  dsimp only at hv
  split at hv
  · rename_i value hcount hvalue
    obtain rfl := Option.some.inj hv
    obtain ⟨d', halone⟩ := List.length_eq_one_iff.mp hcount
    rw [halone] at hd
    obtain rfl := List.mem_singleton.mp hd
    have hmem := (List.mem_filter.mp h.declarator).1
    have hlaid := h.tree.laid.children d hmem
    have hk := (h.tree.tidy.declarator h.declarator).2
    obtain ⟨hname, hbehind⟩ := hlaid.declarator_places hk h.named hvalue
    have hin := h.tree.laid.contains_child hmem
    have hfirst := hin.trans (hlaid.contains_child (Reader.child?_mem h.named))
    have hlast := hin.trans (hlaid.contains_child (Reader.child?_mem hvalue))
    refine ⟨halone, hname, ⟨?_, hlast.1.2⟩, Nat.le_trans hbehind hlast.2⟩
    exact Nat.le_trans hfirst.1.1 (Nat.le_trans hfirst.2 hname)
  · cases hv

/-- The parts of the outline of a declaration of this name lie where they belong. -/
structure Shapely {source : List Char} (t : Tree source) (name : String) (o : Outline) :
    Prop where
  nonempty : o.span.start < o.span.stop
  body : ∀ b, o.body = some b → o.span.Contains b
  ctorCall : ∀ call, o.ctorCall = some call →
    o.span.Contains call ∧ ∃ b, o.body = some b ∧ b.Contains call
  constants : ∀ s, o.constants = some s →
    o.span.Contains s ∧ ∃ b, o.body = some b ∧ b.Contains s
  /-- The field is the only one of its declaration, and its value follows its name. -/
  initializer : ∀ v, o.initializer = some v → o.span.Contains v ∧
    ∃ n d c, DeclaredBy t name o n d c ∧ n.childrenIn .declarator = [d] ∧
      c.span.stop ≤ v.start

theorem Laid.contains_inner (h : Laid (.ofText source) n) {inner? : Node → Option Span} {s : Span}
    (hinner : ∀ {m : Node}, Laid (.ofText source) m → ∀ {s : Span}, inner? m = some s →
      m.span.Contains s) (hs : (n.child? .body).bind inner? = some s) :
    n.span.Contains s ∧ ∃ b, (n.child? .body).map (·.span) = some b ∧ b.Contains s := by
  obtain ⟨m, hm, hs⟩ := Option.bind_eq_some_iff.mp hs
  have hmem := Reader.child?_mem hm
  have hcontains := hinner (h.children m hmem) hs
  exact ⟨(h.contains_child hmem).trans hcontains, m.span, by rw [hm]; rfl, hcontains⟩

theorem shapely_callableOutline (h : Laid (.ofText source) n) :
    Shapely t name (n.callableOutline source) where
  nonempty := h.nonempty
  body _ hb := h.contains_body hb
  ctorCall _ hcall := h.contains_inner Laid.contains_ctorCall hcall
  constants _ hs := by cases hs
  initializer _ hv := by cases hv

theorem shapely_typeOutline (h : Laid (.ofText source) n) :
    Shapely t name (n.typeOutline source) where
  nonempty := h.nonempty
  body _ hb := h.contains_body hb
  ctorCall _ hcall := by cases hcall
  constants _ hs := h.contains_inner Laid.contains_constants hs
  initializer _ hv := by cases hv

theorem shapely_constantOutline (h : Laid (.ofText source) n) (owner : QName) :
    Shapely t name (n.constantOutline owner) where
  nonempty := h.nonempty
  body _ hb := by cases hb
  ctorCall _ hcall := by cases hcall
  constants _ hs := by cases hs
  initializer _ hv := by cases hv

theorem DeclaredBy.shapely (h : DeclaredBy t name o n d c) : Shapely t name o where
  nonempty := h.span_eq ▸ h.tree.laid.nonempty
  body b hb := by
    rw [h.outline] at hb
    cases hb
  ctorCall call hcall := by
    rw [h.outline] at hcall
    cases hcall
  constants s hs := by
    rw [h.outline] at hs
    cases hs
  initializer v hv := by
    obtain ⟨halone, hbehind, hcontains⟩ := h.initializer hv
    exact ⟨hcontains, n, d, c, h, halone, hbehind⟩

/-- Whatever is read from a node of the tree has its parts where they belong. -/
theorem Gives.shapely {kind : Declaration.Kind} (h : Gives source n kind name o)
    (htree : InTree t n) : Shapely t name o := by
  cases h with
  | type => exact shapely_typeOutline htree.laid
  | method => exact shapely_callableOutline htree.laid
  | ctor => exact shapely_callableOutline htree.laid
  | field hk hd hname =>
    exact DeclaredBy.shapely ⟨htree, hk, hd, hname, rfl, rfl⟩
  | constant => exact shapely_constantOutline htree.laid _

/-! ### The outlines of one type -/

/-- All outlines of the members of a type, overloads included, or of the types at the top. -/
def outlinesUnder (parent : Option QName) (ds : List Declaration) : List (Declaration × Outline) :=
  (ds.filter (·.parent == parent)).flatMap fun d => d.outlines.map fun o => (d, o)

/-- The declaration has this outline as one of the names of this field declaration. -/
def IsNameIn {source : List Char} (t : Tree source) (n : Node) (x : Declaration × Outline) :
    Prop :=
  x.1.kind = .field ∧ ∃ d c, DeclaredBy t x.1.name x.2 n d c

/-- Both are among several names of one field declaration. -/
def Together {source : List Char} (t : Tree source) (x y : Declaration × Outline) : Prop :=
  ∃ n, 1 < (n.childrenIn .declarator).length ∧ IsNameIn t n x ∧ IsNameIn t n y

/-- Names of one field declaration share its place, and everything else is apart. -/
structure Parted {source : List Char} (t : Tree source) (x y : Declaration × Outline) :
    Prop where
  together : Together t x y → x.2.span = y.2.span
  apart : ¬ Together t x y → x.2.span.Apart y.2.span

/-- The declarations nest as their texts do. -/
structure WellNested {source : List Char} (t : Tree source) (ds : List Declaration) : Prop where
  located : ∀ d ∈ ds, ∃ place, d.location = some place
  flat : ∀ d ∈ ds, d.Flat
  shapely : ∀ d ∈ ds, ∀ o ∈ d.outlines, Shapely t d.name o
  parents : ∀ d ∈ ds, ∀ p, d.parent = some p → ∃ T ∈ ds, T.id = p
  inside : ∀ d ∈ ds, ∀ T ∈ ds, d.parent = some T.id → ∃ t b, T.outlines = [t] ∧
    t.body = some b ∧ ∀ o ∈ d.outlines, b.Contains o.span
  parted : ∀ parent, (outlinesUnder parent ds).Pairwise (Parted t)

theorem IsNameIn.of_gives {x : Declaration × Outline} (hkind : x.1.kind = .field)
    (hcount : x.2.declarators ≠ 1) (htree : InTree t n)
    (h : Gives source n x.1.kind x.1.name x.2) :
    IsNameIn t n x ∧ 1 < (n.childrenIn .declarator).length := by
  rcases h.of_field htree hkind with ⟨d, c, h⟩ | ⟨hone, -⟩
  · refine ⟨⟨hkind, d, c, h⟩, ?_⟩
    have hpos := List.length_pos_of_mem h.declarator
    rw [h.declarators] at hcount
    omega
  · exact absurd hone hcount

theorem Beside.parted {x y : Declaration × Outline} (h : Beside x.1.kind x.2 y.1.kind y.2)
    {m : Node} (hn : InTree t n) (hx : Gives source n x.1.kind x.1.name x.2)
    (hm : InTree t m) (hy : Gives source m y.1.kind y.1.name y.2) : Parted t x y := by
  constructor
  · rintro ⟨_, -, ⟨-, _, _, hx⟩, ⟨-, _, _, hy⟩⟩
    exact hx.span_eq.trans hy.span_eq.symm
  · intro hnot
    rcases h with hapart | ⟨hkind, hkind', hspan, hcount, hcount'⟩
    · exact hapart
    · obtain ⟨⟨-, d, c, hd⟩, hseveral⟩ := IsNameIn.of_gives hkind hcount hn hx
      obtain ⟨⟨-, d', c', hd'⟩, -⟩ := IsNameIn.of_gives hkind' hcount' hm hy
      obtain rfl : n = m := Option.some.inj (hd.node.symm.trans (hspan ▸ hd'.node))
      exact absurd ⟨n, hseveral, ⟨hkind, d, c, hd⟩, ⟨hkind', d', c', hd'⟩⟩ hnot

section

variable {path : Path} {tops : List QName} {ds : List Declaration}

theorem mem_outlinesUnder {parent : Option QName} {x : Declaration × Outline} :
    x ∈ outlinesUnder parent ds ↔ x.1 ∈ ds ∧ x.1.parent = parent ∧ x.2 ∈ x.1.outlines := by
  simp only [outlinesUnder, List.mem_flatMap, List.mem_filter, beq_iff_eq, List.mem_map]
  constructor
  · rintro ⟨d, ⟨hd, hparent⟩, o, ho, rfl⟩
    exact ⟨hd, hparent, ho⟩
  · rintro ⟨hd, hparent, ho⟩
    exact ⟨x.1, ⟨hd, hparent⟩, x.2, ho, rfl⟩

theorem Placed.pairwise_beside (h : Placed source path tops ds) :
    ds.Pairwise fun d e => d.parent = e.parent →
      ∀ o ∈ d.outlines, ∀ o' ∈ e.outlines, Beside d.kind o e.kind o' := by
  refine List.pairwise_iff_getElem.mpr fun i j hi hj hij => ?_
  exact h.beside i j _ _ (List.getElem?_eq_getElem hi) (List.getElem?_eq_getElem hj)
    (Nat.ne_of_lt hij)

/-- The outlines of one declaration are beside each other, and so are those of two. -/
theorem Placed.outlinesUnder_beside (h : Placed source path tops ds) (parent : Option QName) :
    (outlinesUnder parent ds).Pairwise fun x y => Beside x.1.kind x.2 y.1.kind y.2 := by
  refine List.pairwise_flatMap.mpr ⟨fun d hd => ?_, ?_⟩
  · exact List.pairwise_map.mpr (h.within d (List.mem_filter.mp hd).1)
  · refine (h.pairwise_beside.filter _).imp_of_mem fun hd he hbeside x hx y hy => ?_
    obtain ⟨o, ho, rfl⟩ := List.mem_map.mp hx
    obtain ⟨o', ho', rfl⟩ := List.mem_map.mp hy
    have hdparent := beq_iff_eq.mp (List.mem_filter.mp hd).2
    have heparent := beq_iff_eq.mp (List.mem_filter.mp he).2
    exact hbeside (hdparent.trans heparent.symm) o ho o' ho'

theorem Placed.parted (h : Placed source path tops ds)
    (hs : ∀ d ∈ ds, Sprung source (InTree t) d) (parent : Option QName) :
    (outlinesUnder parent ds).Pairwise (Parted t) := by
  refine (h.outlinesUnder_beside parent).imp_of_mem fun {x y} hx hy hbeside => ?_
  obtain ⟨hd, -, ho⟩ := mem_outlinesUnder.mp hx
  obtain ⟨he, -, ho'⟩ := mem_outlinesUnder.mp hy
  obtain ⟨n, hn, hgives⟩ := (hs x.1 hd).named x.2 ho
  obtain ⟨m, hm, hgives'⟩ := (hs y.1 he).named y.2 ho'
  exact hbeside.parted hn hgives hm hgives'

theorem Placed.inside_body (h : Placed source path tops ds) {d T : Declaration} (hd : d ∈ ds)
    (hT : T ∈ ds) (htype : T.kind.isType = true) (hparent : d.parent = some T.id) :
    ∃ t b, T.outlines = [t] ∧ t.body = some b ∧ ∀ o ∈ d.outlines, b.Contains o.span := by
  obtain ⟨t, ht⟩ := h.single T hT htype
  have hinside := h.inside d hd T hT htype hparent t (ht ▸ List.mem_singleton_self t)
  obtain ⟨place, hplace, -⟩ := location_of_path (h.located d hd)
  obtain ⟨⟨b, hb, -⟩, -⟩ := hinside _ (Declaration.own_mem_outlines hplace)
  refine ⟨t, b, ht, hb, fun o ho => ?_⟩
  obtain ⟨⟨b', hb', hencloses⟩, -⟩ := hinside o ho
  obtain rfl := Option.some.inj (hb.symm.trans hb')
  exact ⟨hencloses, Nat.le_of_lt (h.outlined d hd o ho).nonempty⟩

end

/-- The nodes in the tree of a text nest, and so do the declarations that are read from them. -/
theorem SourceTree.wellNested (s : SourceTree) :
    WellNested s.tree (s.read.entries.map (·.decl)) := by
  have hplaced := s.placed
  have hconsistent := s.consistent
  have hsprung : ∀ d ∈ s.read.entries.map (·.decl), Sprung s.text.toList (InTree s.tree) d := by
    intro d hd
    obtain ⟨e, he, rfl⟩ := List.mem_map.mp hd
    exact s.sprung e he
  constructor
  case located =>
    intro d hd
    obtain ⟨place, hplace, -⟩ := location_of_path (hplaced.located d hd)
    exact ⟨place, hplace⟩
  case flat => exact hplaced.flat
  case shapely =>
    intro d hd o ho
    obtain ⟨n, hn, hgives⟩ := (hsprung d hd).named o ho
    exact hgives.shapely hn
  case parents =>
    intro d hd p hp
    obtain ⟨D, hD, rfl⟩ := List.mem_map.mp hd
    obtain ⟨T, hT, -, hid⟩ := hconsistent.parents D hD p hp
    exact ⟨T.decl, List.mem_map_of_mem hT, hid⟩
  case inside =>
    intro d hd t ht hparent
    obtain ⟨D, hD, rfl⟩ := List.mem_map.mp hd
    obtain ⟨T, hT, rfl⟩ := List.mem_map.mp ht
    have htype := hconsistent.isType_of_parent s.distinct hT hD
      hparent
    exact hplaced.inside_body hd ht htype hparent
  case parted => exact hplaced.parted hsprung

/-- The declarations of any file nest, by the tree that the grammar makes of its text. -/
theorem readSource_wellNested (text : String) (path : Path) (provenance : Provenance) :
    WellNested (.ofText text.toList) ((readSource text path provenance).entries.map (·.decl)) :=
  SourceTree.wellNested ⟨⟨path, text, provenance⟩, .ofText text.toList⟩

example : ((readSource "class T \x7b int a, b; int c = 1; \x7d" ⟨"T.java"⟩
    { module := "m" }).entries.map fun e => e.decl.outlines.map (·.span)) =
    [[⟨0, 32⟩], [⟨10, 19⟩], [⟨10, 19⟩], [⟨20, 30⟩]] := by decide +kernel

end Java

end Carve
