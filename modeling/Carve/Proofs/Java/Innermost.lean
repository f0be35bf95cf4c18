import Carve.Proofs.Java.Enclosure
import Carve.Proofs.Java.Members
import Carve.Proofs.Java.Origins

/-!
# The innermost declaration at a place

Asked for a place of a file, an index answers with the declaration of the shortest own text around
it. A type is longer than whatever it encloses, so no declaration enclosed in the answer has the
place in its own text. The texts of further overloads are not looked at: where a place is in one
of those, the answer is the type around it.
-/

namespace Carve

/-- The place is in the span or right behind it. -/
def Span.Touches (s : Span) (i : Nat) : Prop := s.start ≤ i ∧ i ≤ s.stop

instance (s : Span) (i : Nat) : Decidable (s.Touches i) := inferInstanceAs (Decidable (_ ∧ _))

theorem Span.Encloses.touches {outer inner : Span} (h : outer.Encloses inner) {i : Nat}
    (hi : inner.Touches i) : outer.Touches i :=
  ⟨Nat.le_trans h.1 hi.1, Nat.le_trans hi.2 h.2⟩

def Declaration.size (d : Declaration) : Nat := (d.outline?.map (·.span.length)).getD 0

theorem Declaration.size_of_location {d : Declaration} {place : Location}
    (h : d.location = some place) : d.size = place.layout.own.span.length := by
  simp [size, outline?_of_location h]

namespace Index

theorem smaller_of_outlines {b d : Declaration} (hb : b.outline?.isSome) (hd : d.outline?.isSome) :
    smaller (some b) d = if d.size < b.size then some d else some b := by
  obtain ⟨o, ho⟩ := Option.isSome_iff_exists.mp hb
  obtain ⟨p, hp⟩ := Option.isSome_iff_exists.mp hd
  simp [smaller, Declaration.size, ho, hp]

theorem foldl_smaller_from {b : Declaration} {ds : List Declaration} (hb : b.outline?.isSome)
    (hds : ∀ d ∈ ds, d.outline?.isSome) :
    ∃ m, ds.foldl smaller (some b) = some m ∧ (m = b ∨ m ∈ ds) ∧ m.size ≤ b.size ∧
      ∀ d ∈ ds, m.size ≤ d.size := by
  induction ds generalizing b with
  | nil => exact ⟨b, rfl, .inl rfl, Nat.le_refl _, by simp⟩
  | cons d ds ih =>
    have hd := hds d List.mem_cons_self
    have hrest : ∀ e ∈ ds, e.outline?.isSome := fun e he => hds e (List.mem_cons_of_mem _ he)
    rw [List.foldl_cons, smaller_of_outlines hb hd]
    split
    · rename_i hlt
      obtain ⟨m, hm, hmem, hle, hall⟩ := ih hd hrest
      refine ⟨m, hm, .inr ?_, by omega, ?_⟩
      · exact List.mem_cons.mpr hmem
      · simpa using ⟨hle, hall⟩
    · rename_i hge
      obtain ⟨m, hm, hmem, hle, hall⟩ := ih hb hrest
      refine ⟨m, hm, hmem.imp_right (List.mem_cons_of_mem d), hle, ?_⟩
      have hfirst : m.size ≤ d.size := by omega
      simpa using ⟨hfirst, hall⟩

theorem foldl_smaller {ds : List Declaration} (hne : ds ≠ [])
    (hds : ∀ d ∈ ds, d.outline?.isSome) :
    ∃ m ∈ ds, ds.foldl smaller none = some m ∧ ∀ d ∈ ds, m.size ≤ d.size := by
  cases ds with
  | nil => exact absurd rfl hne
  | cons d ds =>
    obtain ⟨m, hm, hmem, hle, hall⟩ := foldl_smaller_from (hds d List.mem_cons_self)
      fun e he => hds e (List.mem_cons_of_mem _ he)
    refine ⟨m, List.mem_cons.mpr hmem, hm, ?_⟩
    simpa using ⟨hle, hall⟩

/-- The declaration has this place in the range of its own text. -/
def AtSite (line col : Nat) (d : Declaration) : Prop :=
  ∃ place, d.location = some place ∧ place.range.Contains line col

/-- Of all declarations around a place the smallest is the answer. -/
theorem resolveSite_smallest {x : Index} {p key : Path} {u : SourceUnit} {line col : Nat}
    (hfile : x.file? p = some (key, u)) (hsome : ∃ d ∈ x.declarationsIn key, AtSite line col d) :
    ∃ d ∈ x.declarationsIn key, AtSite line col d ∧ x.resolveSite p line col = .ok d ∧
      ∀ e ∈ x.declarationsIn key, AtSite line col e → d.size ≤ e.size := by
  unfold resolveSite
  rw [hfile]
  dsimp only
  generalize hinside : (x.declarationsIn key).filter _ = inside
  have hmem : ∀ d, d ∈ inside ↔ d ∈ x.declarationsIn key ∧ AtSite line col d := by
    intro d
    unfold AtSite
    rw [← hinside, List.mem_filter]
    cases d.location <;> simp
  have houtlined : ∀ d ∈ inside, d.outline?.isSome := by
    intro d hd
    obtain ⟨place, hplace, -⟩ := ((hmem d).mp hd).2
    simp [Declaration.outline?_of_location hplace]
  obtain ⟨d, hd, hat⟩ := hsome
  obtain ⟨m, hm, hfold, hleast⟩ :=
    foldl_smaller (List.ne_nil_of_mem ((hmem d).mpr ⟨hd, hat⟩)) houtlined
  obtain ⟨hknown, hsite⟩ := (hmem m).mp hm
  refine ⟨m, hknown, hsite, ?_, fun e he hesite => hleast e ((hmem e).mpr ⟨he, hesite⟩)⟩
  rw [hfold]

section

variable {root : Path} {sources : List SourceText} {catalog : Catalog} {f : SourceFile}

theorem file?_of_readAll (hpaths : sources.Pairwise fun s s' => ¬ s.path.Same s'.path)
    (hf : f ∈ readAll sources) :
    (ofSources root sources catalog).file? f.path = some (f.path, unitOf f) := by
  unfold file? ofSources
  rw [ofFiles_find?_file root catalog (Java.readAll_apart hpaths) (fun _ => Java.readAll_located)
    hf]

theorem mem_declarationsIn (hpaths : sources.Pairwise fun s s' => ¬ s.path.Same s'.path)
    (hnames : (readAll sources).Pairwise fun f g =>
      ∀ d ∈ f.entries, ∀ e ∈ g.entries, d.decl.id ≠ e.decl.id)
    (hf : f ∈ readAll sources) {d : Declaration} :
    d ∈ (ofSources root sources catalog).declarationsIn f.path ↔
      ∃ e ∈ f.entries, e.decl = d := by
  constructor
  · intro hd
    obtain ⟨hmem, hpath⟩ := List.mem_filter.mp hd
    rcases mem_ofFiles hmem with ⟨g, hg, e, he, rfl⟩ | ⟨-, hnone, -⟩
    · rw [Java.readAll_located hg e he] at hpath
      have hsame : g.path.Same f.path := by simpa using hpath
      obtain rfl := Path.eq_of_apart (Java.readAll_apart hpaths) hg hf hsame
      exact ⟨e, he, rfl⟩
    · simp [Declaration.path?, hnone] at hpath
  · rintro ⟨e, he, rfl⟩
    have hget : (ofSources root sources catalog).get? e.decl.id = some e.decl :=
      (Java.readAll_namedOnce hnames).get? hf he
    refine List.mem_filter.mpr ⟨(get?_some hget).1, ?_⟩
    rw [Java.readAll_located hf e he]
    simp [Path.Same.refl]

end

end Index

namespace Java

open Text

theorem body_shorter {source : List Char} {n c b : Node} (h : Laid (.ofText source) n)
    (hname : n.child? .name = some c) (hbody : n.child? .body = some b) :
    n.span.Encloses b.span ∧ b.span.length < n.span.length := by
  have hne : b ≠ c := by
    rintro rfl
    have hrole := List.find?_some hname
    have hrole' := List.find?_some hbody
    simp only [beq_iff_eq] at hrole hrole'
    rw [hrole] at hrole'
    cases hrole'
  exact h.shorter (Reader.child?_mem hbody) (Reader.child?_mem hname) hne

section

variable {sources : List SourceText} {f : SourceFile} {T D : Entry}

theorem readAll_sprung (hf : f ∈ Index.readAll sources) :
    ∀ e ∈ f.entries, Sprung f.text.toList (InTree (.ofText f.text.toList)) e.decl := by
  obtain ⟨s, -, rfl⟩ := mem_readAll hf
  exact s.parsed.sprung

theorem readAll_distinct (hf : f ∈ Index.readAll sources) :
    (f.entries.map (·.decl.id)).Nodup := by
  obtain ⟨s, -, rfl⟩ := mem_readAll hf
  exact s.parsed.distinct

theorem Consistent.isType_of_parent (h : Consistent f) (hnames : (f.entries.map (·.decl.id)).Nodup)
    (hT : T ∈ f.entries) (hD : D ∈ f.entries) (hparent : D.decl.parent = some T.decl.id) :
    T.decl.kind.isType = true := by
  obtain ⟨T', hT', htype, hid⟩ := h.parents D hD _ hparent
  obtain rfl := List.inj_on_of_nodup_map hnames hT' hT hid
  exact htype

theorem isType_of_parent (hf : f ∈ Index.readAll sources) (hT : T ∈ f.entries)
    (hD : D ∈ f.entries) (hparent : D.decl.parent = some T.decl.id) :
    T.decl.kind.isType = true :=
  (readAll_consistent hf).isType_of_parent (readAll_distinct hf) hT hD hparent

theorem exists_location (hf : f ∈ Index.readAll sources) (hD : D ∈ f.entries) :
    ∃ place, D.decl.location = some place := by
  obtain ⟨place, hplace, -⟩ := Option.map_eq_some_iff.mp (readAll_located hf D hD)
  exact ⟨place, hplace⟩

/-- A type is longer than each of its members. -/
theorem shorter_of_parent (hf : f ∈ Index.readAll sources) (hT : T ∈ f.entries)
    (hD : D ∈ f.entries) (hparent : D.decl.parent = some T.decl.id) {place : Location}
    (hplace : T.decl.location = some place) {o : Outline} (ho : o ∈ D.decl.outlines) :
    place.layout.own.span.Encloses o.span ∧ o.span.length < place.layout.own.span.length := by
  have htype := isType_of_parent hf hT hD hparent
  obtain ⟨⟨b, hb, hinside⟩, -⟩ := (readAll_placed hf).inside D.decl (List.mem_map_of_mem hD) T.decl
    (List.mem_map_of_mem hT) htype hparent _ (Declaration.own_mem_outlines hplace) o ho
  obtain ⟨n, hn, hgives, -⟩ := (readAll_sprung hf T hT).own place hplace
  obtain ⟨⟨c, hname⟩, houtline⟩ := hgives.of_isType htype
  rw [houtline] at hb ⊢
  obtain ⟨m, hm, rfl⟩ := Option.map_eq_some_iff.mp hb
  obtain ⟨hwithin, hlt⟩ := body_shorter hn.laid hname hm
  refine ⟨hwithin.trans hinside, Nat.lt_of_le_of_lt ?_ hlt⟩
  obtain ⟨hstart, hstop⟩ := hinside
  unfold Span.length
  omega

theorem Encloses.shorter (hf : f ∈ Index.readAll sources) (hT : T ∈ f.entries) {place : Location}
    (hplace : T.decl.location = some place) (h : Encloses f T D) :
    ∀ o ∈ D.decl.outlines,
      place.layout.own.span.Encloses o.span ∧ o.span.length < place.layout.own.span.length := by
  induction h with
  | member hD hparent => exact fun o ho => shorter_of_parent hf hT hD hparent hplace ho
  | @nested M D hM _ hD hparent ih =>
    intro o ho
    obtain ⟨place', hplace'⟩ := exists_location hf hM.mem
    obtain ⟨hwithin, hlt⟩ := ih _ (Declaration.own_mem_outlines hplace')
    obtain ⟨hwithin', hlt'⟩ := shorter_of_parent hf hM.mem hD hparent hplace' ho
    exact ⟨hwithin.trans hwithin', Nat.lt_trans hlt' hlt⟩

/-- By lines and columns a declaration has the same places as by bytes. -/
theorem atSite_iff (hf : f ∈ Index.readAll sources) (hD : D ∈ f.entries) {place : Location}
    (hplace : D.decl.location = some place) {line col i : Nat}
    (hat : StandsAt f.text.toList line col i) :
    Index.AtSite line col D.decl ↔ place.layout.own.span.Touches i := by
  obtain ⟨n, hn, hgives, hrange⟩ := (readAll_sprung hf D hD).own place hplace
  have hlaid := hn.laid
  rw [hgives.span_eq]
  refine Iff.trans ⟨?_, fun h => ⟨place, hplace, h⟩⟩
    (hrange ▸ hat.contains_iff hlaid.starts hlaid.stops)
  rintro ⟨place', hplace', h⟩
  obtain rfl := Option.some.inj (hplace.symm.trans hplace')
  exact h

/-- An outline of a declaration is its own, or it is that of an overload in its parent. -/
theorem own_or_overload (hf : f ∈ Index.readAll sources) (hD : D ∈ f.entries) {place : Location}
    (hplace : D.decl.location = some place) {o : Outline} (ho : o ∈ D.decl.outlines) :
    o = place.layout.own ∨ o ∈ D.decl.outlines.tail ∧
      ∃ T ∈ f.entries, D.decl.parent = some T.decl.id := by
  have hmem := List.mem_map_of_mem (f := fun e : Entry => e.decl) hD
  by_cases htype : D.decl.kind.isType = true
  · obtain ⟨o', hsingle⟩ := (readAll_placed hf).single D.decl hmem htype
    rw [hsingle] at ho
    rw [List.mem_singleton.mp ho]
    exact .inl (Declaration.own_eq_of_outlines hplace hsingle).symm
  · have houtlines : D.decl.outlines =
        place.layout.own :: place.layout.overloads.map (·.own) := by
      simp [Declaration.outlines, hplace]
    rw [houtlines] at ho ⊢
    rcases List.mem_cons.mp ho with hown | hmore
    · exact .inl hown
    · have hparent := (readAll_consistent hf).members D hD (by simpa using htype)
      obtain ⟨p, hp⟩ := Option.ne_none_iff_exists'.mp hparent
      obtain ⟨T, hT, -, rfl⟩ := (readAll_consistent hf).parents D hD p hp
      exact .inr ⟨hmore, T, hT, hp⟩

theorem exists_atSite (hf : f ∈ Index.readAll sources) (hD : D ∈ f.entries) {line col i : Nat}
    (hat : StandsAt f.text.toList line col i) {o : Outline} (ho : o ∈ D.decl.outlines)
    (hi : o.span.Touches i) : ∃ E ∈ f.entries, Index.AtSite line col E.decl := by
  obtain ⟨place, hplace⟩ := exists_location hf hD
  rcases own_or_overload hf hD hplace ho with rfl | ⟨-, T, hT, hparent⟩
  · exact ⟨D, hD, (atSite_iff hf hD hplace hat).mpr hi⟩
  · obtain ⟨place', hplace'⟩ := exists_location hf hT
    refine ⟨T, hT, (atSite_iff hf hT hplace' hat).mpr ?_⟩
    exact (shorter_of_parent hf hT hD hparent hplace' ho).1.touches hi

/-- A place in the text of a declaration resolves to one that has it in its own text and encloses
none that has. It is in no text at all of what the answer encloses, unless it is in that of a
further overload of one of the answer's members. -/
theorem resolveSite_innermost (root : Path) (catalog : Catalog)
    (hpaths : sources.Pairwise fun s s' => ¬ s.path.Same s'.path)
    (hnames : (Index.readAll sources).Pairwise fun f g =>
      ∀ d ∈ f.entries, ∀ e ∈ g.entries, d.decl.id ≠ e.decl.id)
    (hf : f ∈ Index.readAll sources) {line col i : Nat}
    (hat : StandsAt f.text.toList line col i)
    (hinside : ∃ E ∈ f.entries, ∃ o ∈ E.decl.outlines, o.span.start < i ∧ i < o.span.stop) :
    ∃ D ∈ f.entries,
      (Index.ofSources root sources catalog).resolveSite f.path line col = .ok D.decl ∧
      (∃ o, D.decl.outline? = some o ∧ o.span.Touches i) ∧
      (∀ E, Encloses f D E → ∀ o, E.decl.outline? = some o → ¬ o.span.Touches i) ∧
      ((∀ E, Encloses f D E → ∀ o ∈ E.decl.outlines, ¬ o.span.Touches i) ↔
        ∀ M ∈ f.entries, M.decl.parent = some D.decl.id →
          ∀ o ∈ M.decl.outlines.tail, ¬ o.span.Touches i) := by
  have hmem : ∀ {d : Declaration},
      d ∈ (Index.ofSources root sources catalog).declarationsIn f.path ↔
        ∃ e ∈ f.entries, e.decl = d := Index.mem_declarationsIn hpaths hnames hf
  have hfile : (Index.ofSources root sources catalog).file? f.path =
      some (f.path, Index.unitOf f) := Index.file?_of_readAll hpaths hf
  obtain ⟨E, hE, o, ho, hstart, hstop⟩ := hinside
  obtain ⟨F, hF, hFsite⟩ := exists_atSite hf hE hat ho ⟨Nat.le_of_lt hstart, Nat.le_of_lt hstop⟩
  obtain ⟨d, hd, hsite, hresolve, hleast⟩ :=
    Index.resolveSite_smallest hfile ⟨F.decl, hmem.mpr ⟨F, hF, rfl⟩, hFsite⟩
  obtain ⟨D, hD, rfl⟩ := hmem.mp hd
  obtain ⟨place, hplace⟩ := exists_location hf hD
  have hown := (atSite_iff hf hD hplace hat).mp hsite
  have hclear : ∀ E, Encloses f D E → ∀ o, E.decl.outline? = some o → ¬ o.span.Touches i := by
    intro E hE o ho hi
    obtain ⟨place', hplace', rfl⟩ := Option.map_eq_some_iff.mp ho
    have hle := hleast E.decl (hmem.mpr ⟨E, hE.mem, rfl⟩)
      ((atSite_iff hf hE.mem hplace' hat).mpr hi)
    obtain ⟨-, hlt⟩ := hE.shorter hf hD hplace _ (Declaration.own_mem_outlines hplace')
    rw [Declaration.size_of_location hplace, Declaration.size_of_location hplace'] at hle
    omega
  refine ⟨D, hD, hresolve, ⟨_, Declaration.outline?_of_location hplace, hown⟩, hclear, ?_, ?_⟩
  · intro h M hM hparent o ho
    exact h M (.member hM hparent) o (List.mem_of_mem_tail ho)
  · intro h E hE o ho hi
    obtain ⟨place', hplace'⟩ := exists_location hf hE.mem
    have hown' := Declaration.outline?_of_location hplace'
    rcases own_or_overload hf hE.mem hplace' ho with rfl | ⟨hmore, T, hT, hparent⟩
    · exact hclear E hE _ hown' hi
    · cases hE with
      | member hE hparent' => exact h E hE hparent' o hmore hi
      | @nested M E hM _ hE hparent' =>
        obtain ⟨placeM, hplaceM⟩ := exists_location hf hM.mem
        refine hclear M hM placeM.layout.own (Declaration.outline?_of_location hplaceM) ?_
        exact (shorter_of_parent hf hM.mem hE hparent' hplaceM ho).1.touches hi

end

def overloaded : SourceText :=
  { path := ⟨"src/p/T.java"⟩
    text := "package p; class T \x7b\n  void m() \x7b \x7d\n  void m(int i) \x7b \x7d \x7d"
    provenance := { module := "m" } }

/-- A place in an overload resolves to the type. -/
theorem overload_resolves_to_type :
    ∃ D ∈ overloaded.read.entries, D.decl.id = ⟨"p.T"⟩ ∧
      (Index.ofSources ⟨"/"⟩ [overloaded] {}).resolveSite overloaded.path 2 8 = .ok D.decl ∧
      ∃ E, Encloses overloaded.read D E ∧ ∃ o ∈ E.decl.outlines, o.span.Touches 44 := by
  have hat : StandsAt overloaded.read.text.toList 2 8 44 :=
    ⟨"package p; class T \x7b\n  void m() \x7b \x7d\n".toList,
      "  void m(int i) \x7b \x7d \x7d".toList, [], by decide +kernel⟩
  have hnames : (Index.readAll [overloaded]).Pairwise fun f g =>
      ∀ d ∈ f.entries, ∀ e ∈ g.entries, d.decl.id ≠ e.decl.id := List.pairwise_singleton _ _
  have hinside : ∃ E ∈ overloaded.read.entries, ∃ o ∈ E.decl.outlines,
      o.span.start < 44 ∧ 44 < o.span.stop := by decide +kernel
  have hf : overloaded.read ∈ Index.readAll [overloaded] := List.mem_cons_self
  obtain ⟨D, hD, hresolve, -, -, hiff⟩ := resolveSite_innermost ⟨"/"⟩ {}
    (List.pairwise_singleton _ overloaded) hnames hf hat hinside
  have hid : ((Index.ofSources ⟨"/"⟩ [overloaded] {}).resolveSite overloaded.path 2 8).toOption.map
      (·.id) = some ⟨"p.T"⟩ := by decide +kernel
  have hD' : D.decl.id = ⟨"p.T"⟩ := by
    rw [show overloaded.path = overloaded.read.path from rfl, hresolve] at hid
    exact Option.some.inj hid
  have hmore : ∃ M ∈ overloaded.read.entries, M.decl.parent = some ⟨"p.T"⟩ ∧
      ∃ o ∈ M.decl.outlines.tail, o.span.Touches 44 := by decide +kernel
  refine ⟨D, hD, hD', hresolve, by_contra fun hnone => ?_⟩
  obtain ⟨M, hM, hparent, o, ho, hi⟩ := hmore
  exact hiff.mp (fun E hE o ho hi => hnone ⟨E, hE, o, ho, hi⟩) M hM (hD' ▸ hparent) o ho hi

end Java

end Carve
