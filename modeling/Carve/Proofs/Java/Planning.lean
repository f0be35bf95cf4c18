import Carve.Proofs.Java.Extraction
import Carve.Proofs.Java.Tops

/-!
# What a plan takes from its file

A plan follows the names of declarations, but what it cuts out comes from the text of one file. What
is selected belongs to that file. A shell around it does not always: where an earlier file declares
a type of the same name, the index knows the type by that one.
-/

namespace Carve.Java

open QName

/-- The declaration stands in the file, which has text for each of its outlines. -/
def Inside (f : SourceFile) (d : Declaration) : Prop :=
  d.path? = some f.path ∧ ∀ o ∈ d.outlines, ∃ text, o.span.slice? f.text = some text

/-- The file declares something of that name, but the declaration is the one of an earlier file. -/
def Taken (front : List SourceFile) (f : SourceFile) (d : Declaration) : Prop :=
  (∃ e ∈ f.entries, e.decl.id = d.id) ∧ ∃ g ∈ front, ∃ e ∈ g.entries, e.decl = d

section

variable {sources : List SourceText} {root : Path} {catalog : Catalog} {f : SourceFile}

theorem readAll_topNames (hf : f ∈ Index.readAll sources) :
    ∀ t ∈ f.topLevel, TopName f.imports.package t := by
  obtain ⟨s, -, rfl⟩ := mem_readAll hf
  exact s.parsed.topNames

theorem inside_of_mem (hf : f ∈ Index.readAll sources) {D : Entry} (hD : D ∈ f.entries) :
    Inside f D.decl := by
  refine ⟨readAll_located hf D hD, fun o ho => ?_⟩
  have houtlined := (readAll_placed hf).outlined D.decl (List.mem_map_of_mem hD) o ho
  obtain ⟨piece, hpiece⟩ := houtlined.exists_slice
  exact ⟨String.ofList piece, Span.slice?_of_toList hpiece⟩

/-- No declaration stands both in a file and in an earlier one. -/
theorem Taken.not_inside {front rest : List SourceFile} {d : Declaration}
    (hpaths : (Index.readAll sources).Pairwise fun f g => ¬ f.path.Same g.path)
    (hsplit : Index.readAll sources = front ++ f :: rest) (h : Taken front f d) :
    ¬ Inside f d := by
  obtain ⟨-, g, hg, e, he, rfl⟩ := h
  rintro ⟨hpath, -⟩
  have hgfiles : g ∈ Index.readAll sources := hsplit ▸ List.mem_append_left _ hg
  have hsame := Option.some.inj ((readAll_located hgfiles e he).symm.trans hpath)
  rw [hsplit] at hpaths
  have hdiff := (List.pairwise_append.mp hpaths).2.2 g hg f List.mem_cons_self
  exact hdiff (hsame ▸ Path.Same.refl _)

def Covers (f : SourceFile) (id : QName) : Prop := ∃ t ∈ f.topLevel, id = t ∨ isWithin id t = true

theorem Covers.below {id owner : QName} (h : Covers f owner) (hbelow : Below owner id) :
    ∃ t ∈ f.topLevel, isWithin id t = true := by
  obtain ⟨t, ht, hwithin⟩ := h
  refine ⟨t, ht, ?_⟩
  rcases hwithin with rfl | hwithin
  · exact isWithin_of_below hbelow
  · exact isWithin_trans (isWithin_of_below hbelow) hwithin

/-- What a plan of the file comes to. -/
structure Reached (x : Index) (f : SourceFile) (d : Declaration) : Prop where
  known : d ∈ x.nodes.map (·.decl)
  covered : Covers f d.id

theorem reached_top {x : Index} {d : Declaration} (h : d ∈ f.topLevel.filterMap x.get?) :
    Reached x f d := by
  obtain ⟨t, ht, hd⟩ := List.mem_filterMap.mp h
  obtain ⟨hmem, hid⟩ := Index.get?_some hd
  exact ⟨hmem, t, ht, Or.inl hid⟩

theorem below_of_child {d c : Declaration}
    (hc : c ∈ (Index.ofSources root sources catalog).children d.id) : Below d.id c.id := by
  obtain ⟨hmem, hparent⟩ := Index.mem_children.mp hc
  rcases Index.mem_ofFiles hmem with ⟨g, hg, D, hD, rfl⟩ | ⟨-, -, hnone⟩
  · exact (readAll_consistent hg).named D hD _ hparent
  · rw [hparent] at hnone
    cases hnone

theorem Reached.child {d : Declaration} (h : Reached (Index.ofSources root sources catalog) f d) :
    ∀ c ∈ (Index.ofSources root sources catalog).children d.id,
      Reached (Index.ofSources root sources catalog) f c := by
  intro c hc
  obtain ⟨t, ht, hwithin⟩ := h.covered.below (below_of_child hc)
  exact ⟨(Index.mem_children.mp hc).1, t, ht, Or.inr hwithin⟩

theorem declares_parent (hf : f ∈ Index.readAll sources) {D : Entry} (hD : D ∈ f.entries)
    {owner : QName} (hbelow : Below owner D.decl.id) (hcovered : Covers f owner) :
    ∃ T ∈ f.entries, T.decl.id = owner := by
  cases hparent : D.decl.parent with
  | some p =>
    obtain rfl := hbelow.owner_eq ((readAll_consistent hf).named D hD p hparent)
    obtain ⟨T, hT, -, hid⟩ := (readAll_consistent hf).parents D hD _ hparent
    exact ⟨T, hT, hid⟩
  | none =>
    exfalso
    obtain ⟨t, ht, hwithin⟩ := hcovered.below hbelow
    have htop := (readAll_placed hf).top _ (List.mem_map_of_mem hD) hparent
    rw [(readAll_topNames hf t ht).not_isWithin (readAll_topNames hf _ htop)] at hwithin
    cases hwithin

/-- Whatever is selected is a declaration of the file, as the index knows it. -/
def Owned (x : Index) (f : SourceFile) (sel : Selection) : Prop :=
  ∀ e ∈ sel, ∃ D ∈ f.entries, x.get? e.1 = some D.decl

theorem Owned.declares {x : Index} {sel : Selection} (h : Owned x f sel) {id : QName}
    (hid : ∃ i, (id, i) ∈ sel) : ∃ D ∈ f.entries, D.decl.id = id := by
  obtain ⟨i, hi⟩ := hid
  obtain ⟨D, hD, hget⟩ := h _ hi
  exact ⟨D, hD, (Index.get?_some hget).2⟩

theorem Owned.mem {x : Index} {sel : Selection} (h : Owned x f sel) (hx : x.Distinct)
    {d : Declaration} (hd : d ∈ x.nodes.map (·.decl)) (hid : ∃ i, (d.id, i) ∈ sel) :
    ∃ D ∈ f.entries, D.decl = d := by
  obtain ⟨i, hi⟩ := hid
  obtain ⟨D, hD, hget⟩ := h _ hi
  exact ⟨D, hD, Option.some.inj (hget.symm.trans (Index.get?_of_mem hx hd))⟩

theorem declares_of_piece (hf : f ∈ Index.readAll sources) {sel : Selection}
    (hsel : Owned (Index.ofSources root sources catalog) f sel) {depth : Nat} {d : Declaration}
    {p : Piece} (hd : Reached (Index.ofSources root sources catalog) f d)
    (hp : Plan.pieceOf? (Index.ofSources root sources catalog) sel depth d = some p) :
    ∃ D ∈ f.entries, D.decl.id = d.id := by
  induction depth generalizing d p with
  | zero =>
    rcases Plan.pieceOf?_reason hp with hselected | ⟨-, q, hq⟩
    · exact hsel.declares hselected
    · cases Plan.pieceOf?_children hp hq
  | succ depth ih =>
    rcases Plan.pieceOf?_reason hp with hselected | ⟨-, q, hq⟩
    · exact hsel.declares hselected
    · obtain ⟨hchild, hqpiece⟩ := Plan.mem_piecesOf.mp (Plan.pieceOf?_children hp hq)
      obtain ⟨D, hD, hid⟩ := ih (hd.child _ hchild) hqpiece
      exact declares_parent hf hD (hid ▸ below_of_child hchild) hd.covered

/-- If a file declares the name of a declaration of the index, then that is its own or stands in an
earlier file. -/
theorem mem_or_taken {front rest : List SourceFile}
    (hsplit : Index.readAll sources = front ++ f :: rest) {d : Declaration}
    (hd : d ∈ (Index.ofSources root sources catalog).nodes.map (·.decl)) {D : Entry}
    (hD : D ∈ f.entries) (hid : D.decl.id = d.id) :
    (∃ e ∈ f.entries, e.decl = d) ∨ Taken front f d := by
  have hget := Index.get?_of_mem (Index.ofFiles_distinct _ _ _) hd
  rw [← hid, Index.ofFiles_get?, hsplit] at hget
  have hf : f ∈ front ++ f :: rest := by simp
  obtain ⟨first, hfirst⟩ := Table.exists_declaration? catalog hf hD
  rw [hfirst, Option.some_or] at hget
  obtain rfl := Option.some.inj hget
  obtain ⟨g, hg, e, he, heq⟩ := Table.declaration?_earlier hD hfirst
  rcases List.mem_append.mp hg with hg | hg
  · exact Or.inr ⟨⟨D, hD, hid⟩, g, hg, e, he, heq⟩
  · exact Or.inl ⟨e, List.mem_singleton.mp hg ▸ he, heq⟩

theorem owned_of_resolve {p : Policy} {name : String} {c : Closure}
    (hapart : (Index.readAll sources).Pairwise fun f g => ¬ f.path.Same g.path)
    (hc : Closure.resolve p (Index.ofSources root sources catalog) name = .ok c)
    {sels : List (Path × Selection)} (hsorted : Extraction.Sorted c.members sels)
    {s : Path × Selection} (hs : s ∈ sels) (hf : f ∈ Index.readAll sources) (hpath : s.1 = f.path) :
    Owned (Index.ofSources root sources catalog) f s.2 := by
  obtain ⟨-, hmembers⟩ := Closure.indexed_of_resolve (Index.ofFiles_distinct _ _ _) hc
  intro e he
  obtain ⟨m, hm, rfl, q, hq, hsame⟩ := hsorted.entries s hs e he
  obtain ⟨hget, -⟩ := hmembers m hm
  rcases Index.mem_ofFiles (Index.get?_some hget).1 with ⟨g, hg, D, hD, hdecl⟩ | ⟨-, hnone, -⟩
  · have hg' := readAll_located hg D hD
    rw [hdecl, hq] at hg'
    rw [hpath, Option.some.inj hg'] at hsame
    obtain rfl := Path.eq_of_apart hapart hf hg hsame
    exact ⟨D, hD, hdecl ▸ hget⟩
  · rw [Declaration.path?, hnone] at hq
    cases hq

end

/-- Of what a plan holds, at whatever depth, all stands in the file it is the plan of, unless an
earlier file declares the same name: then the plan has the declaration of that file in its place.
This happens to shells alone. -/
theorem plan_inside_unless_taken (top : Path) (sources : List SourceText) (catalog : Catalog)
    (p : Policy) (name : String) (c : Closure)
    (hpaths : sources.Pairwise fun s s' => ¬ s.path.Same s'.path)
    (hc : Closure.resolve p (Index.ofSources top sources catalog) name = .ok c) :
    ∃ sels, Extraction.selections c.members = .ok sels ∧ ∀ s ∈ sels, ∃ front f rest,
      Index.readAll sources = front ++ f :: rest ∧ s.1 = f.path ∧
      (Index.ofSources top sources catalog).unit? s.1 = some (Index.unitOf f) ∧
      ∀ piece, Plan.Stands
          (Plan.ofUnit (Index.ofSources top sources catalog) s.2 (Index.unitOf f)) piece →
        (Inside f piece.decl ↔ ¬ Taken front f piece.decl) ∧
        (Taken front f piece.decl → piece.mode = .shell) := by
  have hapart := readAll_apart hpaths
  obtain ⟨sels, g, hsels, hsorted, -, hfor⟩ :=
    workspace_written top catalog {} hapart (kin_of_resolve hc)
  refine ⟨sels, hsels, fun s hs => ?_⟩
  obtain ⟨f, hf, hpath, -⟩ := hfor s hs
  have howned := owned_of_resolve hapart hc hsorted hs hf hpath
  obtain ⟨front, rest, hsplit⟩ := List.append_of_mem hf
  refine ⟨front, f, rest, hsplit, hpath, hpath ▸ unit?_of_apart hapart hf, fun piece hpiece => ?_⟩
  obtain ⟨hreached, depth, hkept⟩ := hpiece.induction (fun _ => Reached.child)
    (List.Subset.refl _) (fun _ => reached_top)
  have hnot : Taken front f piece.decl → ¬ Inside f piece.decl :=
    Taken.not_inside hapart hsplit
  refine ⟨⟨fun hin htaken => hnot htaken hin, fun hfree => ?_⟩, fun htaken => ?_⟩
  · obtain ⟨D, hD, hid⟩ := declares_of_piece hf howned hreached hkept
    obtain ⟨e, he, heq⟩ := (mem_or_taken hsplit hreached.known hD hid).resolve_right hfree
    exact heq ▸ inside_of_mem hf he
  · rcases Plan.pieceOf?_reason hkept with hselected | ⟨hshell, -⟩
    · obtain ⟨D, hD, hdecl⟩ :=
        howned.mem (Index.ofFiles_distinct _ _ _) hreached.known hselected
      exact absurd (hdecl ▸ inside_of_mem hf hD) (hnot htaken)
    · exact hshell

def namesakes : List SourceText :=
  [{ path := ⟨"a/src/main/java/p/T.java"⟩
     text := "package p; /** Of module a. */ class T \x7b void m() \x7b \x7d \x7d"
     provenance := { module := "a" } },
   { path := ⟨"b/src/main/java/p/T.java"⟩
     text := "package p; class T \x7b void n() \x7b \x7d \x7d"
     provenance := { module := "b" } }]

/-- Of two types of one name, a method of the second one is written inside of the shell of the first
one. -/
theorem namesakes_share_a_shell :
    ∃ c sels, Closure.resolve {} (Index.ofSources ⟨"/"⟩ namesakes {}) "p.T.n" = .ok c ∧
      Extraction.selections c.members = .ok sels ∧ ∃ s ∈ sels, ∃ front f rest,
        Index.readAll namesakes = front ++ f :: rest ∧ s.1 = f.path ∧
        ∃ piece, Plan.Stands
            (Plan.ofUnit (Index.ofSources ⟨"/"⟩ namesakes {}) s.2 (Index.unitOf f)) piece ∧
          piece.mode = .shell ∧ Taken front f piece.decl ∧ ¬ Inside f piece.decl := by
  have hpaths : namesakes.Pairwise fun s s' => ¬ s.path.Same s'.path := by decide +kernel
  have hplans : (Closure.resolve {} (Index.ofSources ⟨"/"⟩ namesakes {}) "p.T.n").toOption.map
      (fun c => (Extraction.selections c.members).toOption.map (·.map fun s =>
        (s.1, ((Index.ofSources ⟨"/"⟩ namesakes {}).unit? s.1).map fun u =>
          (Plan.ofUnit (Index.ofSources ⟨"/"⟩ namesakes {}) s.2 u).map (·.decl.path?)))) =
      some (some [(⟨"b/src/main/java/p/T.java"⟩,
        some [some ⟨"a/src/main/java/p/T.java"⟩])]) := by decide +kernel
  obtain ⟨c, hsome, hplans⟩ := Option.map_eq_some_iff.mp hplans
  have hc := Extraction.eq_ok_of_toOption hsome
  obtain ⟨sels, hsels, hstands⟩ :=
    plan_inside_unless_taken ⟨"/"⟩ namesakes {} {} "p.T.n" c hpaths hc
  rw [hsels] at hplans
  obtain ⟨s, rfl, hs⟩ := List.map_eq_singleton_iff.mp (Option.some.inj hplans)
  obtain ⟨hpath, hplan⟩ := Prod.mk.inj hs
  obtain ⟨front, f, rest, hsplit, hfile, hunit, hpieces⟩ := hstands s (List.mem_singleton_self s)
  rw [hunit] at hplan
  obtain ⟨piece, hone, hpiece⟩ := List.map_eq_singleton_iff.mp (Option.some.inj hplan)
  obtain ⟨hinside, hshell⟩ := hpieces piece (hone ▸ .top (List.mem_singleton_self piece))
  have houtside : ¬ Inside f piece.decl := by
    rintro ⟨hin, -⟩
    rw [hpiece, ← hfile, hpath] at hin
    exact absurd hin (by decide)
  have htaken : Taken front f piece.decl := by
    by_contra hfree
    exact houtside (hinside.mpr hfree)
  exact ⟨c, [s], hc, hsels, s, List.mem_singleton_self s, front, f, rest, hsplit, hfile, piece,
    hone ▸ .top (List.mem_singleton_self piece), hshell htaken, htaken, houtside⟩

end Carve.Java
