import Carve.Proofs.Closure.Diagnostics
import Carve.Proofs.Closure.Rounds
import Carve.Proofs.Extract
import Carve.Proofs.Java.Survival

/-!
# Extracting full text

An extraction of a closure succeeds, and what the closure keeps in full stands in the file of the
workspace that takes the place of its own. This needs packages that are written as names between
dots: where a comment stands in the name of a package, the directories it asks for begin again at
the root, and files of different packages can take the same place.
-/

namespace Carve.Java

open Text

/-- Where a file goes, from its package and its name. -/
def addressOf (f : SourceFile) : List Path.Component :=
  ((f.imports.package.map (parts '.')).getD []).map .name ++ f.path.fileName?.toList.map .name

/-- Files that do not get in each other's way, neither in the project nor in a workspace. -/
structure Separable (files : List SourceFile) : Prop where
  paths : files.Pairwise fun f g => ¬ f.path.Same g.path
  places : files.Pairwise fun f g =>
    (f.imports.package, f.path.fileName?) ≠ (g.imports.package, g.path.fileName?)
  packages : ∀ f ∈ files, ∀ p, f.imports.package = some p → ∀ s ∈ parts '.' p, Path.IsName s
  names : files.Pairwise fun f g => ∀ d ∈ f.entries, ∀ e ∈ g.entries, d.decl.id ≠ e.decl.id
  fields : ∀ f ∈ files, ∀ e ∈ f.entries, e.decl.kind = .field → ∃ o, e.decl.outlines = [o]

section

variable {f g : SourceFile}

theorem components_relativePath {name : String} (hname : f.path.fileName? = some name)
    (hpackage : ∀ p, f.imports.package = some p → ∀ s ∈ parts '.' p, Path.IsName s) :
    (relativePath (Index.unitOf f)).components = addressOf f := by
  have hfile := (Path.isName_fileName hname).components
  have hjoin : ∀ dir : Path, (dir.join ⟨name⟩).components = dir.components ++ [.name name] := by
    intro dir
    rw [Path.components_join dir (q := ⟨name⟩) (n := name) (by simp [hfile]), hfile]
  unfold relativePath addressOf Index.unitOf
  simp only [hname]
  rw [hjoin]
  cases hp : f.imports.package with
  | none => rfl
  | some p =>
    dsimp only
    rw [Path.components_foldl_join _ (hpackage p hp)]
    rfl

/-- The part behind a comment begins with a slash and takes the place of what stands before it. -/
example : relativePath { path := ⟨"X.java"⟩, package := some "a./*x*/b", text := "" } =
    ⟨"/*x*/b/X.java"⟩ := by decide

theorem addressOf_injective (hf : f.path.fileName?.isSome) (hg : g.path.fileName?.isSome)
    (h : addressOf f = addressOf g) :
    (f.imports.package, f.path.fileName?) = (g.imports.package, g.path.fileName?) := by
  obtain ⟨n, hn⟩ := Option.isSome_iff_exists.mp hf
  obtain ⟨n', hn'⟩ := Option.isSome_iff_exists.mp hg
  unfold addressOf at h
  rw [hn, hn'] at h ⊢
  obtain ⟨hparts, hnames⟩ := List.append_inj' h rfl
  have hname : n = n' := by simpa using hnames
  have hparts : (f.imports.package.map (parts '.')).getD [] =
      (g.imports.package.map (parts '.')).getD [] :=
    List.map_inj_right (fun _ _ h => Path.Component.name.inj h) |>.mp hparts
  have hne : ∀ p : String, parts '.' p ≠ [] := by
    intro p h
    exact split_ne_nil _ _ (List.map_eq_nil_iff.mp h)
  rw [hname]
  congr 1
  cases hp : f.imports.package with
  | none =>
    cases hq : g.imports.package with
    | none => rfl
    | some q =>
      rw [hp, hq] at hparts
      exact absurd hparts.symm (hne q)
  | some p =>
    cases hq : g.imports.package with
    | none =>
      rw [hp, hq] at hparts
      exact absurd hparts (hne p)
    | some q =>
      rw [hp, hq] at hparts
      rw [parts_injective '.' hparts]

theorem addressOf_cons (hf : f.path.fileName?.isSome) :
    ∃ s rest, addressOf f = .name s :: rest := by
  obtain ⟨n, hn⟩ := Option.isSome_iff_exists.mp hf
  unfold addressOf
  rw [hn]
  cases (f.imports.package.map (parts '.')).getD [] with
  | nil => exact ⟨n, [], rfl⟩
  | cons s rest => exact ⟨s, rest.map .name ++ [.name n], rfl⟩

end

theorem fileName?_of_accepts {p : Path} (h : Index.accepts p = true) : p.fileName?.isSome := by
  unfold Index.accepts Path.hasExtension at h
  split at h
  · rename_i ext hext
    obtain ⟨name, hname, -⟩ := Option.bind_eq_some_iff.mp hext
    rw [hname]
    rfl
  · cases h

section

variable {sources : List SourceText} {f g : SourceFile}

theorem Separable.orderly (h : Separable (Index.readAll sources)) :
    Orderly (Index.readAll sources) where
  named := readAll_namedOnce h.names
  paths := h.paths
  consistent _ hf := readAll_consistent hf
  placed _ hf := readAll_placed hf
  fields := h.fields

theorem Separable.components (h : Separable (Index.readAll sources)) (root : Path)
    (hf : f ∈ Index.readAll sources) :
    (root.join (relativePath (Index.unitOf f))).components = root.components ++ addressOf f := by
  obtain ⟨s, haccepts, rfl⟩ := mem_readAll hf
  have hsome := fileName?_of_accepts haccepts
  obtain ⟨name, hname⟩ := Option.isSome_iff_exists.mp hsome
  have hrel := components_relativePath (f := readSource s.text s.path s.provenance) hname
    (h.packages _ hf)
  obtain ⟨first, rest, hplace⟩ := addressOf_cons (f := readSource s.text s.path s.provenance) hsome
  rw [Path.components_join root (n := first) (by rw [hrel, hplace]; rfl), hrel]

theorem Separable.eq_of_same (h : Separable (Index.readAll sources)) {root : Path}
    (hf : f ∈ Index.readAll sources) (hg : g ∈ Index.readAll sources)
    (hsame : (root.join (relativePath (Index.unitOf f))).Same
      (root.join (relativePath (Index.unitOf g)))) : f = g := by
  by_contra hne
  have hsymm : Std.Symm fun f g : SourceFile =>
      (f.imports.package, f.path.fileName?) ≠ (g.imports.package, g.path.fileName?) :=
    ⟨fun _ _ hdiff => hdiff.symm⟩
  refine h.places.forall hf hg hne (addressOf_injective ?_ ?_ ?_)
  · obtain ⟨s, haccepts, rfl⟩ := mem_readAll hf
    exact fileName?_of_accepts haccepts
  · obtain ⟨s, haccepts, rfl⟩ := mem_readAll hg
    exact fileName?_of_accepts haccepts
  · unfold Path.Same at hsame
    rw [h.components root hf, h.components root hg] at hsame
    exact List.append_cancel_left hsame

variable {root : Path} {catalog : Catalog} {e : Extraction} {c : Closure}

structure Kin (files : List SourceFile) (c : Closure) : Prop where
  distinct : (c.members.map (·.decl.id)).Nodup
  entries : ∀ m ∈ c.members, m.inclusion ≠ .external →
    ∃ f ∈ files, ∃ D ∈ f.entries, D.decl = m.decl

def fileFor (e : Extraction) (x : Index) (sel : Selection) (f : SourceFile) : Path × String :=
  (e.sourceRoot.join (relativePath (Index.unitOf f)),
    Extraction.textOf writer e.placeholder (Index.unitOf f)
      (Plan.ofUnit x sel (Index.unitOf f)))

theorem unit?_of_apart (hpaths : (Index.readAll sources).Pairwise fun f g => ¬ f.path.Same g.path)
    (hf : f ∈ Index.readAll sources) :
    (Index.ofSources root sources catalog).unit? f.path = some (Index.unitOf f) :=
  Index.ofFiles_unit? _ _ hpaths (fun _ => readAll_located) hf

theorem workspace_written (root : Path) (catalog : Catalog) (e : Extraction)
    (hpaths : (Index.readAll sources).Pairwise fun f g => ¬ f.path.Same g.path)
    (hc : Kin (Index.readAll sources) c) :
    ∃ sels, ∃ g : Path × Selection → Path × String,
      Extraction.selections c.members = .ok sels ∧ Extraction.Sorted c.members sels ∧
      c.workspace e writer (Index.ofSources root sources catalog) =
        .ok (.ofFiles (sels.map g) (Extraction.librariesOf c.members)) ∧
      ∀ s ∈ sels, ∃ f ∈ Index.readAll sources, s.1 = f.path ∧
        g s = fileFor e (Index.ofSources root sources catalog) s.2 f := by
  have hlocated : ∀ m ∈ c.members, m.inclusion ≠ .external → ∃ p, m.decl.path? = some p := by
    intro m hm hkept
    obtain ⟨f, hf, D, hD, heq⟩ := hc.entries m hm hkept
    exact ⟨f.path, heq ▸ readAll_located hf D hD⟩
  obtain ⟨sels, hsels, hsorted⟩ := Extraction.selections_sorted c.members hlocated
  have hfiles : ∀ s ∈ sels, ∃ f ∈ Index.readAll sources, s.1 = f.path := by
    intro s hs
    obtain ⟨m, hm, hkept, hpath⟩ := hsorted.origin s hs
    obtain ⟨f, hf, D, hD, heq⟩ := hc.entries m hm hkept
    have hD := readAll_located hf D hD
    rw [heq, hpath] at hD
    exact ⟨f, hf, Option.some.inj hD⟩
  have hfile : ∀ f ∈ Index.readAll sources, ∀ sel,
      e.fileOf writer (Index.ofSources root sources catalog) f.path sel =
        .ok (fileFor e (Index.ofSources root sources catalog) sel f) := by
    intro f hf sel
    unfold Extraction.fileOf
    rw [unit?_of_apart hpaths hf]
    rfl
  obtain ⟨g, hmap, hg⟩ := Extraction.mapM_ok
    (f := fun s : Path × Selection =>
      e.fileOf writer (Index.ofSources root sources catalog) s.1 s.2)
    (l := sels) (fun s hs => by
      obtain ⟨f, hf, hpath⟩ := hfiles s hs
      exact ⟨_, hpath ▸ hfile f hf s.2⟩)
  refine ⟨sels, g, hsels, hsorted, ?_, fun s hs => ?_⟩
  · unfold Closure.workspace
    rw [hsels]
    show (sels.mapM fun s =>
      e.fileOf writer (Index.ofSources root sources catalog) s.1 s.2) >>= _ = _
    rw [hmap]
    rfl
  · obtain ⟨f, hf, hpath⟩ := hfiles s hs
    refine ⟨f, hf, hpath, ?_⟩
    have hok := hg s hs
    rw [hpath, hfile f hf] at hok
    exact (Except.ok.inj hok).symm

/-- Where no two files take the same place, each is found at its own. -/
theorem Separable.workspace (root : Path) (catalog : Catalog) (e : Extraction)
    (h : Separable (Index.readAll sources))
    (hc : Kin (Index.readAll sources) c) :
    ∃ w sels, c.workspace e writer (Index.ofSources root sources catalog) = .ok w ∧
      Extraction.Sorted c.members sels ∧ ∀ s ∈ sels, ∃ f ∈ Index.readAll sources,
        s.1 = f.path ∧ w.get? (fileFor e (Index.ofSources root sources catalog) s.2 f).1 =
          some (fileFor e (Index.ofSources root sources catalog) s.2 f) := by
  obtain ⟨sels, g, -, hsorted, hw, hfor⟩ := workspace_written root catalog e h.paths hc
  refine ⟨_, sels, hw, hsorted, fun s hs => ?_⟩
  obtain ⟨f, hf, hpath, hgs⟩ := hfor s hs
  refine ⟨f, hf, hpath, ?_⟩
  rw [← hgs]
  refine Workspace.ofFiles_get?_alone (List.mem_map_of_mem hs) (fun b hb hsame => ?_) _
  obtain ⟨t, ht, rfl⟩ := List.mem_map.mp hb
  obtain ⟨f', hf', hpath', hgt⟩ := hfor t ht
  rw [hgs, hgt] at hsame
  obtain rfl := h.eq_of_same hf' hf hsame
  rw [Path.eq_of_apart hsorted.apart ht hs (hpath'.trans hpath.symm ▸ Path.Same.refl _)]

/-- The text of a member stands in the file of the workspace that takes the place of its own. -/
def KeepsText (x : Index) (e : Extraction) (w : Workspace) (m : Member) : Prop :=
  ∃ unit path text, m.decl.path?.bind x.unit? = some unit ∧ e.pathOf? writer x m.decl = some path ∧
    w.get? path = some (path, text) ∧
    ∀ o ∈ m.decl.outlines, ∃ s, o.span.slice? unit.text = some s ∧ Occurs s text

/-- A field that is given a value when it is written. -/
def IsSettled (d : Declaration) : Prop := d.kind = .field ∧ ∃ o ∈ d.outlines, Settled o

theorem Separable.keepsText (root : Path) (catalog : Catalog) (e : Extraction)
    (h : Separable (Index.readAll sources))
    (hc : Kin (Index.readAll sources) c) :
    ∃ w, c.workspace e writer (Index.ofSources root sources catalog) = .ok w ∧
      ∀ m ∈ c.members, m.inclusion = .full → ¬ IsSettled m.decl →
        KeepsText (Index.ofSources root sources catalog) e w m := by
  obtain ⟨w, sels, hw, hsorted, hfiles⟩ := h.workspace root catalog e hc
  refine ⟨w, hw, fun m hm hfull hsettled => ?_⟩
  have hkept : m.inclusion ≠ .external := by simp [hfull]
  obtain ⟨f, hf, D, hD, hdecl⟩ := hc.entries m hm hkept
  have hpath := h.orderly.located hf hD
  rw [hdecl] at hpath
  obtain ⟨s, hs, hsame, hentry⟩ := hsorted.complete m hm hkept _ hpath
  have hlookup := hsorted.lookup hc.distinct hs hm hentry
  obtain ⟨f', hf', hs', hget⟩ := hfiles s hs
  rw [hs'] at hsame
  obtain rfl := h.orderly.file_eq hf' hf hsame
  refine ⟨Index.unitOf f', _, _, ?_, ?_, hget, fun o ho => ?_⟩
  · rw [hpath, Option.bind_some, unit?_of_apart h.paths hf]
  · unfold Extraction.pathOf?
    rw [hpath]
    show (Index.unit? _ _).bind _ = _
    rw [unit?_of_apart h.paths hf]
    rfl
  · have houtlined := (h.orderly.placed f' hf).outlined D.decl (List.mem_map_of_mem hD) o
      (hdecl ▸ ho)
    obtain ⟨piece, hpiece⟩ := houtlined.exists_slice
    refine ⟨String.ofList piece, Span.slice?_of_toList hpiece, ?_⟩
    refine h.orderly.occurs_textOf hf hD hpiece ?_
    refine h.orderly.carried_full hf hD ?_ (hdecl ▸ ho) ?_ hpiece
    · rw [hdecl, hlookup, hfull]
    · rintro ⟨hkind, hset⟩
      exact hsettled ⟨hdecl ▸ hkind, o, ho, hset⟩

theorem kin_of_resolve {p : Policy} {name : String}
    (h : Closure.resolve p (Index.ofSources root sources catalog) name = .ok c) :
    Kin (Index.readAll sources) c := by
  obtain ⟨hdistinct, hmembers⟩ := Closure.indexed_of_resolve (Index.ofFiles_distinct _ _ _) h
  refine ⟨hdistinct, fun m hm hkept => ?_⟩
  obtain ⟨hindexed, hlibrary⟩ := hmembers m hm
  rcases Index.mem_ofFiles (Index.get?_some hindexed).1 with hfile | ⟨houtside, -⟩
  · exact hfile
  · exact absurd (hlibrary houtside) hkept

/-- Whichever declaration of the project is asked for and however the extraction is set, the
extraction succeeds and leaves the text of what is kept in full as it is, first of all that of the
declaration itself. -/
theorem extraction_keeps_full_text (top : Path) (sources : List SourceText) (catalog : Catalog)
    (p : Policy) (e : Extraction) (name : String) (d : Declaration)
    (hs : Separable (Index.readAll sources))
    (hd : (Index.ofSources top sources catalog).get? ⟨name⟩ = some d) (hp : d.isLibrary = false) :
    ∃ c w, Closure.resolve p (Index.ofSources top sources catalog) name = .ok c ∧
      c.workspace e writer (Index.ofSources top sources catalog) = .ok w ∧
      (∃ m ∈ c.members, m.decl = d ∧ m.inclusion = .full) ∧
      ∀ m ∈ c.members, m.inclusion = .full → ¬ IsSettled m.decl →
        KeepsText (Index.ofSources top sources catalog) e w m := by
  have hx : (Index.ofSources top sources catalog).Distinct := Index.ofFiles_distinct _ _ _
  obtain ⟨hresolve, hfin⟩ := Closure.resolve_eq_searchOf (p := p) hx hd hp
  have hc := kin_of_resolve hresolve
  obtain ⟨w, hw, hkeeps⟩ := hs.keepsText top catalog e hc
  refine ⟨_, w, hresolve, hw, ?_, hkeeps⟩
  have hhead := List.mem_of_head? hfin.invariant.grown.head
  refine ⟨_, Closure.mem_memberOf hhead, rfl, ?_⟩
  show Closure.inclusion p _ d.id d = .full
  unfold Closure.inclusion
  simp [hp]

end

def shelf : List SourceText :=
  [{ path := ⟨"A.java"⟩
     text := "package p; class A \x7b int a, b; void f() \x7b b = 1; \x7d void f(int x) " ++
       "\x7b B.g(); \x7d \x7d"
     provenance := { module := "m" } },
   { path := ⟨"B.java"⟩
     text := "package p; class B \x7b static void g() \x7b \x7d \x7d"
     provenance := { module := "m" } }]

theorem shelf_packages : ∀ f ∈ Index.readAll shelf, f.imports.package = some "p" := by
  decide +kernel

theorem shelf_separable : Separable (Index.readAll shelf) where
  paths := by decide +kernel
  places := by decide +kernel
  packages f hf p hp s hs := by
    obtain rfl := Option.some.inj ((shelf_packages f hf).symm.trans hp)
    obtain rfl : s = "p" := by
      have hparts : parts '.' "p" = ["p"] := by decide
      rwa [hparts, List.mem_singleton] at hs
    exact ⟨by decide, by decide, by decide, by decide⟩
  names := by decide +kernel
  fields f hf D hD hkind := by
    have hlength : ∀ f ∈ Index.readAll shelf, ∀ D ∈ f.entries, D.decl.kind = .field →
        D.decl.outlines.length = 1 := by decide +kernel
    exact List.length_eq_one_iff.mp (hlength f hf D hD hkind)

/-- Both methods of one name stand in the file that is written for their class. -/
theorem shelf_keeps_both_methods :
    ∃ d c w m, (Index.ofSources ⟨"/"⟩ shelf {}).get? ⟨"p.A.f"⟩ = some d ∧ d.outlines.length = 2 ∧
      Closure.resolve {} (Index.ofSources ⟨"/"⟩ shelf {}) "p.A.f" = .ok c ∧
      c.workspace {} writer (Index.ofSources ⟨"/"⟩ shelf {}) = .ok w ∧ m ∈ c.members ∧
      m.decl = d ∧ KeepsText (Index.ofSources ⟨"/"⟩ shelf {}) {} w m := by
  have hfound : ((Index.ofSources ⟨"/"⟩ shelf {}).get? ⟨"p.A.f"⟩).map
      (fun d => (d.kind, d.isLibrary, d.outlines.length)) = some (.method, false, 2) := by
    decide +kernel
  obtain ⟨d, hd, hfacts⟩ := Option.map_eq_some_iff.mp hfound
  simp only [Prod.mk.injEq] at hfacts
  obtain ⟨hkind, hlibrary, hlength⟩ := hfacts
  obtain ⟨c, w, hc, hw, ⟨m, hm, rfl, hfull⟩, hkeeps⟩ :=
    extraction_keeps_full_text ⟨"/"⟩ shelf {} {} {} "p.A.f" d shelf_separable hd hlibrary
  refine ⟨m.decl, c, w, m, hd, hlength, hc, hw, hm, rfl, hkeeps m hm hfull ?_⟩
  rintro ⟨hfield, -⟩
  rw [hkind] at hfield
  cases hfield

end Carve.Java
