import Carve.Proofs.Java.Extraction
import Mathlib.Data.Finset.Image
import Mathlib.Data.Set.Function

/-!
# Files that take the same place

The members of a closure are sorted by the files of the project, but a file is written under a path
made of its package and its name. Files of different places can be written to the same one, and
then the last of them is all that is left there. So a workspace has as many files as the members
are written to, which is one for each source file exactly if no two of these share a place; and
what a source file does not share holds what was planned for it.
-/

namespace Carve

def Closure.kept (c : Closure) : List Member := c.members.filter (·.inclusion != .external)

theorem Closure.mem_kept {c : Closure} {m : Member} :
    m ∈ c.kept ↔ m ∈ c.members ∧ m.inclusion ≠ .external := by
  simp [kept]

/-- Of two maps of which one follows from the other, the one makes no more of a list than the other
does, and as much only if each follows from the other. -/
theorem card_map_toFinset {α β γ : Type} [DecidableEq β] [DecidableEq γ] [Inhabited γ]
    {as : List α} {f : α → β} {g : α → γ} (h : ∀ a ∈ as, ∀ b ∈ as, f a = f b → g a = g b) :
    (as.map g).toFinset.card ≤ (as.map f).toFinset.card ∧
      ((as.map g).toFinset.card = (as.map f).toFinset.card ↔
        ∀ a ∈ as, ∀ b ∈ as, g a = g b → f a = f b) := by
  let φ : β → γ := fun y => ((as.find? (f · == y)).map g).getD default
  have hφ : ∀ a ∈ as, φ (f a) = g a := by
    intro a ha
    have hsome : (as.find? (f · == f a)).isSome := List.find?_isSome.mpr ⟨a, ha, by simp⟩
    obtain ⟨b, hb⟩ := Option.isSome_iff_exists.mp hsome
    have hsame : f b = f a := by simpa using List.find?_some hb
    show ((as.find? (f · == f a)).map g).getD default = g a
    rw [hb]
    exact h b (List.mem_of_find?_eq_some hb) a ha hsame
  have himage : (as.map g).toFinset = (as.map f).toFinset.image φ := by
    ext y
    simp only [List.mem_toFinset, List.mem_map, Finset.mem_image, exists_exists_and_eq_and]
    exact exists_congr fun a => and_congr_right fun ha => by rw [hφ a ha]
  rw [himage]
  refine ⟨Finset.card_image_le, Finset.card_image_iff.trans ⟨?_, ?_⟩⟩
  · intro hinj a ha b hb hab
    refine hinj ?_ ?_ (by rw [hφ a ha, hφ b hb, hab])
    · simpa using ⟨a, ha, rfl⟩
    · simpa using ⟨b, hb, rfl⟩
  · intro hback y hy z hz hyz
    obtain ⟨a, ha, rfl⟩ : ∃ a ∈ as, f a = y := by simpa using hy
    obtain ⟨b, hb, rfl⟩ : ∃ b ∈ as, f b = z := by simpa using hz
    exact hback a ha b hb (by rw [← hφ a ha, ← hφ b hb, hyz])

namespace Java

/-- Where the source of a member stands. -/
def sourcePlace (m : Member) : List Path.Component := (m.decl.path?.map (·.components)).getD []

/-- Where a member is written to. -/
def writtenPlace (e : Extraction) (x : Index) (m : Member) : List Path.Component :=
  ((e.pathOf? writer x m.decl).map (·.components)).getD []

/-- The member of a source file that is written to a place of its own. -/
def Alone (e : Extraction) (x : Index) (c : Closure) (m : Member) : Prop :=
  ∀ n ∈ c.kept, writtenPlace e x m = writtenPlace e x n → sourcePlace m = sourcePlace n

/-- What is planned for the source file of a member stands in the file it is written to. -/
def HoldsPlanned (e : Extraction) (x : Index) (sels : List (Path × Selection)) (w : Workspace)
    (m : Member) : Prop :=
  ∃ s ∈ sels, ∃ unit path, m.decl.path? = some s.1 ∧ x.unit? s.1 = some unit ∧
    e.pathOf? writer x m.decl = some path ∧ w.get? path =
      some (path, Extraction.textOf writer e.placeholder unit (Plan.ofUnit x s.2 unit))

section

variable {sources : List SourceText} {root : Path} {catalog : Catalog} {e : Extraction} {x : Index}
  {c : Closure} {f : SourceFile} {m n : Member} {sels : List (Path × Selection)}
  {s : Path × Selection} {g : Path × Selection → Path × String}

theorem sourcePlace_of_path {path : Path} (h : m.decl.path? = some path) :
    sourcePlace m = path.components := by
  rw [sourcePlace, h]
  rfl

theorem writtenPlace_of_path {path : Path} (h : e.pathOf? writer x m.decl = some path) :
    writtenPlace e x m = path.components := by
  rw [writtenPlace, h]
  rfl

theorem pathOf?_of_path (hpaths : (Index.readAll sources).Pairwise fun f g => ¬ f.path.Same g.path)
    (hf : f ∈ Index.readAll sources) (hm : m.decl.path? = some f.path) :
    e.pathOf? writer (Index.ofSources root sources catalog) m.decl =
      some (e.sourceRoot.join (relativePath (Index.unitOf f))) := by
  unfold Extraction.pathOf?
  rw [hm]
  show (Index.unit? _ _).bind _ = _
  rw [unit?_of_apart hpaths hf]
  rfl

/-- The member stands in the file of the selection and is written to the file made of it. -/
structure Sent (e : Extraction) (x : Index) (g : Path × Selection → Path × String) (m : Member)
    (s : Path × Selection) : Prop where
  path : m.decl.path? = some s.1
  written : e.pathOf? writer x m.decl = some (g s).1

/-- Every member that is kept goes to one selection, and every selection is there for a member. -/
structure Dispatched (e : Extraction) (x : Index) (c : Closure) (sels : List (Path × Selection))
    (g : Path × Selection → Path × String) : Prop where
  apart : sels.Pairwise fun s t => ¬ s.1.Same t.1
  members : ∀ m ∈ c.kept, ∃ s ∈ sels, Sent e x g m s
  selections : ∀ s ∈ sels, ∃ m ∈ c.kept, Sent e x g m s

theorem dispatched_of_kin
    (hpaths : (Index.readAll sources).Pairwise fun f g => ¬ f.path.Same g.path)
    (hkin : Kin (Index.readAll sources) c) (hsorted : Extraction.Sorted c.members sels)
    (hfor : ∀ s ∈ sels, ∃ f ∈ Index.readAll sources, s.1 = f.path ∧
      g s = fileFor e (Index.ofSources root sources catalog) s.2 f) :
    Dispatched e (Index.ofSources root sources catalog) c sels g := by
  have hwritten : ∀ m : Member, ∀ s ∈ sels, m.decl.path? = some s.1 →
      Sent e (Index.ofSources root sources catalog) g m s := by
    intro m s hs hpath
    obtain ⟨f, hf, hsf, hgs⟩ := hfor s hs
    exact ⟨hpath, hgs ▸ pathOf?_of_path hpaths hf (hsf ▸ hpath)⟩
  refine ⟨hsorted.apart, fun m hm => ?_, fun s hs => ?_⟩
  · obtain ⟨hmem, hkept⟩ := Closure.mem_kept.mp hm
    obtain ⟨f, hf, D, hD, hdecl⟩ := hkin.entries m hmem hkept
    have hpath : m.decl.path? = some f.path := hdecl ▸ readAll_located hf D hD
    obtain ⟨s, hs, hsame, -⟩ := hsorted.complete m hmem hkept _ hpath
    obtain ⟨f', hf', hsf, -⟩ := hfor s hs
    rw [hsf] at hsame
    obtain rfl := Path.eq_of_apart hpaths hf' hf hsame
    exact ⟨s, hs, hwritten m s hs (hsf ▸ hpath)⟩
  · obtain ⟨m, hm, hkept, hpath⟩ := hsorted.origin s hs
    exact ⟨m, Closure.mem_kept.mpr ⟨hm, hkept⟩, hwritten m s hs hpath⟩

namespace Dispatched

theorem places (h : Dispatched e x c sels g) :
    ((sels.map g).map (·.1.components)).toFinset = (c.kept.map (writtenPlace e x)).toFinset := by
  rw [List.map_map]
  ext place
  simp only [List.mem_toFinset, List.mem_map, Function.comp_apply]
  constructor
  · rintro ⟨s, hs, rfl⟩
    obtain ⟨m, hm, hsent⟩ := h.selections s hs
    exact ⟨m, hm, writtenPlace_of_path hsent.written⟩
  · rintro ⟨m, hm, rfl⟩
    obtain ⟨s, hs, hsent⟩ := h.members m hm
    exact ⟨s, hs, (writtenPlace_of_path hsent.written).symm⟩

theorem selection_eq (h : Dispatched e x c sels g) {t : Path × Selection} (hs : s ∈ sels)
    (ht : t ∈ sels) (hm : Sent e x g m s) (hn : Sent e x g n t)
    (hplace : sourcePlace m = sourcePlace n) : s = t := by
  rw [sourcePlace_of_path hm.path, sourcePlace_of_path hn.path] at hplace
  exact Path.eq_of_apart h.apart hs ht hplace

theorem written_follows (h : Dispatched e x c sels g) (hm : m ∈ c.kept) (hn : n ∈ c.kept)
    (hplace : sourcePlace m = sourcePlace n) : writtenPlace e x m = writtenPlace e x n := by
  obtain ⟨s, hs, hsent⟩ := h.members m hm
  obtain ⟨t, ht, hsent'⟩ := h.members n hn
  obtain rfl := h.selection_eq hs ht hsent hsent' hplace
  rw [writtenPlace_of_path hsent.written, writtenPlace_of_path hsent'.written]

theorem eq_of_alone (h : Dispatched e x c sels g) (hs : s ∈ sels) (hm : Sent e x g m s)
    (halone : Alone e x c m) {b : Path × String} (hb : b ∈ sels.map g)
    (hsame : b.1.Same (g s).1) : b = g s := by
  obtain ⟨t, ht, rfl⟩ := List.mem_map.mp hb
  obtain ⟨n, hn, hsent⟩ := h.selections t ht
  have hplace : writtenPlace e x m = writtenPlace e x n := by
    rw [writtenPlace_of_path hm.written, writtenPlace_of_path hsent.written]
    exact Eq.symm hsame
  rw [h.selection_eq hs ht hm hsent (halone n hn hplace)]

end Dispatched

end

/-- The files of a workspace are as many as the places that the members of the closure are written
to. These are one for each source file exactly if no two source files are written to one place, and
a source file that shares its place with no other one has there what is planned for it. -/
theorem workspace_has_file_per_place (top : Path) (sources : List SourceText) (catalog : Catalog)
    (p : Policy) (e : Extraction) (name : String) (c : Closure)
    (hpaths : sources.Pairwise fun s s' => ¬ s.path.Same s'.path)
    (hc : Closure.resolve p (Index.ofSources top sources catalog) name = .ok c) :
    ∃ w sels, c.workspace e writer (Index.ofSources top sources catalog) = .ok w ∧
      Extraction.selections c.members = .ok sels ∧
      w.files.length =
        (c.kept.map (writtenPlace e (Index.ofSources top sources catalog))).toFinset.card ∧
      w.files.length ≤ (c.kept.map sourcePlace).toFinset.card ∧
      (w.files.length = (c.kept.map sourcePlace).toFinset.card ↔
        ∀ m ∈ c.kept, Alone e (Index.ofSources top sources catalog) c m) ∧
      ∀ m ∈ c.kept, Alone e (Index.ofSources top sources catalog) c m →
        HoldsPlanned e (Index.ofSources top sources catalog) sels w m := by
  have hapart := readAll_apart hpaths
  have hkin := kin_of_resolve hc
  obtain ⟨sels, g, hsels, hsorted, hw, hfor⟩ := workspace_written top catalog e hapart hkin
  have hsent := dispatched_of_kin hapart hkin hsorted hfor
  have hlength : (Workspace.ofFiles (sels.map g)
      (Extraction.librariesOf c.members)).files.length =
        (c.kept.map (writtenPlace e (Index.ofSources top sources catalog))).toFinset.card := by
    rw [Workspace.length_ofFiles, hsent.places]
  obtain ⟨hle, hiff⟩ := card_map_toFinset fun m hm n hn => hsent.written_follows hm hn
  refine ⟨_, sels, hw, hsels, hlength, hlength ▸ hle, hlength ▸ hiff, fun m hm halone => ?_⟩
  obtain ⟨s, hs, hms⟩ := hsent.members m hm
  obtain ⟨f, hf, hsf, hgs⟩ := hfor s hs
  refine ⟨s, hs, Index.unitOf f, (g s).1, hms.path, hsf ▸ unit?_of_apart hapart hf, hms.written, ?_⟩
  rw [Workspace.ofFiles_get?_alone (List.mem_map_of_mem hs)
    (fun b hb => hsent.eq_of_alone hs hms halone hb), hgs]
  rfl

/-- Two files whose packages name different directories, but for a comment after the dot. -/
def twins : List SourceText :=
  [{ path := ⟨"src/main/java/a/b/X.java"⟩
     text := "package a./*x*/b; class X \x7b static void one() \x7b \x7d \x7d"
     provenance := { module := "m" } },
   { path := ⟨"src/main/java/c/b/X.java"⟩
     text := "package c./*x*/b; class Z \x7b void two() \x7b one(); \x7d \x7d"
     provenance := { module := "m" } }]

/-- A method of the one calls a method of the other. Both are kept, but they are written to one
file. -/
theorem twins_share_a_file :
    ∃ c w, Closure.resolve {} (Index.ofSources ⟨"/"⟩ twins {}) "c./*x*/b.Z.two" = .ok c ∧
      c.workspace {} writer (Index.ofSources ⟨"/"⟩ twins {}) = .ok w ∧ w.files.length = 1 ∧
      (c.kept.map sourcePlace).toFinset.card = 2 ∧
      ∃ m ∈ c.kept, ¬ Alone {} (Index.ofSources ⟨"/"⟩ twins {}) c m := by
  have hpaths : twins.Pairwise fun s s' => ¬ s.path.Same s'.path := by decide +kernel
  have hcounts : (Closure.resolve {} (Index.ofSources ⟨"/"⟩ twins {}) "c./*x*/b.Z.two").toOption.map
      (fun c => ((c.kept.map (writtenPlace {} (Index.ofSources ⟨"/"⟩ twins {}))).toFinset.card,
        (c.kept.map sourcePlace).toFinset.card)) = some (1, 2) := by decide +kernel
  obtain ⟨c, hsome, hcards⟩ := Option.map_eq_some_iff.mp hcounts
  obtain ⟨hwritten, hsource⟩ := Prod.mk.inj hcards
  have hc := Extraction.eq_ok_of_toOption hsome
  obtain ⟨w, sels, hw, -, hlength, -, hiff, -⟩ :=
    workspace_has_file_per_place ⟨"/"⟩ twins {} {} {} "c./*x*/b.Z.two" c hpaths hc
  refine ⟨c, w, hc, hw, hlength.trans hwritten, hsource, ?_⟩
  by_contra hall
  have hsame := hiff.mpr fun m hm => by_contra fun hshared => hall ⟨m, hm, hshared⟩
  rw [hlength, hwritten, hsource] at hsame
  cases hsame

end Java

end Carve
