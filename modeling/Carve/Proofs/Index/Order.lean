import Carve.Proofs.Index.References
import Carve.Proofs.Java.Agreement
import Carve.Proofs.Java.Placing
import Carve.Proofs.Java.Targets

/-!
# The order of the files

Where no two files declare the same name, an index answers alike in whatever order it is given its
files: their tables agree, so every use site is bound alike; the library of a library type can be
told from its name; all children of a declaration stand in its own file; and referrers are sorted.
The catalog must not claim `java` or `java.lang`: the types of the language that need no import
belong to the platform in any case.
-/

namespace Carve

namespace Catalog

theorem front_of_platform {front rest : List Char}
    (h : "java.lang".toList = front ++ '.' :: rest) : front = "java".toList := by
  have hsplit : "java.lang".toList = "java".toList ++ '.' :: "lang".toList := by decide
  have hcount := congrArg (List.count '.') h
  have hone : "java.lang".toList.count '.' = 1 := by decide
  rw [hone, List.count_append, List.count_cons_self] at hcount
  have hrest : '.' ∉ rest := List.count_eq_zero.mp (by omega)
  exact (append_cons_inj hrest (by decide) (h.symm.trans hsplit)).1

/-- Only these prefixes cover the package of the types that need no import. -/
theorem eq_of_covers_platform {claimed : String} (h : covers claimed "java.lang" = true) :
    claimed = "java" ∨ claimed = "java.lang" := by
  unfold covers at h
  split at h
  · rename_i hrest
    have hall := Text.stripStart_eq_some.mp hrest
    rw [List.append_nil] at hall
    exact Or.inr (String.toList_inj.mp hall.symm)
  · rename_i c rest hrest
    obtain rfl : c = '.' := by simpa using h
    exact Or.inl (String.toList_inj.mp (front_of_platform (Text.stripStart_eq_some.mp hrest)))
  · cases h

theorem lookup?_platform {catalog : Catalog}
    (h : ∀ c ∈ catalog.claims, c.package ≠ "java" ∧ c.package ≠ "java.lang") :
    catalog.lookup? "java.lang" = some .jdk := by
  have hnone : catalog.claims.find? (fun c => covers c.package "java.lang") = none := by
    refine List.find?_eq_none.mpr fun c hc hcovers => ?_
    rcases eq_of_covers_platform hcovers with hjava | hlang
    · exact (h c hc).1 hjava
    · exact (h c hc).2 hlang
  unfold lookup?
  rw [hnone]
  decide

end Catalog

namespace Index

open Reference (keepFirst)

section

variable {files files' : List SourceFile} {catalog : Catalog} {root : Path}

theorem NamedOnce.perm (h : NamedOnce files) (hperm : files.Perm files') : NamedOnce files' :=
  ((hperm.flatMap_right _).map _).nodup_iff.mp h

theorem agree_tables (h : NamedOnce files) (hperm : files.Perm files') :
    (Table.ofFiles files catalog).Agree (Table.ofFiles files' catalog) :=
  Table.agree_ofFiles catalog hperm h

theorem bindAll_perm (h : NamedOnce files) (hperm : files.Perm files') :
    (bindAll (Table.ofFiles files catalog) files).Perm
      (bindAll (Table.ofFiles files' catalog) files') := by
  unfold bindAll
  rw [Java.collect_congr (agree_tables h hperm)]
  exact hperm.flatMap_right _

theorem references_perm (h : NamedOnce files) (hperm : files.Perm files') (id : QName) :
    (ofFiles root files catalog).references id = (ofFiles root files' catalog).references id := by
  have hkeys : ((bindAll (Table.ofFiles files catalog) files).map (·.1)).Nodup := by
    have hids : (bindAll (Table.ofFiles files catalog) files).map (·.1) =
        (files.flatMap (·.entries)).map (·.decl.id) := by
      simp [bindAll, List.map_flatMap, Function.comp_def]
    exact hids ▸ h
  rw [ofFiles_references, ofFiles_references,
    find?_eq_of_mem_iff (fun _ => (bindAll_perm h hperm).mem_iff)
      (fun _ ha _ hb heq => List.inj_on_of_nodup_map hkeys ha hb heq)]

/-! ### Libraries -/

theorem usedLibraries_provided : ∀ d ∈ usedLibraries files catalog,
    ∃ id owner, d = .library id owner ∧ Java.Provided (Table.ofFiles files catalog) id owner := by
  intro d hd
  obtain ⟨⟨id, c⟩, hbound, hl⟩ := List.mem_flatMap.mp hd
  obtain ⟨f, -, e, -, -, rfl⟩ := mem_bindAll.mp hbound
  exact Java.collect_provided d hl

theorem get?_perm (h : NamedOnce files) (hperm : files.Perm files')
    (hcatalog : ∀ c ∈ catalog.claims, c.package ≠ "java" ∧ c.package ≠ "java.lang") (id : QName) :
    (ofFiles root files catalog).get? id = (ofFiles root files' catalog).get? id := by
  have hplatform : Java.coordinateFor (Table.ofFiles files catalog) "java.lang" = .jdk := by
    rw [Java.coordinateFor, Table.libraryFor?, Table.ofFiles_catalog,
      Catalog.lookup?_platform hcatalog]
    rfl
  have hunique : ∀ l ∈ usedLibraries files catalog, ∀ l' ∈ usedLibraries files catalog,
      l.id = l'.id → l = l' := by
    intro l hl l' hl' hid
    obtain ⟨q, owner, rfl, hprovided⟩ := usedLibraries_provided l hl
    obtain ⟨q', owner', rfl, hprovided'⟩ := usedLibraries_provided l' hl'
    obtain rfl : q = q' := hid
    rw [hprovided.owner_eq hplatform hprovided']
  have hmem : ∀ l, l ∈ usedLibraries files catalog ↔ l ∈ usedLibraries files' catalog :=
    fun _ => ((bindAll_perm h hperm).flatMap_right _).mem_iff
  rw [ofFiles_get?, ofFiles_get?, (agree_tables h hperm).declaration?,
    find?_eq_of_mem_iff hmem hunique]

/-! ### Children -/

theorem NamedOnce.decls (h : NamedOnce files) (root : Path) (catalog : Catalog) :
    ∃ ls, (∀ l ∈ ls, l.parent = none) ∧ (ofFiles root files catalog).nodes.map (·.decl) =
      (files.flatMap (·.entries)).map (·.decl) ++ ls := by
  have hkept : (files.flatMap (·.entries)).filterMap
      (fun e => (Table.ofFiles files catalog).declaration? e.decl.id.text) =
        (files.flatMap (·.entries)).map (·.decl) := by
    rw [← List.filterMap_eq_map]
    refine List.filterMap_congr fun e he => ?_
    obtain ⟨f, hf, hef⟩ := List.mem_flatMap.mp he
    exact h.declaration? hf hef
  have hnodup : (((files.flatMap (·.entries)).map (·.decl)).map (·.id)).Nodup := by
    rw [List.map_map]
    exact h
  rw [ofFiles_eq_build, build_decls, operations_decls, hkept, keepFirst_append,
    keepFirst_of_nodup hnodup fun _ _ => List.not_mem_nil]
  exact ⟨_, fun l hl => (usedLibraries_library l (mem_keepFirst hl)).2.2, rfl⟩

theorem NamedOnce.children (h : NamedOnce files) (root : Path) (catalog : Catalog) (id : QName) :
    (ofFiles root files catalog).children id =
      files.flatMap fun f => (f.entries.map (·.decl)).filter (·.parent == some id) := by
  obtain ⟨ls, hls, hdecls⟩ := h.decls root catalog
  have hnone : ls.filter (·.parent == some id) = [] :=
    List.filter_eq_nil_iff.mpr fun l hl => by simp [hls l hl]
  unfold Index.children
  rw [show (fun n : Indexed => n.decl.parent == some id) =
    (fun d : Declaration => d.parent == some id) ∘ (·.decl) from rfl, ← List.filter_map, hdecls,
    List.filter_append, hnone, List.append_nil, List.map_flatMap, List.filter_flatMap]

theorem flatMap_eq_of_perm {α β : Type} {g : α → List β} {as bs : List α} (h : as.Perm bs)
    (hone : as.Pairwise fun a b => g a = [] ∨ g b = []) : as.flatMap g = bs.flatMap g := by
  induction h with
  | nil => rfl
  | cons a h ih =>
    rw [List.flatMap_cons, List.flatMap_cons, ih (List.pairwise_cons.mp hone).2]
  | swap a b as =>
    simp only [List.flatMap_cons]
    rcases (List.pairwise_cons.mp hone).1 a List.mem_cons_self with hb | ha
    · simp [hb]
    · simp [ha]
  | trans h k ih ih' =>
    exact (ih hone).trans (ih' ((h.pairwise_iff fun hab => Or.symm hab).mp hone))

theorem children_perm (h : NamedOnce files) (hperm : files.Perm files')
    (hnames : files.Pairwise fun f g => ∀ d ∈ f.entries, ∀ e ∈ g.entries, d.decl.id ≠ e.decl.id)
    (hconsistent : ∀ f ∈ files, Java.Consistent f) (id : QName) :
    (ofFiles root files catalog).children id = (ofFiles root files' catalog).children id := by
  rw [h.children, (h.perm hperm).children]
  have hparent : ∀ f ∈ files, (f.entries.map (·.decl)).filter (·.parent == some id) ≠ [] →
      ∃ e ∈ f.entries, e.decl.id = id := by
    intro f hf hsome
    obtain ⟨d, hd⟩ := List.exists_mem_of_ne_nil _ hsome
    obtain ⟨hmem, hd⟩ := List.mem_filter.mp hd
    obtain ⟨e, he, rfl⟩ := List.mem_map.mp hmem
    obtain ⟨T, hT, -, hid⟩ := (hconsistent f hf).parents e he id (by simpa using hd)
    exact ⟨T, hT, hid⟩
  refine flatMap_eq_of_perm hperm (hnames.imp_of_mem fun {f g} hf hg hfg => ?_)
  by_contra hboth
  rw [not_or] at hboth
  obtain ⟨d, hd, hdid⟩ := hparent f hf hboth.1
  obtain ⟨e, he, heid⟩ := hparent g hg hboth.2
  exact hfg d hd e he (hdid.trans heid.symm)

/-! ### Referrers -/

/-- Referrers are told by the references and by what is known. -/
theorem referrers_congr {x y : Index} (hx : Mirrored x) (hy : Mirrored y)
    (hget : ∀ id, x.get? id = y.get? id) (hrefs : ∀ id, x.references id = y.references id)
    (id : QName) : x.referrers id = y.referrers id := by
  have hnodup : ∀ z : Index, Mirrored z → (z.referrers id).Nodup := by
    intro z hz
    refine (pairwise_referrers hz.nodup id).imp fun {a b} hab => ?_
    rintro rfl
    exact precedes_irrefl a hab
  have hperm : (x.referrers id).Perm (y.referrers id) := by
    rw [List.perm_ext_iff_of_nodup (hnodup x hx) (hnodup y hy)]
    rintro ⟨s, k⟩
    rw [hx.mem_referrers, hy.mem_referrers, hget, hrefs]
  exact hperm.eq_of_pairwise
    (fun a b _ _ hab hba => absurd (precedes_trans hab hba) (precedes_irrefl a))
    (pairwise_referrers hx.nodup id) (pairwise_referrers hy.nodup id)

end

/-- An index of files that share no names answers alike in any order of the files. -/
theorem ofSources_order (root : Path) {sources sources' : List SourceText} (catalog : Catalog)
    (hperm : sources.Perm sources')
    (hnames : (readAll sources).Pairwise fun f g =>
      ∀ d ∈ f.entries, ∀ e ∈ g.entries, d.decl.id ≠ e.decl.id)
    (hcatalog : ∀ c ∈ catalog.claims, c.package ≠ "java" ∧ c.package ≠ "java.lang") (id : QName) :
    (ofSources root sources catalog).resolve id.text =
        (ofSources root sources' catalog).resolve id.text ∧
      (ofSources root sources catalog).references id =
        (ofSources root sources' catalog).references id ∧
      (ofSources root sources catalog).children id =
        (ofSources root sources' catalog).children id ∧
      (ofSources root sources catalog).referrers id =
        (ofSources root sources' catalog).referrers id := by
  have hnamed : NamedOnce (readAll sources) := Java.readAll_namedOnce hnames
  have hfiles : (readAll sources).Perm (readAll sources') := (hperm.filter _).map _
  have hget : ∀ id, (ofSources root sources catalog).get? id =
      (ofSources root sources' catalog).get? id := get?_perm hnamed hfiles hcatalog
  have hrefs : ∀ id, (ofSources root sources catalog).references id =
      (ofSources root sources' catalog).references id := references_perm hnamed hfiles
  refine ⟨?_, hrefs id, ?_, ?_⟩
  · unfold resolve
    rw [hget]
  · exact children_perm hnamed hfiles hnames (fun _ => Java.readAll_consistent) id
  · exact referrers_congr (ofFiles_mirrored ..) (ofFiles_mirrored ..) hget hrefs id

/-- Three files, in which names lead from each one to another one. -/
def bakery : List SourceText :=
  [{ path := ⟨"A.java"⟩
     text := "package p; class A extends B \x7b lib.Money m; void f() \x7b g(); \x7d \x7d"
     provenance := { module := "m" } },
   { path := ⟨"B.java"⟩
     text := "package p; class B \x7b void g() \x7b new q.C().h(); \x7d \x7d"
     provenance := { module := "m" } },
   { path := ⟨"C.java"⟩
     text := "package q; class C \x7b void h() \x7b \x7d \x7d"
     provenance := { module := "m" } }]

def mint : Catalog := ⟨[⟨"lib", ⟨"org.mint", "money", none⟩⟩]⟩

/-- Read backwards, the files give the same answers about a library type and about an inherited
method. -/
theorem bakery_order : ∃ money, money.origin = .library ⟨"org.mint", "money", none⟩ ∧
    (ofSources ⟨"/"⟩ bakery mint).resolve "lib.Money" = .ok money ∧
    (ofSources ⟨"/"⟩ bakery.reverse mint).resolve "lib.Money" = .ok money ∧
    (ofSources ⟨"/"⟩ bakery mint).referrers ⟨"p.B.g"⟩ =
      [(⟨"p.A"⟩, .call), (⟨"p.A.f"⟩, .call)] ∧
    (ofSources ⟨"/"⟩ bakery.reverse mint).referrers ⟨"p.B.g"⟩ =
      [(⟨"p.A"⟩, .call), (⟨"p.A.f"⟩, .call)] ∧
    (ofSources ⟨"/"⟩ bakery mint).children ⟨"p.B"⟩ =
      (ofSources ⟨"/"⟩ bakery.reverse mint).children ⟨"p.B"⟩ ∧
    (ofSources ⟨"/"⟩ bakery mint).references ⟨"p.A.f"⟩ =
      (ofSources ⟨"/"⟩ bakery.reverse mint).references ⟨"p.A.f"⟩ := by
  have hperm : bakery.Perm bakery.reverse := (List.reverse_perm bakery).symm
  have hnames : (readAll bakery).Pairwise fun f g =>
      ∀ d ∈ f.entries, ∀ e ∈ g.entries, d.decl.id ≠ e.decl.id := by decide +kernel
  have hcatalog : ∀ c ∈ mint.claims, c.package ≠ "java" ∧ c.package ≠ "java.lang" := by decide
  have horder := ofSources_order ⟨"/"⟩ mint hperm hnames hcatalog
  have hmoney : ((ofSources ⟨"/"⟩ bakery mint).get? ⟨"lib.Money"⟩).map (·.origin) =
      some (.library ⟨"org.mint", "money", none⟩) := by decide +kernel
  obtain ⟨money, hget, horigin⟩ := Option.map_eq_some_iff.mp hmoney
  have hresolve : (ofSources ⟨"/"⟩ bakery mint).resolve "lib.Money" = .ok money :=
    resolve_of_get? hget
  have hreferrers : (ofSources ⟨"/"⟩ bakery mint).referrers ⟨"p.B.g"⟩ =
      [(⟨"p.A"⟩, .call), (⟨"p.A.f"⟩, .call)] := by
    decide +kernel
  exact ⟨money, horigin, hresolve, (horder ⟨"lib.Money"⟩).1.symm.trans hresolve, hreferrers,
    (horder ⟨"p.B.g"⟩).2.2.2.symm.trans hreferrers, (horder ⟨"p.B"⟩).2.2.1,
    (horder ⟨"p.A.f"⟩).2.1⟩

end Index

end Carve
