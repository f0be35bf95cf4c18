import Carve.Proofs.Index.References
import Carve.Proofs.Java.Collecting
import Carve.Proofs.Java.Placing

/-!
# An index holds together

The index of some files is made in separate passes over the same files: a table of all names, the
declarations and library types, the references and their edges. What the passes make fits together:
every target that a reference has can be looked up, every project declaration has its text, and the
referrers of a declaration are the references to it, read backwards. This holds also where a name
is declared in several files, of which the index keeps the first.
-/

namespace Carve

namespace Index

section

variable {sources : List SourceText} {root : Path} {catalog : Catalog} {id : QName}
  {d : Declaration}

theorem declaration?_of_library (h : (ofSources root sources catalog).get? id = some d)
    (hlibrary : d.isLibrary = true) :
    (Table.ofFiles (readAll sources) catalog).declaration? id.text = none ∧ d.location = none := by
  rw [ofSources, ofFiles_get?] at h
  rcases Option.or_eq_some_iff.mp h with hfile | ⟨hnone, hused⟩
  · obtain ⟨f, hf, e, he, rfl⟩ := Table.declaration?_mem hfile
    have hproject := (Java.readAll_placed hf).project _ (List.mem_map_of_mem he)
    rw [hlibrary] at hproject
    cases hproject
  · exact ⟨hnone, (usedLibraries_library d (List.mem_of_find?_eq_some hused)).2.1⟩

theorem references_of_undeclared
    (h : (Table.ofFiles (readAll sources) catalog).declaration? id.text = none) :
    (ofSources root sources catalog).references id = [] := by
  refine List.eq_nil_iff_forall_not_mem.mpr fun r hr => ?_
  obtain ⟨f, hf, e, he, rfl, -⟩ := mem_references hr
  obtain ⟨d, hd⟩ := Table.exists_declaration? catalog hf he
  rw [h] at hd
  cases hd

theorem exists_entry_of_project (h : (ofSources root sources catalog).get? id = some d)
    (hproject : d.isLibrary = false) : ∃ f ∈ readAll sources, ∃ e ∈ f.entries, e.decl = d := by
  rcases mem_ofFiles (get?_some h).1 with hfile | ⟨hlibrary, -⟩
  · exact hfile
  · rw [hproject] at hlibrary
    cases hlibrary

theorem sourceText?_of_project (hpaths : sources.Pairwise fun s s' => ¬ s.path.Same s'.path)
    (h : (ofSources root sources catalog).get? id = some d) (hproject : d.isLibrary = false) :
    ∃ text, (ofSources root sources catalog).sourceText? id = some text := by
  obtain ⟨f, hf, e, he, rfl⟩ := exists_entry_of_project h hproject
  have hpath := Java.readAll_located hf e he
  obtain ⟨place, hplace, hsame⟩ := Option.map_eq_some_iff.mp hpath
  have hfile : (ofSources root sources catalog).files.find?
      (fun g => decide (g.1.Same place.path)) = some (f.path, unitOf f) := by
    rw [hsame]
    exact ofFiles_find?_file root catalog (Java.readAll_apart hpaths)
      (fun _ => Java.readAll_located) hf
  have houtlined := (Java.readAll_placed hf).outlined _ (List.mem_map_of_mem he) _
    (Declaration.own_mem_outlines hplace)
  obtain ⟨own, hown⟩ := houtlined.exists_slice
  have hslice : place.layout.own.span.slice? (unitOf f).text = some (String.ofList own) :=
    Span.slice?_of_toList hown
  unfold sourceText?
  rw [h]
  simp [hplace, hfile, hslice]

/-- How the declarations of an index, their references and their texts belong together. -/
structure Intact (x : Index) : Prop where
  /-- A declaration has its own references. -/
  sources : ∀ id, ∀ r ∈ x.references id, r.source = id
  /-- A target is absent exactly where nothing answers to the name. -/
  targets : ∀ id, ∀ r ∈ x.references id, (r.target = none ↔ r.kind = .unresolved)
  resolved : ∀ id, ∀ r ∈ x.references id, ∀ target, r.target = some target →
    ∃ d, x.resolve target.text = .ok d
  libraries : ∀ id d, x.get? id = some d → d.isLibrary = true →
    x.references id = [] ∧ x.sourceText? id = none
  projects : ∀ id d, x.get? id = some d → d.isLibrary = false →
    ∃ text, x.sourceText? id = some text
  /-- By name and then by kind, no pair twice. -/
  sorted : ∀ id, (x.referrers id).Pairwise Precedes
  mirrored : ∀ id source kind, (source, kind) ∈ x.referrers id ↔
    ∃ r ∈ x.references source, r.target = some id ∧ r.kind = kind

/-- A target that a declaration refers to is in the index. -/
theorem exists_target {id target : QName} {r : Reference}
    (hr : r ∈ (ofSources root sources catalog).references id) (htarget : r.target = some target) :
    ∃ d, (ofSources root sources catalog).get? target = some d := by
  obtain ⟨f, hf, e, he, -, hmade⟩ := mem_references hr
  rw [ofSources, ofFiles_get?]
  rcases Java.target_known hmade htarget with ⟨d, hd⟩ | ⟨l, hl, rfl⟩
  · exact ⟨d, by rw [hd, Option.some_or]⟩
  · have hused : l ∈ usedLibraries (readAll sources) catalog :=
      List.mem_flatMap.mpr ⟨(e.decl.id, _), mem_bindAll.mpr ⟨f, hf, e, he, rfl, rfl⟩, hl⟩
    have hfound : ((usedLibraries (readAll sources) catalog).find? (·.id == l.id)).isSome :=
      List.find?_isSome.mpr ⟨l, hused, by simp⟩
    obtain ⟨l', hl'⟩ := Option.isSome_iff_exists.mp hfound
    rw [hl']
    cases (Table.ofFiles (readAll sources) catalog).declaration? l.id.text with
    | none => exact ⟨l', rfl⟩
    | some d => exact ⟨d, rfl⟩

/-- The index of any files that are not given twice holds together. -/
theorem ofSources_intact (root : Path) (sources : List SourceText) (catalog : Catalog)
    (hpaths : sources.Pairwise fun s s' => ¬ s.path.Same s'.path) :
    Intact (ofSources root sources catalog) := by
  have hmirrored := ofFiles_mirrored root (readAll sources) catalog
  constructor
  case sources =>
    intro id r hr
    obtain ⟨f, hf, e, he, rfl, hmade⟩ := mem_references hr
    obtain ⟨s, -, hs⟩ := Java.exists_site hmade
    exact Java.reference?_source hs
  case targets =>
    intro id r hr
    obtain ⟨f, hf, e, he, -, hmade⟩ := mem_references hr
    exact Java.target_eq_none_iff ((Java.readAll_consistent hf).proper e he) hmade
  case resolved =>
    intro id r hr target htarget
    obtain ⟨d, hd⟩ := exists_target hr htarget
    exact ⟨d, resolve_of_get? hd⟩
  case libraries =>
    intro id d hd hlibrary
    obtain ⟨hundeclared, hnowhere⟩ := declaration?_of_library hd hlibrary
    refine ⟨references_of_undeclared hundeclared, ?_⟩
    simp [sourceText?, hd, hnowhere]
  case projects => exact fun id d hd hproject => sourceText?_of_project hpaths hd hproject
  case sorted => exact pairwise_referrers hmirrored.nodup
  case mirrored =>
    intro id source kind
    rw [ofSources, hmirrored.mem_referrers, and_iff_right_iff_imp]
    rintro ⟨r, hr, htarget, -⟩
    obtain ⟨d, hd⟩ := exists_target hr htarget
    exact Option.isSome_iff_exists.mpr ⟨d, hd⟩

end

def payroll : List SourceText :=
  [{ path := ⟨"a/A.java"⟩
     text := "package p; class A \x7b void f() \x7b B.g(); \x7d \x7d"
     provenance := { module := "m" } },
   { path := ⟨"a/B.java"⟩
     text := "package p; class B \x7b static void g() \x7b \x7d \x7d"
     provenance := { module := "m" } },
   { path := ⟨"b/B.java"⟩
     text := "package p; class B extends lib.Tax \x7b \x7d"
     provenance := { module := "n" } }]

/-- In three files of which the last one declares a class once more, the callers of a method refer
to it, and the library type that only the repeated class mentions is there without references of its
own. -/
theorem payroll_intact :
    (payroll.Pairwise fun s s' => ¬ s.path.Same s'.path) ∧
      (ofSources ⟨"/"⟩ payroll {}).referrers ⟨"p.B.g"⟩ =
        [(⟨"p.A"⟩, .call), (⟨"p.A.f"⟩, .call)] ∧
      (∃ r ∈ (ofSources ⟨"/"⟩ payroll {}).references ⟨"p.A.f"⟩,
        r.source = ⟨"p.A.f"⟩ ∧ r.target = some ⟨"p.B.g"⟩ ∧ r.kind = .call) ∧
      ∃ d, (ofSources ⟨"/"⟩ payroll {}).get? ⟨"lib.Tax"⟩ = some d ∧
        (ofSources ⟨"/"⟩ payroll {}).references ⟨"lib.Tax"⟩ = [] := by
  have hpaths : payroll.Pairwise fun s s' => ¬ s.path.Same s'.path := by decide +kernel
  have hintact := ofSources_intact ⟨"/"⟩ payroll {} hpaths
  have hreferrers : (ofSources ⟨"/"⟩ payroll {}).referrers ⟨"p.B.g"⟩ =
      [(⟨"p.A"⟩, .call), (⟨"p.A.f"⟩, .call)] := by decide +kernel
  obtain ⟨r, hr, htarget, hkind⟩ :=
    (hintact.mirrored ⟨"p.B.g"⟩ ⟨"p.A.f"⟩ .call).mp (by simp [hreferrers])
  have htax : ((ofSources ⟨"/"⟩ payroll {}).get? ⟨"lib.Tax"⟩).map (·.isLibrary) = some true := by
    decide +kernel
  obtain ⟨d, hd, hlibrary⟩ := Option.map_eq_some_iff.mp htax
  exact ⟨hpaths, hreferrers, ⟨r, hr, hintact.sources _ r hr, htarget, hkind⟩, d, hd,
    (hintact.libraries _ d hd hlibrary).1⟩

end Index

end Carve
