import Carve.Proofs.Index.Sources
import Carve.Proofs.Path

/-!
# What an index of source files holds

An index keeps the first declaration of every name that it is given. The index of some files holds
the declarations that their table knows, and next to them nothing but library types; where no file
is given twice, it holds the files as they were given.
-/

namespace Carve

open Reference (keepFirst)

namespace Index

def Operation.declaration? : Operation → Option Declaration
  | .declaration d => some d
  | _ => none

theorem get?_eq_find? (x : Index) (id : QName) :
    x.get? id = (x.nodes.map (·.decl)).find? (·.id == id) := by
  simp only [get?, node?, List.find?_map, Function.comp_def]

theorem setReferences_decls (x : Index) (source : QName) (rs : List Reference) :
    (x.setReferences source rs).nodes.map (·.decl) = x.nodes.map (·.decl) := by
  unfold setReferences
  split
  · rfl
  · apply List.ext_getElem?
    intro j
    simp only [foldl_addEdge_nodes, List.getElem?_map, List.getElem?_modify]
    cases x.nodes[j]? with
    | none => rfl
    | some n => simp only [Option.map_some]; split <;> rfl

theorem addDeclaration_decls (x : Index) (d : Declaration) :
    (x.addDeclaration d).nodes.map (·.decl) = x.nodes.map (·.decl) ++
      keepFirst (·.id) ((x.nodes.map (·.decl)).map (·.id)) [d] := by
  have hids : (x.nodes.map (·.decl)).map (·.id) = x.nodes.map (·.decl.id) := List.map_map
  rw [keepFirst_cons, hids]
  unfold addDeclaration
  split
  · rename_i i hi
    have htaken : d.id ∈ x.nodes.map (·.decl.id) := by
      by_contra hfree
      rw [(find?_eq_none_iff x d.id).mpr hfree] at hi
      cases hi
    rw [if_pos htaken]
    exact (List.append_nil _).symm
  · rename_i hfree
    rw [if_neg ((find?_eq_none_iff x d.id).mp hfree)]
    simp [keepFirst]

theorem perform_decls (x : Index) (op : Operation) :
    (x.perform op).nodes.map (·.decl) = x.nodes.map (·.decl) ++
      keepFirst (·.id) ((x.nodes.map (·.decl)).map (·.id)) op.declaration?.toList := by
  cases op with
  | unit u => exact (List.append_nil _).symm
  | references source rs => exact (setReferences_decls x source rs).trans (List.append_nil _).symm
  | declaration d => exact addDeclaration_decls x d

/-- Of all declarations of a name the first is kept. -/
theorem build_decls (root : Path) (ops : List Operation) :
    (build root ops).nodes.map (·.decl) =
      keepFirst (·.id) [] (ops.filterMap (·.declaration?)) := by
  rw [List.filterMap_eq_flatMap_toList]
  exact foldl_eq_keepFirst (fun x => x.nodes.map (·.decl)) perform_decls ops (empty root)

theorem build_get? (root : Path) (ops : List Operation) (id : QName) :
    (build root ops).get? id = (ops.filterMap (·.declaration?)).find? (·.id == id) := by
  rw [get?_eq_find?, build_decls]
  exact find?_keepFirst List.not_mem_nil

end Index

theorem Java.collect_libraries {t : Table} {d : Declaration} {imports : Imports}
    {sites : List UseSite} : ∀ l ∈ (Java.collect t d imports sites).libraries,
      l.isLibrary = true ∧ l.location = none ∧ l.parent = none := by
  intro l hl
  obtain ⟨b, -, hb⟩ := List.mem_filterMap.mp (mem_keepFirst hl)
  unfold Bound.library? at hb
  split at hb
  · obtain rfl := Option.some.inj hb
    exact ⟨rfl, rfl, rfl⟩
  · cases hb

namespace Index

section

variable {root : Path} {files : List SourceFile} {catalog : Catalog}

def usedLibraries (files : List SourceFile) (catalog : Catalog) : List Declaration :=
  (bindAll (Table.ofFiles files catalog) files).flatMap (·.2.libraries)

theorem operations_decls (files : List SourceFile) (catalog : Catalog) :
    (operations files catalog).filterMap (·.declaration?) =
      (files.flatMap (·.entries)).filterMap
        (fun e => (Table.ofFiles files catalog).declaration? e.decl.id.text) ++
      usedLibraries files catalog := by
  have hfile : ∀ f : SourceFile, (operationsOf (Table.ofFiles files catalog) f).filterMap
      (·.declaration?) =
        f.entries.filterMap fun e => (Table.ofFiles files catalog).declaration? e.decl.id.text := by
    intro f
    have hunit : Operation.declaration? (.unit (unitOf f)) = none := rfl
    unfold operationsOf
    rw [List.filterMap_cons_none hunit, List.filterMap_filterMap]
    refine List.filterMap_congr fun e _ => ?_
    cases (Table.ofFiles files catalog).declaration? e.decl.id.text <;> rfl
  unfold Index.operations usedLibraries
  rw [List.filterMap_append, List.filterMap_append, List.filterMap_flatMap, List.filterMap_flatMap,
    List.flatMap_congr fun f _ => hfile f]
  simp [List.filterMap_map, Operation.declaration?]

/-- A name stands for what the table has under it, else for a library type. -/
theorem ofFiles_get? (root : Path) (files : List SourceFile) (catalog : Catalog) (id : QName) :
    (ofFiles root files catalog).get? id =
      ((Table.ofFiles files catalog).declaration? id.text).or
        ((usedLibraries files catalog).find? (·.id == id)) := by
  have htable : ((files.flatMap (·.entries)).filterMap
      fun e => (Table.ofFiles files catalog).declaration? e.decl.id.text).find? (·.id == id) =
        (Table.ofFiles files catalog).declaration? id.text := by
    cases hd : (Table.ofFiles files catalog).declaration? id.text with
    | none =>
      refine List.find?_eq_none.mpr fun d hmem hid => ?_
      obtain ⟨e, -, he⟩ := List.mem_filterMap.mp hmem
      have hname := Table.declaration?_id he
      obtain rfl : d.id = id := by simpa using hid
      rw [hname, he] at hd
      cases hd
    | some d =>
      obtain ⟨f, hf, e, he, rfl⟩ := Table.declaration?_mem hd
      have hname : e.decl.id = id := Table.declaration?_id hd
      have hmem : e.decl ∈ (files.flatMap (·.entries)).filterMap
          fun e => (Table.ofFiles files catalog).declaration? e.decl.id.text :=
        List.mem_filterMap.mpr ⟨e, List.mem_flatMap.mpr ⟨f, hf, he⟩, by rw [hname, hd]⟩
      have hsome : (((files.flatMap (·.entries)).filterMap fun e =>
          (Table.ofFiles files catalog).declaration? e.decl.id.text).find? (·.id == id)).isSome :=
        List.find?_isSome.mpr ⟨e.decl, hmem, by simp [hname]⟩
      obtain ⟨first, hfirst⟩ := Option.isSome_iff_exists.mp hsome
      obtain ⟨e', -, he'⟩ := List.mem_filterMap.mp (List.mem_of_find?_eq_some hfirst)
      have hid : first.id = id := by simpa using List.find?_some hfirst
      rw [← congrArg QName.text (Table.declaration?_id he'), hid, hd] at he'
      rw [hfirst, he']
  rw [ofFiles_eq_build, build_get?, operations_decls, List.find?_append, htable]

theorem usedLibraries_library : ∀ d ∈ usedLibraries files catalog,
    d.isLibrary = true ∧ d.location = none ∧ d.parent = none := by
  intro d hd
  obtain ⟨⟨id, c⟩, hbound, hl⟩ := List.mem_flatMap.mp hd
  obtain ⟨f, -, hcollect⟩ := List.mem_flatMap.mp hbound
  obtain ⟨e, -, heq⟩ := List.mem_map.mp hcollect
  obtain ⟨-, rfl⟩ := Prod.mk.inj heq
  exact Java.collect_libraries d hl

theorem mem_ofFiles {d : Declaration}
    (hd : d ∈ (ofFiles root files catalog).nodes.map (·.decl)) :
    (∃ f ∈ files, ∃ e ∈ f.entries, e.decl = d) ∨
      (d.isLibrary = true ∧ d.location = none ∧ d.parent = none) := by
  have hfind := get?_of_mem (ofFiles_distinct root files catalog) hd
  rw [ofFiles_get?] at hfind
  rcases Option.or_eq_some_iff.mp hfind with hfile | ⟨-, hlibrary⟩
  · exact Or.inl (Table.declaration?_mem hfile)
  · exact Or.inr (usedLibraries_library d (List.mem_of_find?_eq_some hlibrary))

/-- No name is given twice, neither within a file nor across files. -/
def NamedOnce (files : List SourceFile) : Prop :=
  ((files.flatMap (·.entries)).map (·.decl.id)).Nodup

theorem find?_of_nodup {α κ : Type} [DecidableEq κ] {key : α → κ} {l : List α}
    (h : (l.map key).Nodup) {a : α} (ha : a ∈ l) : l.find? (key · == key a) = some a := by
  cases hfind : l.find? (key · == key a) with
  | none =>
    have := List.find?_eq_none.mp hfind a ha
    simp at this
  | some b =>
    have hkey : key b = key a := by simpa using List.find?_some hfind
    rw [List.inj_on_of_nodup_map h (List.mem_of_find?_eq_some hfind) ha hkey]

theorem NamedOnce.declaration? (h : NamedOnce files) {f : SourceFile} (hf : f ∈ files) {e : Entry}
    (he : e ∈ f.entries) :
    (Table.ofFiles files catalog).declaration? e.decl.id.text = some e.decl := by
  have hmem : e ∈ files.flatMap (·.entries) := List.mem_flatMap.mpr ⟨f, hf, he⟩
  have hfind := find?_of_nodup h hmem
  rw [Table.declaration?_ofFiles]
  have hsame : (fun x : Entry => x.decl.id.text == e.decl.id.text) =
      fun x => x.decl.id == e.decl.id := by
    funext x
    cases x.decl.id
    cases e.decl.id
    simp
  rw [hsame, hfind]
  rfl

theorem NamedOnce.get? (h : NamedOnce files) {f : SourceFile} (hf : f ∈ files) {e : Entry}
    (he : e ∈ f.entries) : (ofFiles root files catalog).get? e.decl.id = some e.decl := by
  rw [ofFiles_get?, h.declaration? hf he, Option.some_or]

/-! ### The files of an index -/

theorem setFile_new (unit : SourceUnit) {fs : List (Path × SourceUnit)}
    (h : ∀ f ∈ fs, ¬ f.1.Same unit.path) : setFile unit fs = fs ++ [(unit.path, unit)] := by
  induction fs with
  | nil => rfl
  | cons f fs ih =>
    obtain ⟨p, u⟩ := f
    rw [setFile, if_neg (h (p, u) List.mem_cons_self),
      ih fun g hg => h g (List.mem_cons_of_mem _ hg)]
    rfl

theorem addDeclaration_files {x : Index} {d : Declaration}
    (h : ∀ p, d.path? = some p → x.hasFile p = true) : (x.addDeclaration d).files = x.files := by
  unfold addDeclaration
  split
  · rfl
  · dsimp only
    split
    · rename_i p hp
      rw [if_pos (h p hp)]
    · rfl

theorem foldl_addDeclaration_files {ds : List Declaration} (x : Index)
    (h : ∀ d ∈ ds, ∀ p, d.path? = some p → x.hasFile p = true) :
    (ds.foldl addDeclaration x).files = x.files := by
  induction ds generalizing x with
  | nil => rfl
  | cons d ds ih =>
    have hd := addDeclaration_files (h d List.mem_cons_self)
    rw [List.foldl_cons, ih, hd]
    intro e he p hp
    unfold hasFile
    rw [hd]
    exact h e (List.mem_cons_of_mem _ he) p hp

theorem foldl_files {α : Type} {step : Index → α → Index}
    (h : ∀ x a, (step x a).files = x.files) (as : List α) (x : Index) :
    (as.foldl step x).files = x.files := by
  induction as generalizing x with
  | nil => rfl
  | cons a as ih => rw [List.foldl_cons, ih, h]

theorem addEdge_files (source : QName) (x : Index) (r : Reference) :
    (addEdge source x r).files = x.files := by
  unfold addEdge
  split
  · rfl
  · dsimp only
    split <;> rfl

theorem setReferences_files (x : Index) (source : QName) (rs : List Reference) :
    (x.setReferences source rs).files = x.files := by
  unfold setReferences
  split
  · rfl
  · exact foldl_files (addEdge_files source) rs x

theorem addFile_files {t : Table} {x : Index} {f : SourceFile}
    (hnew : ∀ g ∈ x.files, ¬ g.1.Same f.path)
    (hknown : ∀ e ∈ f.entries, ∀ d, t.declaration? e.decl.id.text = some d → ∀ p,
      d.path? = some p → p = f.path ∨ x.hasFile p = true) :
    (addFile t x f).files = x.files ++ [(f.path, unitOf f)] := by
  have hunit : (x.addUnit (unitOf f)).files = x.files ++ [(f.path, unitOf f)] :=
    setFile_new (unitOf f) hnew
  have hfold : addFile t x f = (f.entries.filterMap fun e => t.declaration? e.decl.id.text).foldl
      addDeclaration (x.addUnit (unitOf f)) := by
    unfold addFile
    rw [List.foldl_filterMap]
    refine List.foldl_ext _ _ _ fun y e _ => ?_
    cases t.declaration? e.decl.id.text <;> rfl
  rw [hfold, foldl_addDeclaration_files, hunit]
  intro d hd p hp
  obtain ⟨e, he, hfound⟩ := List.mem_filterMap.mp hd
  unfold hasFile
  rw [hunit, List.any_append, Bool.or_eq_true]
  rcases hknown e he d hfound p hp with rfl | hold
  · exact Or.inr (by simp [Path.Same.refl])
  · exact Or.inl hold

theorem ofFiles_files (root : Path) (catalog : Catalog)
    (hpaths : files.Pairwise fun f g => ¬ f.path.Same g.path)
    (hlocated : ∀ f ∈ files, ∀ e ∈ f.entries, e.decl.path? = some f.path) :
    (ofFiles root files catalog).files = files.map fun f => (f.path, unitOf f) := by
  have main : ∀ (rest done : List SourceFile) (x : Index), done ++ rest = files →
      x.files = done.map (fun f => (f.path, unitOf f)) →
      (rest.foldl (addFile (Table.ofFiles files catalog)) x).files =
        files.map fun f => (f.path, unitOf f) := by
    intro rest
    induction rest with
    | nil =>
      intro done x hsplit hx
      rw [← hsplit, List.append_nil]
      exact hx
    | cons f rest ih =>
      intro done x hsplit hx
      have hnew : ∀ g ∈ x.files, ¬ g.1.Same f.path := by
        rw [hx]
        intro g hg
        obtain ⟨g', hg', rfl⟩ := List.mem_map.mp hg
        rw [← hsplit] at hpaths
        exact (List.pairwise_append.mp hpaths).2.2 g' hg' f List.mem_cons_self
      have hknown : ∀ e ∈ f.entries, ∀ d,
          (Table.ofFiles files catalog).declaration? e.decl.id.text = some d → ∀ p,
          d.path? = some p → p = f.path ∨ x.hasFile p = true := by
        intro e he d hd p hp
        rw [← hsplit] at hd
        obtain ⟨g, hg, e', he', rfl⟩ := Table.declaration?_earlier he hd
        have hgfiles : g ∈ files := hsplit ▸ List.append_cons done f rest ▸
          List.mem_append_left rest hg
        obtain rfl := Option.some.inj ((hlocated g hgfiles e' he').symm.trans hp)
        rcases List.mem_append.mp hg with hg | hg
        · refine Or.inr (List.any_eq_true.mpr ⟨(g.path, unitOf g), ?_, by simp [Path.Same.refl]⟩)
          rw [hx]
          exact List.mem_map_of_mem hg
        · exact Or.inl (congrArg _ (List.mem_singleton.mp hg))
      rw [List.foldl_cons]
      refine ih (done ++ [f]) _ (by simp [hsplit]) ?_
      rw [addFile_files hnew hknown, hx, List.map_append]
      rfl
  unfold ofFiles
  dsimp only
  have hset : ∀ (x : Index) (c : QName × Java.Collected),
      (x.setReferences c.1 c.2.references).files = x.files := fun x c => setReferences_files x _ _
  rw [foldl_files hset, foldl_addDeclaration_files, main files [] (empty root) rfl rfl]
  intro d hd p hp
  rw [Declaration.path?, (usedLibraries_library d hd).2.1] at hp
  cases hp

theorem ofFiles_find?_file (root : Path) (catalog : Catalog)
    (hpaths : files.Pairwise fun f g => ¬ f.path.Same g.path)
    (hlocated : ∀ f ∈ files, ∀ e ∈ f.entries, e.decl.path? = some f.path) {f : SourceFile}
    (hf : f ∈ files) :
    (ofFiles root files catalog).files.find? (fun g => decide (g.1.Same f.path)) =
      some (f.path, unitOf f) := by
  have hapart : (files.map fun g => (g.path, unitOf g)).Pairwise fun g g' => ¬ g.1.Same g'.1 :=
    List.pairwise_map.mpr hpaths
  rw [ofFiles_files root catalog hpaths hlocated]
  exact Path.find?_of_apart hapart (List.mem_map.mpr ⟨f, hf, rfl⟩)

theorem ofFiles_unit? (root : Path) (catalog : Catalog)
    (hpaths : files.Pairwise fun f g => ¬ f.path.Same g.path)
    (hlocated : ∀ f ∈ files, ∀ e ∈ f.entries, e.decl.path? = some f.path) {f : SourceFile}
    (hf : f ∈ files) : (ofFiles root files catalog).unit? f.path = some (unitOf f) := by
  unfold unit? file?
  rw [ofFiles_find?_file root catalog hpaths hlocated hf]
  rfl

end

end Index

end Carve
