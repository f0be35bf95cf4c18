import Carve.Proofs.KeepFirst
import Carve.Table

/-!
# The table of a project

Files enter the table one after the other, their declarations in source order. The table keeps
the first declaration of every name.
-/

namespace Carve.Table

open Reference (keepFirst)

def rowName (row : Entry × Imports) : String := row.1.decl.id.text

def rowsOf (f : SourceFile) : List (Entry × Imports) := f.entries.map fun e => (e, f.imports)

theorem rows_addEntry (imports : Imports) (t : Table) (e : Entry) :
    (addEntry imports t e).rows =
      t.rows ++ keepFirst rowName (t.rows.map rowName) [(e, imports)] := by
  unfold addEntry
  split
  · rename_i row hrow
    have hname : rowName row = e.decl.id.text := by simpa [rowName] using List.find?_some hrow
    have htaken : rowName (e, imports) ∈ t.rows.map rowName :=
      List.mem_map.mpr ⟨row, List.mem_of_find?_eq_some hrow, hname⟩
    rw [keepFirst_cons, if_pos htaken]
    exact (List.append_nil _).symm
  · rename_i hfree
    have hnew : rowName (e, imports) ∉ t.rows.map rowName := by
      intro hmem
      obtain ⟨row, hrow, hname⟩ := List.mem_map.mp hmem
      have := List.find?_eq_none.mp hfree row hrow
      simp only [beq_iff_eq] at this
      exact this hname
    rw [keepFirst_cons, if_neg hnew]
    rfl

theorem rows_addFile (t : Table) (f : SourceFile) :
    (t.addFile f).rows = t.rows ++ keepFirst rowName (t.rows.map rowName) (rowsOf f) := by
  have hentries : ∀ t : Table, (f.entries.foldl (addEntry f.imports) t).rows =
      t.rows ++ keepFirst rowName (t.rows.map rowName) (rowsOf f) := by
    intro t
    have := foldl_eq_keepFirst Table.rows (rows_addEntry f.imports) f.entries t
    rwa [← List.map_eq_flatMap] at this
  unfold addFile
  rw [hentries]
  split
  · split <;> rfl
  · rfl

theorem rows_ofFiles (files : List SourceFile) (catalog : Catalog) :
    (ofFiles files catalog).rows = keepFirst rowName [] (files.flatMap rowsOf) :=
  foldl_eq_keepFirst Table.rows rows_addFile files { catalog }

/-- Of all declarations of a name the first counts. -/
theorem declaration?_ofFiles (files : List SourceFile) (catalog : Catalog) (id : String) :
    (ofFiles files catalog).declaration? id =
      ((files.flatMap (·.entries)).find? (·.decl.id.text == id)).map (·.decl) := by
  have hrow : (ofFiles files catalog).row? id =
      (files.flatMap rowsOf).find? (rowName · == id) := by
    unfold row?
    rw [rows_ofFiles]
    exact find?_keepFirst List.not_mem_nil
  have hentries : (files.flatMap rowsOf).map (·.1) = files.flatMap (·.entries) := by
    simp [rowsOf, List.map_flatMap, Function.comp_def]
  unfold declaration?
  rw [hrow, ← hentries, List.find?_map, Option.map_map]
  rfl

theorem declaration?_append (files more : List SourceFile) (catalog : Catalog) (id : String) :
    (ofFiles (files ++ more) catalog).declaration? id =
      ((ofFiles files catalog).declaration? id).or ((ofFiles more catalog).declaration? id) := by
  simp only [declaration?_ofFiles, List.flatMap_append, List.find?_append, Option.map_or]

theorem declaration?_id {t : Table} {id : String} {d : Declaration}
    (h : t.declaration? id = some d) : d.id = ⟨id⟩ := by
  obtain ⟨row, hrow, rfl⟩ := Option.map_eq_some_iff.mp h
  have htext : row.1.decl.id.text = id := by simpa using List.find?_some hrow
  rw [← htext]

theorem declaration?_mem {files : List SourceFile} {catalog : Catalog} {id : String}
    {d : Declaration} (h : (ofFiles files catalog).declaration? id = some d) :
    ∃ f ∈ files, ∃ e ∈ f.entries, e.decl = d := by
  rw [declaration?_ofFiles] at h
  obtain ⟨e, he, rfl⟩ := Option.map_eq_some_iff.mp h
  obtain ⟨f, hf, hef⟩ := List.mem_flatMap.mp (List.mem_of_find?_eq_some he)
  exact ⟨f, hf, e, hef, rfl⟩

theorem exists_declaration? {files : List SourceFile} (catalog : Catalog) {f : SourceFile}
    (hf : f ∈ files) {e : Entry} (he : e ∈ f.entries) :
    ∃ d, (ofFiles files catalog).declaration? e.decl.id.text = some d := by
  rw [declaration?_ofFiles]
  have hsome : ((files.flatMap (·.entries)).find? (·.decl.id.text == e.decl.id.text)).isSome :=
    List.find?_isSome.mpr ⟨e, List.mem_flatMap.mpr ⟨f, hf, he⟩, by simp⟩
  obtain ⟨first, hfirst⟩ := Option.isSome_iff_exists.mp hsome
  exact ⟨first.decl, by rw [hfirst]; rfl⟩

theorem declaration?_earlier {front rest : List SourceFile} {f : SourceFile} {catalog : Catalog}
    {e : Entry} (he : e ∈ f.entries) {d : Declaration}
    (h : (ofFiles (front ++ f :: rest) catalog).declaration? e.decl.id.text = some d) :
    ∃ g ∈ front ++ [f], ∃ e' ∈ g.entries, e'.decl = d := by
  have hmem : f ∈ front ++ [f] := by simp
  obtain ⟨d', hd'⟩ := exists_declaration? catalog hmem he
  rw [List.append_cons, declaration?_append, hd', Option.some_or] at h
  obtain rfl := Option.some.inj h
  exact declaration?_mem hd'

/-! ### Tables that agree -/

/-- The same rows and packages in whatever order, no name twice. -/
structure Agree (t t' : Table) : Prop where
  rows : t.rows.Perm t'.rows
  distinct : (t.rows.map rowName).Nodup
  packages : ∀ p, p ∈ t.packages ↔ p ∈ t'.packages
  catalog : t.catalog = t'.catalog

namespace Agree

variable {t t' : Table}

theorem row? (h : t.Agree t') : t.row? = t'.row? :=
  funext fun id => find?_eq_of_mem_iff (fun _ => h.rows.mem_iff)
    (fun _ ha _ hb heq => List.inj_on_of_nodup_map h.distinct ha hb heq) id

theorem size (h : t.Agree t') : t.size = t'.size := h.rows.length_eq

theorem declaration? (h : t.Agree t') : t.declaration? = t'.declaration? := by
  funext id
  rw [Table.declaration?, h.row?, Table.declaration?]

theorem imports? (h : t.Agree t') : t.imports? = t'.imports? := by
  funext id
  rw [Table.imports?, h.row?, Table.imports?]

theorem supertypes (h : t.Agree t') : t.supertypes = t'.supertypes := by
  funext id
  rw [Table.supertypes, h.row?, Table.supertypes]

theorem isProjectPackage (h : t.Agree t') : t.isProjectPackage = t'.isProjectPackage := by
  funext p
  rw [Bool.eq_iff_iff]
  simp [Table.isProjectPackage, h.packages]

theorem libraryFor? (h : t.Agree t') : t.libraryFor? = t'.libraryFor? := by
  funext p
  rw [Table.libraryFor?, h.catalog, Table.libraryFor?]

theorem methodsNamed (h : t.Agree t') (name : String) :
    (t.methodsNamed name).Perm (t'.methodsNamed name) := (h.rows.filter _).map _

end Agree

theorem foldl_addEntry_frame (imports : Imports) (es : List Entry) (t : Table) :
    (es.foldl (addEntry imports) t).packages = t.packages ∧
      (es.foldl (addEntry imports) t).catalog = t.catalog := by
  induction es generalizing t with
  | nil => exact ⟨rfl, rfl⟩
  | cons e es ih =>
    have hstep : (addEntry imports t e).packages = t.packages ∧
        (addEntry imports t e).catalog = t.catalog := by
      unfold addEntry
      split <;> exact ⟨rfl, rfl⟩
    rw [List.foldl_cons, (ih _).1, (ih _).2]
    exact hstep

theorem addFile_catalog (t : Table) (f : SourceFile) : (t.addFile f).catalog = t.catalog := by
  unfold addFile
  rw [(foldl_addEntry_frame _ _ _).2]
  split
  · split <;> rfl
  · rfl

theorem mem_addFile_packages {t : Table} {f : SourceFile} {p : String} :
    p ∈ (t.addFile f).packages ↔ p ∈ t.packages ∨ f.imports.package = some p := by
  unfold addFile
  rw [(foldl_addEntry_frame _ _ _).1]
  cases hpackage : f.imports.package with
  | none => simp
  | some package =>
    dsimp only
    split
    · rename_i hold
      refine ⟨Or.inl, ?_⟩
      rintro (hp | hp)
      · exact hp
      · obtain rfl := Option.some.inj hp
        simpa using hold
    · simp [eq_comm]

theorem ofFiles_catalog (files : List SourceFile) (catalog : Catalog) :
    (ofFiles files catalog).catalog = catalog := by
  have main : ∀ t : Table, (files.foldl addFile t).catalog = t.catalog := by
    induction files with
    | nil => exact fun _ => rfl
    | cons f files ih => exact fun t => (ih _).trans (addFile_catalog t f)
  exact main _

theorem mem_ofFiles_packages {files : List SourceFile} {catalog : Catalog} {p : String} :
    p ∈ (ofFiles files catalog).packages ↔ ∃ f ∈ files, f.imports.package = some p := by
  have main : ∀ t : Table, p ∈ (files.foldl addFile t).packages ↔
      p ∈ t.packages ∨ ∃ f ∈ files, f.imports.package = some p := by
    induction files with
    | nil => simp
    | cons f files ih =>
      intro t
      rw [List.foldl_cons, ih, mem_addFile_packages, or_assoc, List.exists_mem_cons_iff]
  unfold ofFiles
  simpa using main { catalog }

/-- Files that share no names may come in any order. -/
theorem agree_ofFiles {files files' : List SourceFile} (catalog : Catalog)
    (h : files.Perm files') (hnames : ((files.flatMap (·.entries)).map (·.decl.id)).Nodup) :
    (ofFiles files catalog).Agree (ofFiles files' catalog) := by
  have hrows : ∀ fs : List SourceFile, ((fs.flatMap (·.entries)).map (·.decl.id)).Nodup →
      (ofFiles fs catalog).rows = fs.flatMap rowsOf ∧ ((fs.flatMap rowsOf).map rowName).Nodup := by
    intro fs hfs
    have hnodup : ((fs.flatMap rowsOf).map rowName).Nodup := by
      have htext : (fs.flatMap rowsOf).map rowName =
          ((fs.flatMap (·.entries)).map (·.decl.id)).map (·.text) := by
        simp [rowsOf, rowName, List.map_flatMap, Function.comp_def]
      rw [htext]
      exact hfs.map fun _ _ => congrArg QName.mk
    exact ⟨rows_ofFiles fs catalog ▸ keepFirst_of_nodup hnodup fun _ _ => List.not_mem_nil, hnodup⟩
  have hperm : ((files.flatMap (·.entries)).map (·.decl.id)).Perm
      ((files'.flatMap (·.entries)).map (·.decl.id)) := (h.flatMap_right _).map _
  obtain ⟨hleft, hdistinct⟩ := hrows files hnames
  obtain ⟨hright, -⟩ := hrows files' (hperm.nodup_iff.mp hnames)
  constructor
  · rw [hleft, hright]
    exact h.flatMap_right _
  · rw [hleft]
    exact hdistinct
  · intro p
    simp only [mem_ofFiles_packages, h.mem_iff]
  · rw [ofFiles_catalog, ofFiles_catalog]

end Carve.Table
