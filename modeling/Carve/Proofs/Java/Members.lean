import Carve.Proofs.Index.Lookup
import Carve.Proofs.Java.Bodies
import Mathlib.Data.List.Perm.Basic

/-!
# Members of a type

A type that keeps its types and its fields apart has one declaration for each field and one for all
methods of a name, which knows all of them as overloads and goes by its alias exactly if there is a
field of that name. A lookup in the table of a project, which has nothing to go by but names, finds
the same declarations.
-/

namespace Carve

open QName

theorem Index.NamedOnce.file_eq {files : List SourceFile} (h : NamedOnce files)
    {f g : SourceFile} (hf : f ∈ files) (hg : g ∈ files) {d e : Entry} (hd : d ∈ f.entries)
    (he : e ∈ g.entries) (hid : d.decl.id = e.decl.id) : f = g := by
  unfold NamedOnce at h
  rw [List.map_flatMap, List.nodup_flatMap] at h
  have hdisjoint := List.pairwise_iff_getElem.mp h.2
  have hfid : d.decl.id ∈ f.entries.map (·.decl.id) := List.mem_map.mpr ⟨d, hd, rfl⟩
  have hgid : d.decl.id ∈ g.entries.map (·.decl.id) := List.mem_map.mpr ⟨e, he, hid.symm⟩
  obtain ⟨i, hi, rfl⟩ := List.getElem_of_mem hf
  obtain ⟨j, hj, rfl⟩ := List.getElem_of_mem hg
  rcases Nat.lt_trichotomy i j with hlt | rfl | hlt
  · exact absurd hgid (hdisjoint i j hi hj hlt hfid)
  · rfl
  · exact absurd hfid (hdisjoint j i hj hi hlt hgid)

namespace Java

def declarationsOf (ds : List Declaration) (owner : QName) (kind : MemberKind) (name : String) :
    List Declaration :=
  ds.filter fun d => d.parent == some owner && d.kind == kind.kind && d.name == name

def lookup (t : Table) (kind : MemberKind) (id : QName) : Option Declaration :=
  (t.declaration? id.text).filter (·.kind == kind.kind)

/-- The table knows the members of this type under their names, and nothing else. -/
def Knows (t : Table) (owner : QName) (ds : List Declaration) : Prop :=
  ∀ (kind : MemberKind) (id : QName), Below owner id → ∀ d, lookup t kind id = some d ↔
    (d ∈ ds ∧ d.parent = some owner ∧ d.kind = kind.kind) ∧ d.id = id

section

variable {s : SourceText} {owner : QName} {ws : List Written} {w : Written} {k : MemberKind}
  {ds : List Declaration} {d : Declaration} {t : Table} {x : String}

theorem declaredMember_method (t : Table) (owner : QName) (x : String) :
    declaredMember t owner x .method =
      (lookup t .method (owner.member x)).or (lookup t .method (owner.member x).methodAlias) := by
  unfold declaredMember lookup
  dsimp only
  cases (t.declaration? (owner.member x).text).filter (·.kind == MemberKind.method.kind) <;> rfl

theorem declaredMember_field (t : Table) (owner : QName) (x : String) :
    declaredMember t owner x .field = lookup t .field (owner.member x) := by
  unfold declaredMember lookup
  dsimp only
  cases (t.declaration? (owner.member x).text).filter (·.kind == MemberKind.field.kind) <;> rfl

theorem Merged.lookup_eq (h : Merged s owner ws ds) (ht : Knows t owner ds)
    (hdot : '.' ∉ x.toList) (hparen : ')' ∉ x.toList) {id : QName} (hcalls : Calls owner x id) :
    lookup t k id = if id = settledId owner ws k x then merged s owner ws k x else none := by
  refine Option.ext fun d => ?_
  rw [ht k id (hcalls.below hdot) d, h.listed k d]
  have hname : merged s owner ws k d.name = some d → d.id = id → d.name = x :=
    fun hmerged hid => h.name_eq hparen hmerged (hid ▸ hcalls)
  split
  · rename_i hright
    constructor
    · rintro ⟨hmerged, hid⟩
      exact hname hmerged hid ▸ hmerged
    · intro hmerged
      obtain ⟨hx, -, -, hsettled, -⟩ := merged_some hmerged
      exact ⟨hx ▸ hmerged, hsettled.trans hright.symm⟩
  · rename_i hwrong
    refine iff_of_false ?_ (by simp)
    rintro ⟨hmerged, hid⟩
    obtain ⟨-, -, -, hsettled, -⟩ := merged_some hmerged
    rw [hid, hname hmerged hid] at hsettled
    exact hwrong hsettled

/-- The lookup of a member finds what the members of its name are merged to. -/
theorem Merged.declaredMember_eq (h : Merged s owner ws ds) (ht : Knows t owner ds)
    (hdot : '.' ∉ x.toList) (hparen : ')' ∉ x.toList) :
    declaredMember t owner x k = merged s owner ws k x := by
  have hplain : Calls owner x (owner.member x) := Or.inl rfl
  have halias : Calls owner x (owner.member x).methodAlias := Or.inr rfl
  have hne := methodAlias_ne (owner.member x)
  cases k with
  | field =>
    rw [declaredMember_field, h.lookup_eq ht hdot hparen hplain, settledId_field, if_pos rfl]
  | method =>
    rw [declaredMember_method, h.lookup_eq ht hdot hparen hplain,
      h.lookup_eq ht hdot hparen halias]
    rcases settledId_cases owner ws .method x with hid | ⟨-, -, hid⟩
    · rw [hid, if_pos rfl, if_neg hne, Option.or_none]
    · rw [hid, if_pos rfl, if_neg hne.symm, Option.none_or]

theorem filter_eq_toList {α : Type} {p : α → Bool} {o : Option α} {as : List α} (hnodup : as.Nodup)
    (h : ∀ a, (a ∈ as ∧ p a = true) ↔ o = some a) : as.filter p = o.toList := by
  have hmem : ∀ a, a ∈ as.filter p ↔ o = some a := fun a => List.mem_filter.trans (h a)
  cases o with
  | none => exact List.eq_nil_iff_forall_not_mem.mpr fun a ha => by simpa using (hmem a).mp ha
  | some b =>
    refine List.perm_singleton.mp
      ((List.perm_ext_iff_of_nodup (hnodup.filter p) (List.nodup_singleton b)).mpr fun a => ?_)
    rw [hmem, List.mem_singleton, Option.some.injEq, eq_comm]

theorem Merged.declarationsOf_eq (h : Merged s owner ws ds) (hnodup : ds.Nodup) :
    declarationsOf ds owner k x = (merged s owner ws k x).toList := by
  refine filter_eq_toList hnodup fun d => ?_
  simp only [Bool.and_eq_true, beq_iff_eq]
  constructor
  · rintro ⟨hd, ⟨hparent, hkind⟩, rfl⟩
    exact (h.listed k d).mp ⟨hd, hparent, hkind⟩
  · intro hmerged
    obtain ⟨hname, hkind, hparent, -⟩ := merged_some hmerged
    exact ⟨((h.listed k d).mpr (hname ▸ hmerged)).1, ⟨hparent, hkind⟩, hname⟩

theorem called_field (hapart : Apart ws) (hw : w ∈ ws) (hkind : w.kind = .field) :
    called ws .field w.name = [w] := by
  have hsplit : called ws .field w.name =
      (ws.filter (·.kind == .field)).filter (·.name == w.name) := by
    rw [List.filter_filter]
    exact List.filter_congr fun v _ => Bool.and_comm ..
  have hmem : w ∈ ws.filter (·.kind == .field) := List.mem_filter.mpr ⟨hw, by simp [hkind]⟩
  rw [hsplit]
  refine filter_eq_toList (o := some w) hapart.fields.of_map fun v => ?_
  rw [beq_iff_eq, Option.some.injEq]
  constructor
  · rintro ⟨hv, hname⟩
    exact List.inj_on_of_nodup_map hapart.fields hmem hv hname.symm
  · rintro rfl
    exact ⟨hmem, rfl⟩

theorem merged_field (hapart : Apart ws) (hw : w ∈ ws) (hkind : w.kind = .field) :
    merged s owner ws .field w.name = some (w.alone s owner) := by
  have hsingle : called ws MemberKind.field.kind w.name = [w] := called_field hapart hw hkind
  unfold merged
  rw [hsingle, settledId_field]
  simp [Written.alone, hkind, MemberKind.kind]

theorem outlines_merged (h : merged s owner ws k x = some d) :
    d.outlines = (called ws k.kind x).map (·.outline) := by
  unfold merged at h
  split at h
  · cases h
  · rename_i first rest hcalled
    obtain rfl := Option.some.inj h
    rw [hcalled]
    simp [Declaration.outlines]

def SourceTree.decls (s : SourceTree) : List Declaration := s.read.entries.map (·.decl)

/-- Members of a type are looked up in the file of the type: it is the only one that declares
anything in it. -/
theorem SourceTree.knows {s : SourceTree} {sources : List SourceTree} (catalog : Catalog)
    (hs : s ∈ sources) (h : Index.NamedOnce (sources.map (·.read))) {T : Entry}
    (hT : T ∈ s.read.entries) :
    Knows (Table.ofFiles (sources.map (·.read)) catalog) T.decl.id s.decls := by
  intro k id hbelow d
  have hfile := List.mem_map_of_mem (f := SourceTree.read) hs
  rw [lookup, Option.filter_eq_some_iff, beq_iff_eq]
  constructor
  · rintro ⟨hd, hkind⟩
    obtain ⟨g, hg, e, he, rfl⟩ := Table.declaration?_mem hd
    have hid : e.decl.id = id := Table.declaration?_id hd
    obtain ⟨s', -, rfl⟩ := List.mem_map.mp hg
    have hconsistent := s'.consistent
    have hmember : e.decl.kind.isType = false := by
      rw [hkind]
      cases k <;> rfl
    obtain ⟨p, hp⟩ := Option.ne_none_iff_exists'.mp (hconsistent.members e he hmember)
    obtain rfl := (hconsistent.named e he p hp).owner_eq (hid ▸ hbelow)
    obtain ⟨P, hP, -, hPid⟩ := hconsistent.parents e he _ hp
    have hsame : s.read = s'.read := h.file_eq hfile hg hT hP hPid.symm
    exact ⟨⟨List.mem_map_of_mem (hsame ▸ he), hp, hkind⟩, hid⟩
  · rintro ⟨⟨hd, -, hkind⟩, rfl⟩
    obtain ⟨e, he, rfl⟩ := List.mem_map.mp hd
    exact ⟨h.declaration? hfile he, hkind⟩

end

/-- The members that are written in a type are declared, and found, under the right names. -/
structure MembersOf (s : SourceTree) (T : Declaration) (ws : List Written) : Prop where
  /-- Each field is declared once, under its plain name. -/
  fields : ∀ w ∈ ws, w.kind = .field →
    declarationsOf s.decls T.id .field w.name = [w.alone s T.id]
  /-- All methods of a name are declared together, under the alias if there is a field of the
  name. -/
  methods : ∀ m, called ws .method m ≠ [] → ∃ d, declarationsOf s.decls T.id .method m = [d] ∧
    d.id = (if called ws .field m = [] then T.id.member m else (T.id.member m).methodAlias) ∧
    d.outlines = (called ws .method m).map (·.outline)
  /-- Nothing else is declared. -/
  others : ∀ (kind : MemberKind) (m : String), called ws kind.kind m = [] →
    declarationsOf s.decls T.id kind m = []
  /-- In any project without two declarations of one name these are found, and nothing else. -/
  found : ∀ (sources : List SourceTree) (catalog : Catalog), s ∈ sources →
    Index.NamedOnce (sources.map (·.read)) → ∀ (kind : MemberKind) (m : String),
      '.' ∉ m.toList → ')' ∉ m.toList →
        declaredMember (Table.ofFiles (sources.map (·.read)) catalog) T.id m kind =
          (declarationsOf s.decls T.id kind m).head?

theorem SourceTree.members (s : SourceTree) :
    ∀ T ∈ s.read.entries, T.decl.kind.isType = true →
      ∃ n ∈ s.tree.root.nodes, ReadFrom s.text.toList s.path T.decl n ∧
        (Apart (n.members s.text.toList T.decl) →
          MembersOf s T.decl (n.members s.text.toList T.decl)) := by
  intro T hT htype
  obtain ⟨n, hn, hread, hmerged⟩ := s.told T hT htype
  refine ⟨n, hn, hread, fun hapart => ?_⟩
  have h : Merged s T.decl.id (n.members s.text.toList T.decl) s.decls := hmerged hapart
  have hnodup : s.decls.Nodup := by
    have hids : (s.decls.map (·.id)).Nodup := by
      rw [SourceTree.decls, List.map_map]
      exact s.distinct
    exact hids.of_map
  constructor
  · intro w hw hkind
    rw [h.declarationsOf_eq hnodup, merged_field hapart hw hkind]
    rfl
  · intro m hm
    have hsome : merged s T.decl.id (n.members s.text.toList T.decl) .method m ≠ none :=
      fun hnone => hm (merged_eq_none_iff.mp hnone)
    obtain ⟨d, hd⟩ := Option.ne_none_iff_exists'.mp hsome
    refine ⟨d, ?_, ?_, outlines_merged hd⟩
    · rw [h.declarationsOf_eq hnodup, hd]
      rfl
    · rw [(merged_some hd).2.2.2.1, settledId]
      by_cases hfield : called (n.members s.text.toList T.decl) .field m = []
      · simp [hfield]
      · simp [hfield]
  · intro kind m hm
    rw [h.declarationsOf_eq hnodup, merged_eq_none_iff.mpr hm]
    rfl
  · intro sources catalog hs hnamed kind m hdot hparen
    rw [h.declaredMember_eq (SourceTree.knows catalog hs hnamed hT) hdot hparen,
      h.declarationsOf_eq hnodup]
    cases merged s T.decl.id (n.members s.text.toList T.decl) kind m <;> rfl

/-- Whatever the order of its members, a type that keeps its types and its fields apart has one
declaration for each field and one for all methods of a name, and these are what is found. -/
theorem readSource_members (s : SourceText) :
    ∀ T ∈ s.read.entries, T.decl.kind.isType = true →
      ∃ n ∈ (parse s.text.toList).nodes, ReadFrom s.text.toList s.path T.decl n ∧
        (Apart (n.members s.text.toList T.decl) →
          MembersOf s.parsed T.decl (n.members s.text.toList T.decl)) :=
  s.parsed.members

def crossed : SourceText :=
  { path := ⟨"src/p/A.java"⟩
    text := "package p; class A \x7b int a, c; void a() \x7b\x7d class B \x7b void b() \x7b\x7d " ++
      "int b; void b(int i) \x7b\x7d void c() \x7b\x7d \x7d void a(int i) \x7b\x7d \x7d"
    provenance := { module := "m" } }

/-- Both types of the file keep what they hold apart. The methods called `b` are found together
under their alias. -/
theorem crossed_members :
    ∃ T ∈ crossed.read.entries, T.decl.id = ⟨"p.A.B"⟩ ∧ ∃ ws, MembersOf crossed.parsed T.decl ws ∧
      (declaredMember (Table.ofFiles [crossed.read] {}) T.decl.id "b" .method).map
        (fun d => (d.id.text, d.outlines.length)) = some ("p.A.B.b()", 2) := by
  have hentry : ∃ T ∈ crossed.read.entries, T.decl.kind.isType = true ∧ T.decl.id = ⟨"p.A.B"⟩ ∧
      ∀ n ∈ (parse crossed.text.toList).nodes, typeKind? n.kind = some T.decl.kind →
        Apart (n.members crossed.text.toList T.decl) := by decide +kernel
  obtain ⟨T, hT, htype, hid, hapart⟩ := hentry
  obtain ⟨n, hn, hread, hmembers⟩ := readSource_members crossed T hT htype
  have h := hmembers (hapart n hn hread.kind)
  have hnamed : Index.NamedOnce ([crossed.parsed].map (·.read)) := by
    unfold Index.NamedOnce
    decide +kernel
  refine ⟨T, hT, hid, _, h, ?_⟩
  have hfound := h.found [crossed.parsed] {} (by simp) hnamed .method "b" (by decide) (by decide)
  rw [List.map_singleton, SourceText.read_parsed] at hfound
  rw [hfound, hid]
  decide +kernel

end Java

end Carve
