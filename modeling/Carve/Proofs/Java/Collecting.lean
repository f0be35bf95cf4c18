import Carve.Java.Unit
import Carve.Proofs.Java.Coverage
import Carve.Proofs.Java.Targets

/-!
# What is collected for a declaration

The use sites of a declaration are bound one by one, and what they come to is collected in two
lists, of references and of library types. Repetitions are left out of each list on its own, and
yet the lists fit together: a target is declared or listed, and what is listed is a target.
-/

namespace Carve.Java

section

variable {t : Table} {d : Declaration} {imports : Imports} {sites : List UseSite} {s : UseSite}
  {b : Bound} {r : Reference}

theorem reference?_source (h : b.reference? d s = some r) : r.source = d.id := by
  cases b with
  | project target name =>
    simp only [Bound.reference?] at h
    split at h
    · contradiction
    · obtain rfl := Option.some.inj h
      rfl
  | library target owner name =>
    obtain rfl := Option.some.inj h
    rfl
  | unresolved name =>
    obtain rfl := Option.some.inj h
    rfl
  | nothing => contradiction

theorem outside_of_project {target : QName} {name : String}
    (h : (Bound.project target name).reference? d s = some r) :
    target ≠ d.id ∧ (d.kind.isType = true → isWithin target d.id = false) := by
  simp only [Bound.reference?] at h
  split at h
  · contradiction
  · rename_i hout
    simp only [Bool.or_eq_true, Bool.and_eq_true, beq_iff_eq, not_or, not_and,
      Bool.not_eq_true] at hout
    exact ⟨hout.2, hout.1⟩

def boundAt (t : Table) (d : Declaration) (imports : Imports) (s : UseSite) : Bound :=
  bindMention t ⟨imports, chainOf t d⟩ s.mention

theorem boundAt_sound (s : UseSite) : (boundAt t d imports s).Sound t :=
  bindMention_sound (chainOf_known d) s.mention

theorem references_eq_keepFirst : (collect t d imports sites).references =
    Reference.keepFirst Reference.key []
      (sites.filterMap fun s => (boundAt t d imports s).reference? d s) := by
  rw [collect_def]
  unfold boundAt Reference.dedup
  simp only [List.filterMap_map, Function.comp_def]

theorem libraries_eq_keepFirst : (collect t d imports sites).libraries =
    Reference.keepFirst (·.id) [] (sites.filterMap fun s => (boundAt t d imports s).library?) := by
  rw [collect_def]
  unfold boundAt
  simp only [List.filterMap_map, Function.comp_def]

theorem exists_site (h : r ∈ (collect t d imports sites).references) :
    ∃ s ∈ sites, (boundAt t d imports s).reference? d s = some r := by
  rw [references_eq_keepFirst] at h
  exact List.mem_filterMap.mp (mem_keepFirst h)

theorem target_eq_none_iff (hproper : Proper sites)
    (h : r ∈ (collect t d imports sites).references) : r.target = none ↔ r.kind = .unresolved := by
  obtain ⟨s, hs, hr⟩ := exists_site h
  obtain ⟨-, hnone, hsome⟩ := reference?_target hr
  refine ⟨hnone, fun hkind => ?_⟩
  by_contra htarget
  exact hproper s hs ((hsome htarget).symm.trans hkind)

theorem target_known (h : r ∈ (collect t d imports sites).references) {target : QName}
    (htarget : r.target = some target) : (∃ d', t.declaration? target.text = some d') ∨
      ∃ l ∈ (collect t d imports sites).libraries, l.id = target := by
  obtain ⟨s, hs, hr⟩ := exists_site h
  have hbound := (reference?_target hr).1.symm.trans htarget
  have hsound : (boundAt t d imports s).Sound t := boundAt_sound s
  cases hb : boundAt t d imports s with
  | project id name =>
    rw [hb] at hbound hsound
    obtain rfl := Option.some.inj hbound
    exact Or.inl hsound
  | library id owner name =>
    rw [hb] at hbound
    obtain rfl := Option.some.inj hbound
    have hused : Declaration.library id owner ∈
        sites.filterMap fun s => (boundAt t d imports s).library? :=
      List.mem_filterMap.mpr ⟨s, hs, by rw [hb]; rfl⟩
    rw [libraries_eq_keepFirst]
    exact Or.inr (exists_keepFirst hused List.not_mem_nil)
  | unresolved name =>
    rw [hb] at hbound
    cases hbound
  | nothing =>
    rw [hb] at hbound
    cases hbound

/-! ### Repetitions -/

theorem key_eq {r' : Reference} (hsource : r.source = r'.source) (htarget : r.target = r'.target)
    (hkind : r.kind = r'.kind) (hname : r.target = none → r.name = r'.name) : r.key = r'.key := by
  unfold Reference.key
  rw [hsource, ← htarget, hkind]
  cases ht : r.target with
  | some target => rfl
  | none => rw [hname ht]

/-- A reference that is left out is left out for one to the same target. -/
theorem target_of_key {r' : Reference} (hkey : r.key = r'.key)
    (hsome : r'.target ≠ none) {target : QName} (htarget : r.target = some target) :
    r'.target = some target := by
  obtain ⟨target', htarget'⟩ := Option.ne_none_iff_exists'.mp hsome
  simp only [Reference.key, htarget, htarget', Prod.mk.injEq] at hkey
  rw [htarget']
  exact congrArg some (congrArg QName.mk hkey.2.1).symm

/-- What is listed is a target: the reference that brought the library type is kept, or another
one to the same target. -/
theorem library_targeted (hproper : Proper sites) {l : Declaration}
    (hl : l ∈ (collect t d imports sites).libraries) :
    ∃ r ∈ (collect t d imports sites).references, r.target = some l.id := by
  rw [libraries_eq_keepFirst] at hl
  obtain ⟨s, hs, hlibrary⟩ := List.mem_filterMap.mp (mem_keepFirst hl)
  cases hb : boundAt t d imports s with
  | library id owner name =>
    rw [hb] at hlibrary
    obtain rfl := Option.some.inj hlibrary
    have hmade : (⟨d.id, some id, s.kind, name, s.range⟩ : Reference) ∈
        sites.filterMap fun s => (boundAt t d imports s).reference? d s :=
      List.mem_filterMap.mpr ⟨s, hs, by rw [hb]; rfl⟩
    have hkept : ∃ r ∈ (collect t d imports sites).references,
        r.key = Reference.key ⟨d.id, some id, s.kind, name, s.range⟩ := by
      rw [references_eq_keepFirst]
      exact exists_keepFirst hmade List.not_mem_nil
    obtain ⟨r, hr, hkey⟩ := hkept
    have hkind : r.kind = s.kind := congrArg (·.2.2) hkey
    have hsome : r.target ≠ none := fun hnone =>
      hproper s hs (hkind.symm.trans ((target_eq_none_iff hproper hr).mp hnone))
    exact ⟨r, hr, target_of_key hkey.symm hsome rfl⟩
  | project id name =>
    rw [hb] at hlibrary
    cases hlibrary
  | unresolved name =>
    rw [hb] at hlibrary
    cases hlibrary
  | nothing =>
    rw [hb] at hlibrary
    cases hlibrary

end

/-- What is collected for a declaration from its use sites holds together. -/
structure WellFormed (t : Table) (d : Declaration) (imports : Imports) (sites : List UseSite)
    (c : Collected) : Prop where
  source : ∀ r ∈ c.references, r.source = d.id
  unresolved_iff : ∀ r ∈ c.references, r.target = none ↔ r.kind = .unresolved
  /-- References of one kind differ in their targets or, where those are missing, in their names. -/
  once : c.references.Pairwise fun r r' =>
    r.target = r'.target → r.kind = r'.kind → r.target = none ∧ r.name ≠ r'.name
  known : ∀ r ∈ c.references, ∀ q, r.target = some q →
    (∃ d', t.declaration? q.text = some d') ∨ ∃ l ∈ c.libraries, l.id = q
  distinct : (c.libraries.map (·.id)).Nodup
  targeted : ∀ l ∈ c.libraries, ∃ r ∈ c.references, r.target = some l.id
  made : ∀ r ∈ c.references, ∃ s ∈ sites, (boundAt t d imports s).reference? d s = some r
  /-- What a use site has from a project declaration leads out of the declaration. -/
  outside : ∀ r ∈ c.references, ∀ s ∈ sites, (boundAt t d imports s).reference? d s = some r →
    ∀ q name, boundAt t d imports s = .project q name →
      r.target = some q ∧ q ≠ d.id ∧ (d.kind.isType = true → isWithin q d.id = false)

theorem collect_wellFormed (t : Table) (d : Declaration) (imports : Imports)
    {sites : List UseSite} (hproper : Proper sites) :
    WellFormed t d imports sites (collect t d imports sites) := by
  have hsource : ∀ r ∈ (collect t d imports sites).references, r.source = d.id := by
    intro r hr
    obtain ⟨s, -, hs⟩ := exists_site hr
    exact reference?_source hs
  constructor
  case source => exact hsource
  case unresolved_iff => exact fun r hr => target_eq_none_iff hproper hr
  case once =>
    have hkeys : ((collect t d imports sites).references.map Reference.key).Nodup := by
      rw [references_eq_keepFirst]
      exact nodup_keepFirst _ _ _
    refine (List.pairwise_map.mp hkeys).imp_of_mem fun {r r'} hr hr' hne htarget hkind => ?_
    have hsame : r.source = r'.source := (hsource r hr).trans (hsource r' hr').symm
    constructor
    · by_contra hsome
      exact hne (key_eq hsame htarget hkind fun hnone => absurd hnone hsome)
    · exact fun hname => hne (key_eq hsame htarget hkind fun _ => hname)
  case known => exact fun r hr q hq => target_known hr hq
  case distinct =>
    rw [libraries_eq_keepFirst]
    exact nodup_keepFirst _ _ _
  case targeted => exact fun l hl => library_targeted hproper hl
  case made => exact fun r hr => exists_site hr
  case outside =>
    intro r _ s _ hmade q name hb
    rw [hb] at hmade
    exact ⟨(reference?_target hmade).1, outside_of_project hmade⟩

def office : Table :=
  Table.ofFiles [readSource "package p; class A \x7b void f() \x7b\x7d void g() \x7b\x7d \x7d" ⟨"A.java"⟩
    { module := "m" }] {}

def clerk : Declaration :=
  { id := ⟨"p.A.f"⟩, name := "f", kind := .method, origin := .project "m", parent := some ⟨"p.A"⟩ }

def errands : List UseSite :=
  [⟨.call, .call (.mk "f" .implicit), none⟩, ⟨.call, .call (.mk "g" .implicit), none⟩,
   ⟨.call, .call (.mk "g" .implicit), none⟩, ⟨.instantiation, .type "lib.Tax", none⟩,
   ⟨.typeUse, .type "Nobody", none⟩]

/-- A call of the method itself and a repetition are left out, and the library type is listed. -/
theorem errands_wellFormed : Proper errands ∧
    WellFormed office clerk { package := some "p" } errands
      (collect office clerk { package := some "p" } errands) ∧
    (collect office clerk { package := some "p" } errands).references =
      [⟨⟨"p.A.f"⟩, some ⟨"p.A.g"⟩, .call, "g", none⟩,
       ⟨⟨"p.A.f"⟩, some ⟨"lib.Tax"⟩, .instantiation, "lib.Tax", none⟩,
       ⟨⟨"p.A.f"⟩, none, .unresolved, "Nobody", none⟩] ∧
    (collect office clerk { package := some "p" } errands).libraries.map (·.id) =
      [⟨"lib.Tax"⟩] := by
  have hproper : Proper errands := by unfold Proper; decide
  exact ⟨hproper, collect_wellFormed office clerk _ hproper, by decide +kernel, by decide +kernel⟩

end Carve.Java
