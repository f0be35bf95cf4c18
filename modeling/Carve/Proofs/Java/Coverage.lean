import Carve.Indexing
import Carve.Proofs.Java.Enclosure
import Mathlib.Data.List.Nodup

/-!
# What a type needs for what it encloses

A type has the use sites of everything it encloses, but they are bound from its own place. Types
in between are not seen from there, nor what they inherit. A target outside of the type that a
declaration inside needs is missing from the targets of the type only if it is the target of a
site that one of the types in between answers.
-/

namespace Carve.Java

section

variable {t : Table} {imports : Imports} {inner : List Declaration} {outer : QName}

theorem resolveInChain_within (h : ∀ N ∈ inner, isWithin N.id outer = true) {word : String}
    {d : Declaration} (hd : resolveInChain t word inner = some d) :
    isWithin d.id outer = true := by
  obtain ⟨N, hN, hanswer⟩ := List.exists_of_findSome?_eq_some hd
  by_cases hname : (N.name == word) = true
  · rw [if_pos hname] at hanswer
    obtain rfl := Option.some.inj hanswer
    exact h N hN
  · rw [if_neg hname] at hanswer
    have hmember : d.id = N.id.member word :=
      Table.declaration?_id (Option.filter_eq_some_iff.mp hanswer).1
    rw [hmember]
    exact isWithin_trans (isWithin_member N.id word) (h N hN)

theorem resolveSimple_within (imports : Imports) (h : ∀ N ∈ inner, isWithin N.id outer = true)
    (rest : List Declaration) {word : String} (hword : (resolveInChain t word inner).isSome) :
    ∃ d, resolveSimple t ⟨imports, inner ++ rest⟩ word = .project d ∧
      isWithin d.id outer = true := by
  obtain ⟨d, hd⟩ := Option.isSome_iff_exists.mp hword
  have hchain : resolveInChain t word (inner ++ rest) = some d := by
    unfold resolveInChain at hd ⊢
    rw [List.findSome?_append, hd, Option.some_or]
  refine ⟨d, ?_, resolveInChain_within h hd⟩
  unfold resolveSimple
  simp only [hchain]

theorem descend_within {d : Declaration} (h : isWithin d.id outer = true) (written : String) :
    descend t written (.project d) = .unknown ∨
      ∃ d', descend t written (.project d) = .project d' ∧ isWithin d'.id outer = true := by
  unfold descend
  dsimp only
  split
  · exact Or.inr ⟨d, rfl, h⟩
  · split
    · rename_i d' hd'
      refine Or.inr ⟨d', rfl, ?_⟩
      rw [Table.declaration?_id hd']
      exact isWithin_trans (isWithin_member d.id _) h
    · exact Or.inl rfl

theorem typeMention_within (h : ∀ N ∈ inner, isWithin N.id outer = true)
    (rest : List Declaration) {written : String}
    (hanswer : answers t imports inner (.type written) = true) {q : QName}
    (hq : (bindMention t ⟨imports, inner ++ rest⟩ (.type written)).target? = some q) :
    isWithin q outer = true := by
  obtain ⟨word, hlead, hword⟩ := (Option.any_eq_true _ _).mp hanswer
  obtain ⟨d, hd, hwithin⟩ := resolveSimple_within imports h rest hword
  have htype : resolveType t ⟨imports, inner ++ rest⟩ written = descend t written (.project d) := by
    rw [resolveType_of_lead _ hlead, hd]
  rcases descend_within (t := t) hwithin written with hnone | ⟨d', hd', hwithin'⟩
  · simp [bindMention_type, htype, hnone, Bound.target?] at hq
  · have : d'.id = q := by simpa [bindMention_type, htype, hd', Bound.target?] using hq
    exact this ▸ hwithin'

end

def targetFrom (t : Table) (imports : Imports) (d : Declaration) (m : Mention) : Option QName :=
  (bindMention t ⟨imports, chainOf t d⟩ m).target?

def madeReferences (t : Table) (f : SourceFile) (e : Entry) : List Reference :=
  e.sites.filterMap fun s =>
    (bindMention t ⟨f.imports, chainOf t e.decl⟩ s.mention).reference? e.decl s

def boundTargets (t : Table) (f : SourceFile) (e : Entry) : List QName :=
  (collect t e.decl f.imports e.sites).references.filterMap (·.target)

/-- Neither the type nor anything in it. -/
def Outside (T : Declaration) (q : QName) : Prop := q ≠ T.id ∧ isWithin q T.id = false

section

variable {t : Table} {f : SourceFile} {e : Entry} {q : QName}

theorem reference?_target {source : Declaration} {site : UseSite} {b : Bound} {r : Reference}
    (h : b.reference? source site = some r) :
    r.target = b.target? ∧ (r.target = none → r.kind = .unresolved) ∧
      (r.target ≠ none → r.kind = site.kind) := by
  cases b with
  | project target name =>
    simp only [Bound.reference?] at h
    split at h
    · contradiction
    · obtain rfl := Option.some.inj h
      exact ⟨rfl, by simp, by simp⟩
  | library target owner name =>
    obtain rfl := Option.some.inj h
    exact ⟨rfl, by simp, by simp⟩
  | unresolved name =>
    obtain rfl := Option.some.inj h
    exact ⟨rfl, by simp, by simp⟩
  | nothing => contradiction

theorem exists_reference? {source : Declaration} (site : UseSite) {b : Bound}
    (h : b.target? = some q) (hout : Outside source q) :
    ∃ r, b.reference? source site = some r := by
  cases b with
  | project target name =>
    obtain rfl : target = q := Option.some.inj h
    refine ⟨⟨source.id, some target, site.kind, name, site.range⟩, ?_⟩
    simp only [Bound.reference?]
    rw [if_neg (by simp [hout.1, hout.2])]
  | library target owner name => exact ⟨_, rfl⟩
  | unresolved name => contradiction
  | nothing => contradiction

theorem Outside.mono {T D : Declaration} (hout : Outside T q) (h : isWithin D.id T.id = true) :
    Outside D q := by
  constructor
  · intro hq
    have := hout.2
    rw [hq, h] at this
    contradiction
  · rw [Bool.eq_false_iff]
    intro hq
    have := isWithin_trans hq h
    rw [hout.2] at this
    contradiction

theorem collect_references (t : Table) (f : SourceFile) (e : Entry) :
    (collect t e.decl f.imports e.sites).references = Reference.dedup (madeReferences t f e) := by
  rw [collect_def, madeReferences]
  simp only [List.filterMap_map, Function.comp_def]

theorem mem_boundTargets (hproper : Proper e.sites) (hout : Outside e.decl q) :
    q ∈ boundTargets t f e ↔
      ∃ s ∈ e.sites, targetFrom t f.imports e.decl s.mention = some q := by
  unfold boundTargets
  rw [collect_references, Reference.dedup, List.mem_filterMap]
  constructor
  · rintro ⟨r, hr, hq⟩
    obtain ⟨s, hs, hbound⟩ := List.mem_filterMap.mp (mem_keepFirst hr)
    exact ⟨s, hs, (reference?_target hbound).1.symm.trans hq⟩
  · rintro ⟨s, hs, hq⟩
    obtain ⟨r, hr⟩ := exists_reference? s hq hout
    have hmade : r ∈ madeReferences t f e := List.mem_filterMap.mpr ⟨s, hs, hr⟩
    obtain ⟨hsite, -, hkind⟩ := reference?_target hr
    have htarget : r.target = some q := hsite.trans hq
    obtain ⟨r', hr', hkey⟩ := exists_keepFirst hmade (List.not_mem_nil (a := r.key))
    obtain ⟨s', -, hbound'⟩ := List.mem_filterMap.mp (mem_keepFirst hr')
    obtain ⟨-, hlost, -⟩ := reference?_target hbound'
    simp only [Reference.key, htarget, Prod.mk.injEq] at hkey
    obtain ⟨-, htext, hsame⟩ := hkey
    refine ⟨r', hr', ?_⟩
    cases hr't : r'.target with
    | none =>
      have hunresolved : s.kind = .unresolved := by
        rw [← hkind (by simp [htarget]), ← hsame, hlost hr't]
      exact absurd hunresolved (hproper s hs)
    | some q' =>
      rw [hr't] at htext
      cases q'; cases q
      simpa using htext

end

/-- A target that a site of the declaration has, while from the place of the type it is seen past
a type that answers the site. -/
def Strays (t : Table) (f : SourceFile) (T D : Entry) (q : QName) : Prop :=
  ∃ s ∈ D.sites, targetFrom t f.imports D.decl s.mention = some q ∧
    ¬ Alike t f.imports (chainOf t D.decl) (chainOf t T.decl) s.mention

/-- A target that a site of the declaration has, other than as the name of a type, while one of
the types in between answers the site. -/
def Answered (t : Table) (f : SourceFile) (T D : Entry) (q : QName) : Prop :=
  ∃ s ∈ D.sites, targetFrom t f.imports D.decl s.mention = some q ∧
    (∀ written, s.mention ≠ .type written) ∧
    answers t f.imports (between t T.decl D.decl) s.mention = true

section

variable {t : Table} {f : SourceFile} {T D : Entry} {q : QName}

theorem mem_targets_of_strays (hf : Consistent f) (h : Encloses f T D)
    (hout : Outside T.decl q) (hstray : Strays t f T D q) : q ∈ boundTargets t f D := by
  obtain ⟨s, hs, hq, -⟩ := hstray
  exact (mem_boundTargets (hf.proper D h.mem) (hout.mono (h.isWithin hf))).mpr ⟨s, hs, hq⟩

/-- Bound alike from both places, a target of the declaration is a target of the type. -/
theorem covered_or_strays (hf : Consistent f) (hT : T ∈ f.entries)
    (htype : T.decl.kind.isType = true) (h : Encloses f T D) (hout : Outside T.decl q)
    (hq : q ∈ boundTargets t f D) : q ∈ boundTargets t f T ∨ Strays t f T D q := by
  obtain ⟨s, hs, htarget⟩ :=
    (mem_boundTargets (hf.proper D h.mem) (hout.mono (h.isWithin hf))).mp hq
  by_cases halike : Alike t f.imports (chainOf t D.decl) (chainOf t T.decl) s.mention
  · have hsame : targetFrom t f.imports T.decl s.mention = some q :=
      halike.target_eq.symm.trans htarget
    exact Or.inl ((mem_boundTargets (hf.proper T hT) hout).mpr
      ⟨s, h.sites_subset hf hT htype hs, hsame⟩)
  · exact Or.inr ⟨s, hs, htarget, halike⟩

theorem Kept.strays_iff (hkept : Kept t f) (hf : Consistent f) (hT : T ∈ f.entries)
    (htype : T.decl.kind.isType = true) (h : Encloses f T D) (hout : Outside T.decl q) :
    Strays t f T D q ↔ Answered t f T D q := by
  have hchain := hkept.chainOf_eq hf hT htype h
  constructor
  · rintro ⟨s, hs, hq, halike⟩
    rw [hchain, alike_append_iff, Bool.not_eq_false] at halike
    refine ⟨s, hs, hq, ?_, halike⟩
    intro written hwritten
    rw [hwritten] at halike hq
    unfold targetFrom at hq
    rw [hchain] at hq
    have hwithin := typeMention_within (fun N hN => mem_between hN) _ halike hq
    rw [hout.2] at hwithin
    contradiction
  · rintro ⟨s, hs, hq, -, hanswer⟩
    refine ⟨s, hs, hq, ?_⟩
    rw [hchain, alike_append_iff, hanswer]
    simp

end

/-- A type covers what it encloses except for stray targets: it has a target outside of it that a
declaration inside has unless that strays and no other site leads there. As long as the table has
the types of the file, a target strays just if one of the types in between answers a site for it
that is not the name of a type. -/
theorem type_covers_all_but_strays (sources : List SourceText) (catalog : Catalog)
    {f : SourceFile} (hf : f ∈ Index.readAll sources) {T D : Entry} (hT : T ∈ f.entries)
    (htype : T.decl.kind.isType = true) (h : Encloses f T D) {q : QName}
    (hout : Outside T.decl q) :
    let t := Table.ofFiles (Index.readAll sources) catalog
    ((q ∈ boundTargets t f D → q ∈ boundTargets t f T) ↔
      (Strays t f T D q → q ∈ boundTargets t f T)) ∧
    (Kept t f → (Strays t f T D q ↔ Answered t f T D q)) := by
  intro t
  obtain ⟨source, -, rfl⟩ := List.mem_map.mp hf
  have hconsistent := source.parsed.consistent
  refine ⟨⟨?_, ?_⟩, fun hkept => hkept.strays_iff hconsistent hT htype h hout⟩
  · intro hcovers hstray
    exact hcovers (mem_targets_of_strays hconsistent h hout hstray)
  · intro hstrays hq
    rcases covered_or_strays hconsistent hT htype h hout hq with hcovered | hstray
    · exact hcovered
    · exact hstrays hstray

def inheritedCall : SourceText :=
  { path := ⟨"T.java"⟩
    text := "class T \x7b class N extends Base \x7b void m() \x7b foo(); \x7d \x7d \x7d
      class Base \x7b void foo() \x7b \x7d \x7d
      class Other \x7b void foo() \x7b \x7d \x7d"
    provenance := { module := "m" } }

def inheritedCallFile : SourceFile :=
  readSource inheritedCall.text inheritedCall.path inheritedCall.provenance

def inheritedCallTable : Table := Table.ofFiles (Index.readAll [inheritedCall]) {}

theorem readAll_inheritedCall : Index.readAll [inheritedCall] = [inheritedCallFile] := by
  have haccepts : Index.accepts inheritedCall.path = true := by decide +kernel
  simp only [Index.readAll, List.filter, haccepts, List.map_cons, List.map_nil, inheritedCallFile]

theorem inheritedCall_entries :
    inheritedCallFile.entries.map (fun e => (e.decl.id, e.decl.kind.isType, e.decl.parent)) =
      [(⟨"T"⟩, true, none), (⟨"T.N"⟩, true, some ⟨"T"⟩), (⟨"T.N.m"⟩, false, some ⟨"T.N"⟩),
        (⟨"Base"⟩, true, none), (⟨"Base.foo"⟩, false, some ⟨"Base"⟩),
        (⟨"Other"⟩, true, none), (⟨"Other.foo"⟩, false, some ⟨"Other"⟩)] := by
  decide +kernel

theorem inheritedCall_targets :
    inheritedCallFile.entries.map (boundTargets inheritedCallTable inheritedCallFile) =
      [[⟨"Base"⟩], [⟨"Base"⟩, ⟨"Base.foo"⟩], [⟨"Base"⟩, ⟨"Base.foo"⟩], [], [], [], []] := by
  decide +kernel

theorem inheritedCall_kept : Kept inheritedCallTable inheritedCallFile := by
  have hids := congrArg (List.map Prod.fst) inheritedCall_entries
  rw [List.map_map] at hids
  have hnodup : (inheritedCallFile.entries.map (·.decl.id)).Nodup := hids ▸ by decide +kernel
  unfold inheritedCallTable
  rw [readAll_inheritedCall]
  refine kept_of_unique {} (List.mem_singleton.mpr rfl) fun e he _ g hg e' he' hid => ?_
  obtain rfl := List.mem_singleton.mp hg
  exact List.inj_on_of_nodup_map hnodup he' he hid

/-- The call in the nested type is the only way to the inherited method, and the type around
misses it. -/
theorem inherited_call_strays :
    ∃ T ∈ inheritedCallFile.entries, ∃ D, T.decl.kind.isType = true ∧
      Encloses inheritedCallFile T D ∧ Outside T.decl ⟨"Base.foo"⟩ ∧
      ⟨"Base.foo"⟩ ∈ boundTargets inheritedCallTable inheritedCallFile D ∧
      ⟨"Base.foo"⟩ ∉ boundTargets inheritedCallTable inheritedCallFile T ∧
      Answered inheritedCallTable inheritedCallFile T D ⟨"Base.foo"⟩ := by
  have hf : inheritedCallFile ∈ Index.readAll [inheritedCall] := by simp [readAll_inheritedCall]
  obtain ⟨T, rest, hentries, hT, hrest⟩ := List.map_eq_cons_iff.mp inheritedCall_entries
  obtain ⟨N, rest, rfl, hN, hrest⟩ := List.map_eq_cons_iff.mp hrest
  obtain ⟨D, rest, rfl, hD, -⟩ := List.map_eq_cons_iff.mp hrest
  simp only [Prod.mk.injEq] at hT hN hD
  have htargets := inheritedCall_targets
  simp only [hentries, List.map_cons, List.cons.injEq] at htargets
  obtain ⟨hTtargets, -, hDtargets, -⟩ := htargets
  have hTmem : T ∈ inheritedCallFile.entries := by simp [hentries]
  have hencloses : Encloses inheritedCallFile T D := by
    refine .nested (M := N) (.member ?_ ?_) hN.2.1 ?_ ?_
    · simp [hentries]
    · rw [hN.2.2, hT.1]
    · simp [hentries]
    · rw [hD.2.2, hN.1]
  have hout : Outside T.decl ⟨"Base.foo"⟩ := by
    unfold Outside
    rw [hT.1]
    decide +kernel
  have hin : ⟨"Base.foo"⟩ ∈ boundTargets inheritedCallTable inheritedCallFile D := by
    simp [hDtargets]
  have hmissed : ⟨"Base.foo"⟩ ∉ boundTargets inheritedCallTable inheritedCallFile T := by
    simp [hTtargets]
  obtain ⟨hcovers, hanswered⟩ :=
    type_covers_all_but_strays [inheritedCall] {} hf hTmem hT.2.1 hencloses hout
  have hstray : Strays inheritedCallTable inheritedCallFile T D ⟨"Base.foo"⟩ := by
    by_cases h : Strays inheritedCallTable inheritedCallFile T D ⟨"Base.foo"⟩
    · exact h
    · exact absurd (hcovers.mpr (fun k => absurd k h) hin) hmissed
  exact ⟨T, hTmem, D, hT.2.1, hencloses, hout, hin, hmissed,
    (hanswered inheritedCall_kept).mp hstray⟩

end Carve.Java
