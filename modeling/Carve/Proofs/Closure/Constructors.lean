import Carve.Proofs.Closure.Diagnostics
import Carve.Proofs.Closure.Rounds
import Carve.Proofs.Index.Sources

/-!
# Constructors of trimmed types

A type that is not kept whole may need its constructors. It gets all of them as soon as the type
itself or one of its fields, methods and constructors is a member. A nested type counts for itself
alone: around it a type may stay without its constructors.
-/

namespace Carve.Closure

variable {p : Policy} {x : Index} {root : Declaration}

/-- The type or one of its fields, methods and constructors is a member. -/
def KeptIn (c : Closure) (owner : QName) : Prop :=
  ∃ m ∈ c.members, m.decl.isLibrary = false ∧ ownerOf m.decl = some owner

/-- A constructor, one of whose overloads calls another constructor first. -/
def Delegates (m : Declaration) : Prop :=
  m.kind = .ctor ∧ ∃ o ∈ m.outlines, o.ctorCall.isSome = true

/-- A field that is a member and gets its value when an object is made. -/
def AssignedLater (c : Closure) (m : Declaration) : Prop :=
  m.kind = .field ∧ (∃ n ∈ c.members, n.decl.id = m.id) ∧
    ∃ o, m.outline? = some o ∧ o.isBlankFinal = true ∧ o.hasModifier "static" = false

/-- What is kept of the type does not compile without its constructors. -/
def NeedsCtors (x : Index) (c : Closure) (T : Declaration) : Prop :=
  T.kind = .enumType ∨ ∃ m ∈ x.children T.id, Delegates m ∨ AssignedLater c m

theorem needsCtors_iff {s : Search} {id : QName} {T : Declaration} :
    needsCtors s T (x.children T.id) = true ↔ NeedsCtors x (ofSearch p id s) T := by
  have hhas : ∀ q, s.has q = true ↔ ∃ n ∈ (ofSearch p id s).members, n.decl.id = q := by
    intro q
    simp [Search.has_iff, mem_members, memberOf]
  unfold needsCtors NeedsCtors
  rw [Bool.or_eq_true, beq_iff_eq, List.any_eq_true]
  refine or_congr_right (exists_congr fun m => and_congr_right fun _ => ?_)
  unfold Delegates AssignedLater
  cases hk : m.kind with
  | ctor => simp
  | field => simp [hhas, Option.any_eq_true]
  | _ => simp

/-- A type that is not kept whole and needs its constructors has them if and only if it or one of
its fields, methods and constructors is a member. -/
structure Constructible (x : Index) (c : Closure) : Prop where
  ctors : ∀ T, x.get? T.id = some T →
    (∀ m ∈ c.members, m.decl.id = T.id → m.inclusion ≠ .full) → NeedsCtors x c T →
    ∀ k ∈ x.children T.id, k.kind = .ctor → k.isLibrary = false →
      ((∃ m ∈ c.members, m.decl = k) ↔ KeptIn c T.id)

theorem Finished.constructible (hx : x.Distinct) (hroot : x.get? root.id = some root) {s : Search}
    (h : Finished p x root s) : Constructible x (ofSearch p root.id s) where
  ctors T hT hpart hneeds k hk hctor hl := by
    obtain ⟨hdecl, hparent⟩ := Index.mem_children.mp hk
    constructor
    · rintro ⟨m, hm, rfl⟩
      refine ⟨m, hm, hl, ?_⟩
      unfold ownerOf
      rwa [hctor]
    · rintro ⟨m, hm, hml, howner⟩
      obtain ⟨a, ha, rfl⟩ := mem_members.mp hm
      have hkept : keptWhole p s root.id T.id = false := by
        rw [← Bool.not_eq_true, keptWhole_iff h.invariant.grown]
        rintro ⟨b, hb, hid, hfull⟩
        exact hpart _ (mem_memberOf hb) hid hfull
      have hhas : s.has k.id = true := by
        by_contra hnew
        have hmissing : k ∈ (missingCtors p x s root.id).map (·.decl) :=
          mem_missing_decls.mpr ⟨T.id, ⟨a, ha, hml, howner⟩, hkept,
            ⟨T, hT, needsCtors_iff.mpr hneeds⟩, hk, hctor, by simpa using hnew⟩
        rw [h.complete] at hmissing
        cases hmissing
      obtain ⟨b, hb, hid⟩ := List.mem_map.mp (Search.has_iff.mp hhas)
      have hindexed := h.invariant.grown.indexed hroot b hb
      rw [hid, Index.get?_of_mem hx hdecl] at hindexed
      exact ⟨_, mem_memberOf hb, (Option.some.inj hindexed).symm⟩

/-- Whatever sources were indexed and whichever declaration of the project is asked for, the types
in its closure have the constructors they need, save those that only stand around nested types. -/
theorem closure_completes_constructors (top : Path) (sources : List SourceText)
    (catalog : Catalog) (p : Policy) (name : String) (d : Declaration)
    (hd : (Index.ofSources top sources catalog).get? ⟨name⟩ = some d) (hp : d.isLibrary = false) :
    ∃ c, resolve p (Index.ofSources top sources catalog) name = .ok c ∧ c.root = ⟨name⟩ ∧
      Constructible (Index.ofSources top sources catalog) c := by
  have hx : (Index.ofSources top sources catalog).Distinct := Index.ofFiles_distinct _ _ _
  obtain ⟨hresolve, hfin⟩ := resolve_eq_searchOf (p := p) hx hd hp
  obtain ⟨-, hid⟩ := Index.get?_some hd
  exact ⟨_, hresolve, hid, hfin.constructible hx (hid ▸ hd)⟩

def enumAround : SourceText :=
  { path := ⟨"T.java"⟩
    text := "enum T \x7b A(1); T(int n) \x7b \x7d static class N \x7b void m() \x7b \x7d \x7d \x7d"
    provenance := { module := "m" } }

def enumIndex : Index := Index.ofSources ⟨"/"⟩ [enumAround] {}

theorem enumIndex_children :
    (enumIndex.children ⟨"T"⟩).map (fun k => (k.kind, k.isLibrary)) =
      [(.field, false), (.ctor, false), (.classType, false)] := by
  decide +kernel

theorem enumIndex_types :
    [⟨"T"⟩, ⟨"T.N"⟩].map (fun q => (enumIndex.get? q).map fun d => (d.kind, d.isLibrary)) =
      [some (.enumType, false), some (.classType, false)] := by
  decide +kernel

theorem enumIndex_closure :
    ((resolve {} enumIndex "T.N").toOption.map fun c =>
        c.members.map fun m => (m.decl.id, m.decl.parent, ownerOf m.decl)) =
      some [(⟨"T.N"⟩, some ⟨"T"⟩, some ⟨"T.N"⟩)] := by
  decide +kernel

/-- When a class is asked for alone, the enum around it is left without its constructor. -/
theorem enum_around_class_lacks_constructor :
    ∃ d T k c, enumIndex.get? ⟨"T.N"⟩ = some d ∧ d.isLibrary = false ∧
      resolve {} enumIndex "T.N" = .ok c ∧ enumIndex.get? T.id = some T ∧
      (∀ m ∈ c.members, m.decl.id ≠ T.id) ∧ (∃ m ∈ c.members, m.decl.parent = some T.id) ∧
      NeedsCtors enumIndex c T ∧ k ∈ enumIndex.children T.id ∧ k.kind = .ctor ∧
      ¬ ∃ m ∈ c.members, m.decl = k := by
  have htypes := enumIndex_types
  simp only [List.map_cons, List.map_nil, List.cons.injEq, Option.map_eq_some_iff] at htypes
  obtain ⟨⟨T, hT, hTkind⟩, ⟨d, hd, hdkind⟩, -⟩ := htypes
  obtain ⟨-, hTid⟩ := Index.get?_some hT
  have hdl : d.isLibrary = false := congrArg Prod.snd hdkind
  obtain ⟨a, rest, hchildren, -, hrest⟩ := List.map_eq_cons_iff.mp enumIndex_children
  obtain ⟨k, rest, rfl, hk, -⟩ := List.map_eq_cons_iff.mp hrest
  obtain ⟨c, hc, -, hcomplete⟩ := closure_completes_constructors ⟨"/"⟩ [enumAround] {} {} "T.N" d
    hd hdl
  have hmembers := enumIndex_closure
  rw [show resolve {} enumIndex "T.N" = .ok c from hc] at hmembers
  obtain ⟨m, ms, hms, hm, hnil⟩ := List.map_eq_cons_iff.mp (Option.some.inj hmembers)
  obtain rfl := List.map_eq_nil_iff.mp hnil
  simp only [Prod.mk.injEq] at hm hk hTkind
  have hother : ∀ m' ∈ c.members, m'.decl.id ≠ T.id := by
    intro m' hm'
    obtain rfl : m' = m := by simpa [hms] using hm'
    rw [hm.1, hTid]
    decide
  have hmem : k ∈ enumIndex.children T.id := by simp [hTid, hchildren]
  have hneeds : NeedsCtors enumIndex c T := Or.inl hTkind.1
  have hctors := hcomplete.ctors T (hTid ▸ hT) (fun m' hm' hid => absurd hid (hother m' hm'))
    hneeds k hmem hk.1 hk.2
  refine ⟨d, T, k, c, hd, hdl, hc, hTid ▸ hT, hother, ⟨m, by simp [hms], ?_⟩, hneeds, hmem, hk.1,
    hctors.not.mpr ?_⟩
  · rw [hm.2.1, hTid]
  · rintro ⟨m', hm', -, howner⟩
    obtain rfl : m' = m := by simpa [hms] using hm'
    rw [hm.2.2, hTid] at howner
    exact absurd howner (by decide)

end Carve.Closure
