import Carve.Proofs.Java.Lookup
import Carve.Proofs.Java.Tour

/-!
# Inherited members

A member that some type of a hierarchy declares is found, unless the tour of the hierarchy leaves a
type with a library supertype before it enters any type that declares the member: then the library
is taken for the owner. Nothing else hides a member, however types are linked to each other.
-/

namespace Carve

namespace Java

section

variable (t : Table) (imports : Imports) (T : Declaration) (name : String) (kind : MemberKind)

/-- Some type of the hierarchy declares the member. -/
def Declared : Prop :=
  ∃ e, Inherits t imports T e ∧ ∃ m, declaredMember t e.id name kind = some m

/-- Some type of the hierarchy has a library supertype. -/
def Reaching : Prop := ∃ e, Inherits t imports T e ∧ FromLibrary t imports e

/-- A type with a library supertype is left before any type that declares the member is entered. -/
def Hidden : Prop :=
  ∃ before e after, tour t imports T = before ++ .leave e :: after ∧ FromLibrary t imports e ∧
    ∀ d, .enter d ∈ before → declaredMember t d.id name kind = none

/-- What the lookup of an inherited member comes to. -/
structure Searched : Prop where
  found : ∀ m, findMember t imports T name kind = .found m →
    ∃ e, Inherits t imports T e ∧ declaredMember t e.id name kind = some m
  library : ∀ id owner, findMember t imports T name kind = .library id owner →
    ∃ e, Inherits t imports T e ∧ .library id owner ∈ headerTypes t imports e
  found_iff : (∃ m, findMember t imports T name kind = .found m) ↔
    Declared t imports T name kind ∧ ¬ Hidden t imports T name kind
  library_iff : (∃ id owner, findMember t imports T name kind = .library id owner) ↔
    Reaching t imports T ∧ (¬ Declared t imports T name kind ∨ Hidden t imports T name kind)
  missing_iff : findMember t imports T name kind = .missing ↔
    ¬ Declared t imports T name kind ∧ ¬ Reaching t imports T

end

section

variable {t : Table} {imports : Imports} {T e : Declaration} {name : String} {kind : MemberKind}
  {before after : List Visit}

theorem answer_leave (h : FromLibrary t imports e) :
    ∃ id owner, answer t imports name kind (.leave e) = some (.library id owner) := by
  obtain ⟨id, owner, hmem⟩ := h
  have hsome : (firstLibrary (headerTypes t imports e)).isSome :=
    List.findSome?_isSome_iff.mpr ⟨_, hmem, rfl⟩
  obtain ⟨a, ha⟩ := Option.isSome_iff_exists.mp hsome
  obtain ⟨id', owner', -, rfl⟩ := firstLibrary_some ha
  exact ⟨id', owner', ha⟩

theorem answer_enter : answer t imports name kind (.enter e) = none ↔
    declaredMember t e.id name kind = none := by
  simp [answer]

theorem findMember_of_first {v : Visit} {a : MemberLookup}
    (hsplit : tour t imports T = before ++ v :: after)
    (hv : answer t imports name kind v = some a)
    (hnone : ∀ w ∈ before, answer t imports name kind w = none) :
    findMember t imports T name kind = a := by
  have hfirst : (tour t imports T).findSome? (answer t imports name kind) = some a :=
    List.findSome?_eq_some_iff.mpr ⟨before, v, after, hsplit, hv, hnone⟩
  rw [findMember_eq, hfirst]
  rfl

/-- The first visit that answers decides. -/
theorem findMember_told (hT : Known t T) :
    (∃ e m, Inherits t imports T e ∧ declaredMember t e.id name kind = some m ∧
      findMember t imports T name kind = .found m ∧ ¬ Hidden t imports T name kind) ∨
    (∃ e id owner, Inherits t imports T e ∧ .library id owner ∈ headerTypes t imports e ∧
      findMember t imports T name kind = .library id owner ∧ Hidden t imports T name kind) ∨
    (findMember t imports T name kind = .missing ∧ ¬ Declared t imports T name kind ∧
      ¬ Reaching t imports T) := by
  have hvisits := @tour_complete t imports T hT
  cases hanswer : (tour t imports T).findSome? (answer t imports name kind) with
  | some a =>
    obtain ⟨before, v, after, hsplit, hv, hnone⟩ := List.findSome?_eq_some_iff.mp hanswer
    have hfirst := findMember_of_first hsplit hv hnone
    have hmem : v ∈ tour t imports T := by simp [hsplit]
    cases v with
    | enter e =>
      obtain ⟨m, hm, rfl⟩ := Option.map_eq_some_iff.mp hv
      refine Or.inl ⟨e, m, ((hvisits e).1.mp hmem), hm, hfirst, ?_⟩
      rintro ⟨front, l, back, hfront, hlibrary, hundeclared⟩
      obtain ⟨id, owner, hl⟩ := @answer_leave t imports _ name kind hlibrary
      rcases List.append_eq_append_iff.mp (hsplit.symm.trans hfront) with
        ⟨more, rfl, hmore⟩ | ⟨more, rfl, hmore⟩
      · cases more with
        | nil => cases (List.cons.inj hmore).1
        | cons w more =>
          obtain rfl := (List.cons.inj hmore).1
          rw [hundeclared e (by simp)] at hm
          cases hm
      · cases more with
        | nil => cases (List.cons.inj hmore).1
        | cons w more =>
          obtain rfl := (List.cons.inj hmore).1
          rw [hnone _ (by simp)] at hl
          cases hl
    | leave e =>
      obtain ⟨id, owner, hlibrary, rfl⟩ := firstLibrary_some hv
      exact Or.inr (Or.inl ⟨e, id, owner, (hvisits e).2.mp hmem, hlibrary, hfirst, before, e, after,
        hsplit, ⟨id, owner, hlibrary⟩, fun d hd => answer_enter.mp (hnone _ hd)⟩)
  | none =>
    have hnone := List.findSome?_eq_none_iff.mp hanswer
    refine Or.inr (Or.inr ⟨by rw [findMember_eq, hanswer]; rfl, ?_, ?_⟩)
    · rintro ⟨e, he, m, hm⟩
      have := answer_enter.mp (hnone _ ((hvisits e).1.mpr he))
      rw [hm] at this
      cases this
    · rintro ⟨e, he, hlibrary⟩
      obtain ⟨id, owner, hl⟩ := @answer_leave t imports _ name kind hlibrary
      rw [hnone _ ((hvisits e).2.mpr he)] at hl
      cases hl

theorem findMember_searched (hT : Known t T) : Searched t imports T name kind := by
  rcases @findMember_told t imports T name kind hT with
    ⟨e, m, he, hm, hfound, hopen⟩ | ⟨e, id, owner, he, hmem, hfound, hhidden⟩ |
      ⟨hfound, hundeclared, hunreaching⟩
  · have hdeclared : Declared t imports T name kind := ⟨e, he, m, hm⟩
    exact
      { found := fun m' h => ⟨e, he, MemberLookup.found.inj (hfound.symm.trans h) ▸ hm⟩
        library := fun _ _ h => nomatch hfound.symm.trans h
        found_iff := iff_of_true ⟨m, hfound⟩ ⟨hdeclared, hopen⟩
        library_iff := iff_of_false (fun ⟨_, _, h⟩ => nomatch hfound.symm.trans h)
          fun h => h.2.elim (fun hnone => hnone hdeclared) hopen
        missing_iff := iff_of_false (fun h => nomatch hfound.symm.trans h) fun h => h.1 hdeclared }
  · have hreaching : Reaching t imports T := ⟨e, he, id, owner, hmem⟩
    refine
      { found := fun _ h => nomatch hfound.symm.trans h
        library := fun id' owner' h => ?_
        found_iff := iff_of_false (fun ⟨_, h⟩ => nomatch hfound.symm.trans h) fun h => h.2 hhidden
        library_iff := iff_of_true ⟨id, owner, hfound⟩ ⟨hreaching, Or.inr hhidden⟩
        missing_iff := iff_of_false (fun h => nomatch hfound.symm.trans h) fun h => h.2 hreaching }
    obtain ⟨rfl, rfl⟩ := MemberLookup.library.inj (hfound.symm.trans h)
    exact ⟨e, he, hmem⟩
  · exact
      { found := fun _ h => nomatch hfound.symm.trans h
        library := fun _ _ h => nomatch hfound.symm.trans h
        found_iff := iff_of_false (fun ⟨_, h⟩ => nomatch hfound.symm.trans h)
          fun h => hundeclared h.1
        library_iff := iff_of_false (fun ⟨_, _, h⟩ => nomatch hfound.symm.trans h)
          fun h => hunreaching h.1
        missing_iff := iff_of_true hfound ⟨hundeclared, hunreaching⟩ }

end

/-- In any project a member is looked up in all of the hierarchy, and by its name. -/
theorem inherited_members (sources : List SourceText) (catalog : Catalog) (imports : Imports)
    {T : Declaration} (hT : Known (tableOf sources catalog) T) (name : String)
    (kind : MemberKind) :
    Searched (tableOf sources catalog) imports T name kind ∧
      (Word name → ∀ owner,
        (∀ m, declaredMember (tableOf sources catalog) owner name kind = some m →
          IsMember owner kind name m) ∧
        ((∃ m, declaredMember (tableOf sources catalog) owner name kind = some m) ↔
          ∃ d, Known (tableOf sources catalog) d ∧ IsMember owner kind name d)) :=
  ⟨findMember_searched hT, fun hname _ =>
    ⟨fun _ hm => declaredMember_isMember hname hm, declaredMember_iff hname⟩⟩

def forked : SourceText :=
  { path := ⟨"src/p/T.java"⟩
    text := "package p; import ext.Lib; class T extends A implements B { } " ++
      "class A extends Lib { } interface B { void foo(); }"
    provenance := { module := "m" } }

/-- A supertype that declares the member itself. -/
def TypeTarget.declares (t : Table) (name : String) (kind : MemberKind) : TypeTarget → Bool
  | .project e => (declaredMember t e.id name kind).isSome
  | _ => false

theorem declared_of_header {t : Table} {imports : Imports} {T : Declaration} {name : String}
    {kind : MemberKind} (h : (headerTypes t imports T).any (·.declares t name kind) = true) :
    Declared t imports T name kind := by
  obtain ⟨p, hp, hdeclares⟩ := List.any_eq_true.mp h
  cases p with
  | project e => exact ⟨e, .single hp, Option.isSome_iff_exists.mp hdeclares⟩
  | library => cases hdeclares
  | unknown => cases hdeclares

def MemberLookup.library? : MemberLookup → Option QName
  | .library id _ => some id
  | _ => none

/-- A library behind the first supertype hides the method that the second one declares. -/
theorem forked_hides : ∃ T, Known (tableOf [forked] {}) T ∧ T.id = ⟨"p.T"⟩ ∧
    (findMember (tableOf [forked] {}) {} T "foo" .method).library? = some ⟨"ext.Lib"⟩ ∧
    Declared (tableOf [forked] {}) {} T "foo" .method ∧
    Hidden (tableOf [forked] {}) {} T "foo" .method := by
  have hrow : ∀ T ∈ (tableOf [forked] {}).declaration? "p.T",
      (findMember (tableOf [forked] {}) {} T "foo" .method).library? = some ⟨"ext.Lib"⟩ ∧
        (headerTypes (tableOf [forked] {}) {} T).any
          (·.declares (tableOf [forked] {}) "foo" .method) = true := by
    decide +kernel
  have hsome : ((tableOf [forked] {}).declaration? "p.T").isSome := by decide +kernel
  obtain ⟨T, hT⟩ := Option.isSome_iff_exists.mp hsome
  obtain ⟨hlibrary, hdeclares⟩ := hrow T hT
  have hdeclared := declared_of_header hdeclares
  obtain ⟨hsearched, -⟩ :=
    inherited_members [forked] {} {} (known_of_declaration? hT) "foo" .method
  refine ⟨T, known_of_declaration? hT, Table.declaration?_id hT, hlibrary, hdeclared, ?_⟩
  have hfound : ∃ id owner, findMember (tableOf [forked] {}) {} T "foo" .method =
      .library id owner := by
    cases hfind : findMember (tableOf [forked] {}) {} T "foo" .method with
    | library id owner => exact ⟨id, owner, rfl⟩
    | found m =>
      rw [hfind] at hlibrary
      cases hlibrary
    | missing =>
      rw [hfind] at hlibrary
      cases hlibrary
  exact (hsearched.library_iff.mp hfound).2.resolve_left fun hnone => hnone hdeclared

end Java

end Carve
