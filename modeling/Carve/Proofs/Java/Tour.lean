import Carve.Proofs.Java.Targets
import Mathlib.Data.List.Perm.Subperm
import Mathlib.Logic.Relation

/-!
# The tour of a hierarchy

A search for an inherited member goes from a type to its supertypes, from the first of them to its
own, and enters no type twice, whatever cycles and diamonds there are. Left to itself such a tour
enters every type that can be reached; the search is the tour up to the first visit that answers.
-/

namespace Carve

namespace Java

/-- A tour enters a type and leaves it after the types that it leads to. -/
inductive Visit where
  | enter (d : Declaration)
  | leave (d : Declaration)

section

variable (t : Table) (imports : Imports)

/-- What the header of a type names, in its own place. -/
def headerTypes (d : Declaration) : List TypeTarget :=
  (t.supertypes d.id).map (resolveType t (placeOf t imports d))

def Extends (d e : Declaration) : Prop := .project e ∈ headerTypes t imports d

/-- The type itself, its supertypes and theirs. -/
def Inherits : Declaration → Declaration → Prop := Relation.ReflTransGen (Extends t imports)

def FromLibrary (d : Declaration) : Prop :=
  ∃ id owner, .library id owner ∈ headerTypes t imports d

def tourAll (tour : Declaration → List QName → List Visit × List QName) :
    List TypeTarget → List QName → List Visit × List QName
  | [], visited => ([], visited)
  | .project d :: rest, visited =>
    let (first, visited) := tour d visited
    let (others, visited) := tourAll tour rest visited
    (first ++ others, visited)
  | .library _ _ :: rest, visited | .unknown :: rest, visited => tourAll tour rest visited

def tourIn : Nat → Declaration → List QName → List Visit × List QName
  | 0, _, visited => ([], visited)
  | fuel + 1, d, visited =>
    if visited.contains d.id then ([], visited)
    else
      let (inner, visited) := tourAll (tourIn fuel) (headerTypes t imports d) (d.id :: visited)
      (.enter d :: (inner ++ [.leave d]), visited)

def tour (d : Declaration) : List Visit := (tourIn t imports (searchDepth t) d []).1

def firstLibrary (parents : List TypeTarget) : Option MemberLookup :=
  parents.findSome? fun
    | .library id owner => some (.library id owner)
    | _ => none

/-- A type that declares the member answers when it is entered, a library supertype when the type
is left. -/
def answer (name : String) (kind : MemberKind) : Visit → Option MemberLookup
  | .enter d => (declaredMember t d.id name kind).map .found
  | .leave d => firstLibrary (headerTypes t imports d)

end

section

variable {t : Table} {imports : Imports} {name : String} {kind : MemberKind}

theorem firstLibrary_some {parents : List TypeTarget} {a : MemberLookup}
    (h : firstLibrary parents = some a) :
    ∃ id owner, .library id owner ∈ parents ∧ a = .library id owner := by
  obtain ⟨p, hp, ha⟩ := List.exists_of_findSome?_eq_some h
  cases p with
  | library id owner => exact ⟨id, owner, hp, (Option.some.inj ha).symm⟩
  | project => cases ha
  | unknown => cases ha

theorem answer_ne_missing {v : Visit} : answer t imports name kind v ≠ some .missing := by
  cases v with
  | enter d => simp [answer]
  | leave d =>
    intro h
    obtain ⟨_, _, -, hmissing⟩ := firstLibrary_some h
    cases hmissing

/-- A search comes to the answer of a tour; without one it ends where the tour ends. -/
def Follows (search : MemberLookup × List QName) (answered : Option MemberLookup)
    (rest : MemberLookup) (visited : List QName) : Prop :=
  match answered with
  | some a => search.1 = a
  | none => search = (rest, visited)

/-- Of supertypes the first that leads to an answer counts, then the first library type. -/
theorem searchSupertypes_follows
    {search : Declaration → List QName → MemberLookup × List QName}
    {walk : Declaration → List QName → List Visit × List QName}
    (h : ∀ d visited, Follows (search d visited)
      ((walk d visited).1.findSome? (answer t imports name kind)) .missing (walk d visited).2)
    (parents : List TypeTarget) : ∀ (library : MemberLookup) (visited : List QName),
      Follows (searchSupertypes search parents library visited)
        ((tourAll walk parents visited).1.findSome? (answer t imports name kind))
        (if library.isMissing then (firstLibrary parents).getD .missing else library)
        (tourAll walk parents visited).2 := by
  induction parents with
  | nil =>
    intro library visited
    cases library <;> rfl
  | cons p parents ih =>
    intro library visited
    cases p with
    | project d =>
      have hd := h d visited
      rw [searchSupertypes_project, tourAll]
      dsimp only
      rw [List.findSome?_append]
      cases hfirst : (walk d visited).1.findSome? (answer t imports name kind) with
      | some a =>
        rw [hfirst] at hd
        obtain ⟨v, -, hv⟩ := List.exists_of_findSome?_eq_some hfirst
        obtain rfl : (search d visited).1 = a := hd
        have hne : (search d visited).1 ≠ .missing := fun heq => answer_ne_missing (heq ▸ hv)
        generalize search d visited = searched at hne ⊢
        obtain ⟨found, after⟩ := searched
        cases found with
        | missing => exact absurd rfl hne
        | found m => rfl
        | library id owner => rfl
      | none =>
        rw [hfirst] at hd
        rw [show search d visited = (.missing, (walk d visited).2) from hd]
        exact ih library _
    | library id owner =>
      have hrest := ih (if library.isMissing then .library id owner else library) visited
      cases library <;> exact hrest
    | unknown => exact ih library visited

theorem findMemberIn_follows (fuel : Nat) : ∀ (d : Declaration) (visited : List QName),
    Follows (findMemberIn t imports name kind fuel d visited)
      ((tourIn t imports fuel d visited).1.findSome? (answer t imports name kind)) .missing
      (tourIn t imports fuel d visited).2 := by
  induction fuel with
  | zero => exact fun _ _ => rfl
  | succ fuel ih =>
    intro d visited
    rw [findMemberIn_succ, tourIn]
    split
    · rfl
    · have hparents := searchSupertypes_follows ih (headerTypes t imports d) .missing
        (d.id :: visited)
      dsimp only
      rw [List.findSome?_cons, List.findSome?_append]
      cases hdeclared : declaredMember t d.id name kind with
      | some m => simp [answer, hdeclared, Follows]
      | none =>
        have henter : answer t imports name kind (.enter d) = none := by simp [answer, hdeclared]
        rw [henter]
        dsimp only
        cases hinner : (tourAll (tourIn t imports fuel) (headerTypes t imports d)
            (d.id :: visited)).1.findSome? (answer t imports name kind) with
        | some a =>
          rw [hinner] at hparents
          exact hparents
        | none =>
          rw [hinner] at hparents
          have hsearch : searchSupertypes (findMemberIn t imports name kind fuel)
              (headerTypes t imports d) .missing (d.id :: visited) =
                ((firstLibrary (headerTypes t imports d)).getD .missing, _) := hparents
          rw [Option.none_or, List.findSome?_singleton]
          show Follows (searchSupertypes (findMemberIn t imports name kind fuel)
            (headerTypes t imports d) .missing (d.id :: visited))
              (firstLibrary (headerTypes t imports d)) _ _
          rw [hsearch]
          cases firstLibrary (headerTypes t imports d) <;> rfl

/-- The search comes to the first answer of the tour. -/
theorem findMember_eq (d : Declaration) : findMember t imports d name kind =
    ((tour t imports d).findSome? (answer t imports name kind)).getD .missing := by
  have h := @findMemberIn_follows t imports name kind (searchDepth t) d []
  rw [findMember_def, tour]
  cases hanswer : (tourIn t imports (searchDepth t) d []).1.findSome?
      (answer t imports name kind) with
  | some a =>
    rw [hanswer] at h
    exact h
  | none =>
    rw [hanswer] at h
    exact congrArg Prod.fst h

/-! ### What a tour covers -/

theorem known_of_extends {d e : Declaration} (h : Extends t imports d e) : Known t e := by
  obtain ⟨written, -, htype⟩ := List.mem_map.mp h
  have hsound : (resolveType t (placeOf t imports d) written).Sound t :=
    resolveType_sound (chainOf_known d) written
  rw [htype] at hsound
  exact hsound

structure Stays (t : Table) (visited : List QName) : Prop where
  nodup : visited.Nodup
  known : ∀ id ∈ visited, ∃ d, t.declaration? id.text = some d

theorem Stays.length_le {visited : List QName} (h : Stays t visited) :
    visited.length ≤ t.size := by
  have hnames : visited.map (·.text) ⊆ t.rows.map Table.rowName := by
    intro text htext
    obtain ⟨id, hid, rfl⟩ := List.mem_map.mp htext
    obtain ⟨d, hd⟩ := h.known id hid
    obtain ⟨row, hrow, -⟩ := Option.map_eq_some_iff.mp hd
    have hname : Table.rowName row = id.text := by
      simpa [Table.rowName] using List.find?_some hrow
    exact List.mem_map.mpr ⟨row, List.mem_of_find?_eq_some hrow, hname⟩
  have hnodup : (visited.map (·.text)).Nodup :=
    h.nodup.map fun a b htext => congrArg QName.mk htext
  have := (List.subperm_of_subset hnodup hnames).length_le
  simpa [Table.size] using this

theorem Stays.enter {visited : List QName} (h : Stays t visited) {d : Declaration}
    (hd : Known t d) (hnew : d.id ∉ visited) : Stays t (d.id :: visited) where
  nodup := List.nodup_cons.mpr ⟨hnew, h.nodup⟩
  known id hid := by
    rcases List.mem_cons.mp hid with rfl | hid
    · exact ⟨d, hd⟩
    · exact h.known id hid

/-- These visits lead from the one set of types to the other, with nothing left open. -/
structure Tours (t : Table) (imports : Imports) (visits : List Visit)
    (visited visited' : List QName) : Prop where
  stays : Stays t visited'
  kept : visited ⊆ visited'
  entered : ∀ id ∈ visited', id ∈ visited ∨ ∃ e, .enter e ∈ visits ∧ e.id = id
  known : ∀ e, .enter e ∈ visits → Known t e
  left : ∀ e, .enter e ∈ visits → .leave e ∈ visits
  closed : ∀ e, .enter e ∈ visits → ∀ f, Extends t imports e f → f.id ∈ visited'

theorem Tours.nil {visited : List QName} (h : Stays t visited) :
    Tours t imports [] visited visited where
  stays := h
  kept := List.Subset.refl visited
  entered _ hid := Or.inl hid
  known := by simp
  left := by simp
  closed := by simp

theorem Tours.append {vs ws : List Visit} {visited visited' visited'' : List QName}
    (h : Tours t imports vs visited visited') (k : Tours t imports ws visited' visited'') :
    Tours t imports (vs ++ ws) visited visited'' where
  stays := k.stays
  kept := List.Subset.trans h.kept k.kept
  entered id hid := by
    rcases k.entered id hid with hid | ⟨e, he, rfl⟩
    · rcases h.entered id hid with hid | ⟨e, he, rfl⟩
      · exact Or.inl hid
      · exact Or.inr ⟨e, List.mem_append_left _ he, rfl⟩
    · exact Or.inr ⟨e, List.mem_append_right _ he, rfl⟩
  known e he := (List.mem_append.mp he).elim (h.known e) (k.known e)
  left e he := by
    rcases List.mem_append.mp he with he | he
    · exact List.mem_append_left _ (h.left e he)
    · exact List.mem_append_right _ (k.left e he)
  closed e he f hf := by
    rcases List.mem_append.mp he with he | he
    · exact k.kept (h.closed e he f hf)
    · exact k.closed e he f hf

theorem Tours.around {visits : List Visit} {visited visited' : List QName} {d : Declaration}
    (hd : Known t d) (h : Tours t imports visits (d.id :: visited) visited')
    (hparents : ∀ f, Extends t imports d f → f.id ∈ visited') :
    Tours t imports (.enter d :: (visits ++ [.leave d])) visited visited' := by
  have henter : ∀ e, .enter e ∈ Visit.enter d :: (visits ++ [.leave d]) →
      e = d ∨ .enter e ∈ visits := by
    intro e he
    simpa using he
  refine ⟨h.stays, List.subset_of_cons_subset h.kept, ?_, ?_, ?_, ?_⟩
  · intro id hid
    rcases h.entered id hid with hid | ⟨e, he, rfl⟩
    · rcases List.mem_cons.mp hid with rfl | hid
      · exact Or.inr ⟨d, List.mem_cons_self, rfl⟩
      · exact Or.inl hid
    · exact Or.inr ⟨e, by simp [he], rfl⟩
  · intro e he
    rcases henter e he with rfl | he
    · exact hd
    · exact h.known e he
  · intro e he
    rcases henter e he with rfl | he
    · simp
    · simp [h.left e he]
  · intro e he f hf
    rcases henter e he with rfl | he
    · exact hparents f hf
    · exact h.closed e he f hf

theorem Tours.length_le {visits : List Visit} {visited visited' : List QName}
    (h : Tours t imports visits visited visited') (hnodup : visited.Nodup) :
    visited.length ≤ visited'.length :=
  (List.subperm_of_subset hnodup h.kept).length_le

theorem tourAll_tours {walk : Declaration → List QName → List Visit × List QName} {n : Nat}
    (h : ∀ d visited, Known t d → Stays t visited → n ≤ visited.length →
      Tours t imports (walk d visited).1 visited (walk d visited).2 ∧ d.id ∈ (walk d visited).2)
    (parents : List TypeTarget) : ∀ visited, (∀ e, .project e ∈ parents → Known t e) →
      Stays t visited → n ≤ visited.length →
      Tours t imports (tourAll walk parents visited).1 visited (tourAll walk parents visited).2 ∧
        ∀ e, .project e ∈ parents → e.id ∈ (tourAll walk parents visited).2 := by
  induction parents with
  | nil => exact fun visited _ hstays _ => ⟨.nil hstays, by simp⟩
  | cons p parents ih =>
    intro visited hknown hstays hn
    have hrest : ∀ e, .project e ∈ parents → Known t e :=
      fun e he => hknown e (List.mem_cons_of_mem _ he)
    cases p with
    | project d =>
      obtain ⟨hfirst, hd⟩ := h d visited (hknown d List.mem_cons_self) hstays hn
      obtain ⟨hothers, hparents⟩ := ih (walk d visited).2 hrest hfirst.stays
        (hn.trans (hfirst.length_le hstays.nodup))
      refine ⟨hfirst.append hothers, fun e he => ?_⟩
      rcases List.mem_cons.mp he with heq | he
      · obtain rfl := TypeTarget.project.inj heq
        exact hothers.kept hd
      · exact hparents e he
    | library id owner =>
      obtain ⟨htours, hparents⟩ := ih visited hrest hstays hn
      exact ⟨htours, fun e he => hparents e (by simpa using he)⟩
    | unknown =>
      obtain ⟨htours, hparents⟩ := ih visited hrest hstays hn
      exact ⟨htours, fun e he => hparents e (by simpa using he)⟩

theorem tourIn_tours (fuel : Nat) : ∀ d visited, Known t d → Stays t visited →
    t.size + 1 - fuel ≤ visited.length →
    Tours t imports (tourIn t imports fuel d visited).1 visited
        (tourIn t imports fuel d visited).2 ∧
      d.id ∈ (tourIn t imports fuel d visited).2 := by
  induction fuel with
  | zero =>
    intro d visited _ hstays hfuel
    have := hstays.length_le
    omega
  | succ fuel ih =>
    intro d visited hd hstays hfuel
    unfold tourIn
    split
    · rename_i hold
      exact ⟨.nil hstays, by simpa using hold⟩
    · rename_i hnew
      have hnext := hstays.enter hd (by simpa using hnew)
      obtain ⟨htours, hparents⟩ := tourAll_tours ih (headerTypes t imports d) (d.id :: visited)
        (fun _ => known_of_extends) hnext (by rw [List.length_cons]; omega)
      exact ⟨htours.around hd hparents, htours.kept List.mem_cons_self⟩

/-! ### What a tour comes to -/

def Visit.type : Visit → Declaration
  | .enter d | .leave d => d

theorem tourAll_within {walk : Declaration → List QName → List Visit × List QName}
    (h : ∀ d visited, ∀ v ∈ (walk d visited).1, Inherits t imports d v.type)
    (parents : List TypeTarget) : ∀ visited, ∀ v ∈ (tourAll walk parents visited).1,
      ∃ e, .project e ∈ parents ∧ Inherits t imports e v.type := by
  induction parents with
  | nil => exact fun _ _ hv => absurd hv List.not_mem_nil
  | cons p parents ih =>
    intro visited v hv
    have hlater : ∀ visited, v ∈ (tourAll walk parents visited).1 →
        ∃ e, .project e ∈ p :: parents ∧ Inherits t imports e v.type := by
      intro visited hv
      obtain ⟨e, he, hvisit⟩ := ih visited v hv
      exact ⟨e, List.mem_cons_of_mem _ he, hvisit⟩
    cases p with
    | project d =>
      rcases List.mem_append.mp hv with hv | hv
      · exact ⟨d, List.mem_cons_self, h d visited v hv⟩
      · exact hlater _ hv
    | library id owner => exact hlater visited hv
    | unknown => exact hlater visited hv

theorem tourIn_within (fuel : Nat) : ∀ d visited, ∀ v ∈ (tourIn t imports fuel d visited).1,
    Inherits t imports d v.type := by
  induction fuel with
  | zero => exact fun _ _ _ hv => absurd hv List.not_mem_nil
  | succ fuel ih =>
    intro d visited v hv
    unfold tourIn at hv
    split at hv
    · exact absurd hv List.not_mem_nil
    · rcases List.mem_cons.mp hv with rfl | hv
      · exact .refl
      · rcases List.mem_append.mp hv with hv | hv
        · obtain ⟨e, he, hvisit⟩ := tourAll_within ih _ _ v hv
          exact .head he hvisit
        · obtain rfl := List.mem_singleton.mp hv
          exact .refl

/-- The tour enters the types that can be reached, and leaves them. -/
theorem tour_complete {T : Declaration} (hT : Known t T) (e : Declaration) :
    (.enter e ∈ tour t imports T ↔ Inherits t imports T e) ∧
      (.leave e ∈ tour t imports T ↔ Inherits t imports T e) := by
  obtain ⟨htours, hstart⟩ := @tourIn_tours t imports (searchDepth t) T [] hT
    ⟨List.nodup_nil, by simp⟩ (by rw [searchDepth]; omega)
  have henter : ∀ f, Known t f → f.id ∈ (tourIn t imports (searchDepth t) T []).2 →
      .enter f ∈ tour t imports T := by
    intro f hf hmem
    obtain ⟨e', he', hid⟩ := (htours.entered f.id hmem).resolve_left List.not_mem_nil
    have hsame : e' = f := by
      have hknown : Known t e' := htours.known e' he'
      unfold Known at hknown hf
      rw [hid, hf] at hknown
      exact (Option.some.inj hknown).symm
    exact hsame ▸ he'
  have hall : ∀ f, Inherits t imports T f → .enter f ∈ tour t imports T := by
    intro f hf
    induction hf with
    | refl => exact henter T hT hstart
    | tail _ hstep ih => exact henter _ (known_of_extends hstep) (htours.closed _ ih _ hstep)
  refine ⟨⟨fun he => tourIn_within _ _ _ _ he, hall e⟩,
    ⟨fun he => tourIn_within _ _ _ _ he, fun he => htours.left e (hall e he)⟩⟩

end

end Java

end Carve
