import Mathlib.Data.List.TakeDrop
import Mathlib.Data.List.TakeWhile
import Carve.Proofs.Java.Binding
import Carve.Proofs.QName
import Carve.Proofs.Table

/-!
# What names are bound to

Whatever a name leads to is either a declaration that the table has under its name, or a library
type. The package of a library type is what stands before the last dot of its name, and the package
tells the library that provides it. This is carried from the types around a use site through
types, members and receivers to the bound site.
-/

namespace Carve

theorem Text.splitFirst_dotless {sep : Char} {s front tail : String}
    (h : splitFirst sep s = some (front, tail)) : sep ∉ front.toList := by
  unfold splitFirst at h
  rw [List.span_eq_takeWhile_dropWhile] at h
  dsimp only at h
  split at h
  · cases h
  · obtain ⟨rfl, -⟩ := Prod.mk.inj (Option.some.inj h)
    rw [String.toList_ofList]
    intro hmem
    simpa using List.mem_takeWhile_imp hmem

theorem Text.not_mem_of_splitFirst {sep : Char} {s : String} (h : splitFirst sep s = none) :
    sep ∉ s.toList := by
  unfold splitFirst at h
  rw [List.span_eq_takeWhile_dropWhile] at h
  dsimp only at h
  split at h
  · rename_i hrest
    intro hmem
    have := List.dropWhile_eq_nil_iff.mp hrest sep hmem
    simp at this
  · cases h

namespace Java

section

variable (t : Table)

def Known (d : Declaration) : Prop := t.declaration? d.id.text = some d

/-- A library type of a package, with the library that provides the package. The types that need
no import belong to the platform, whatever the catalog says. -/
def Provided (id : QName) (owner : Coordinate) : Prop :=
  ∃ package name, '.' ∉ name.toList ∧ id = QName.member ⟨package⟩ name ∧
    (owner = coordinateFor t package ∨ package = "java.lang" ∧ owner = .jdk)

def TypeTarget.Sound : TypeTarget → Prop
  | .project d => Known t d
  | .library id owner => Provided t id owner
  | .unknown => True

def MemberLookup.Sound : MemberLookup → Prop
  | .found d => Known t d
  | .library id owner => Provided t id owner
  | .missing => True

def ReceiverType.Sound : ReceiverType → Prop
  | .known type => type.Sound t
  | .foreign | .unknown => True

def Bound.Sound : Bound → Prop
  | .project target _ => ∃ d, t.declaration? target.text = some d
  | .library target owner _ => Provided t target owner
  | .unresolved _ | .nothing => True

end

section

variable {t : Table} {imports : Imports} {here : Place}

theorem known_of_declaration? {id : String} {d : Declaration} (h : t.declaration? id = some d) :
    Known t d := by
  unfold Known
  rw [Table.declaration?_id h]
  exact h

theorem known_of_filter {id : String} {p : Declaration → Bool} {d : Declaration}
    (h : (t.declaration? id).filter p = some d) : Known t d :=
  known_of_declaration? (Option.filter_eq_some_iff.mp h).1

theorem enclosing_known (fuel : Nat) : ∀ start, ∀ N ∈ enclosing t fuel start, Known t N := by
  induction fuel with
  | zero => exact fun _ _ hN => absurd hN List.not_mem_nil
  | succ fuel ih =>
    intro start N hN
    cases start with
    | none => exact absurd hN List.not_mem_nil
    | some id =>
      rw [enclosing_succ] at hN
      split at hN
      · exact absurd hN List.not_mem_nil
      · rename_i d hd
        split at hN
        · rcases List.mem_cons.mp hN with rfl | hN
          · exact known_of_declaration? hd
          · exact ih _ N hN
        · exact ih _ N hN

theorem chainOf_known (d : Declaration) : ∀ N ∈ chainOf t d, Known t N := enclosing_known _ _

theorem resolveInPackage_sound (package rest : String) :
    (resolveInPackage t package rest).Sound t := by
  unfold resolveInPackage
  split
  · rename_i d hd
    exact known_of_declaration? hd
  · split
    · trivial
    · dsimp only
      split
      · rename_i head tail hsplit
        exact ⟨package, head, Text.splitFirst_dotless hsplit, rfl, Or.inl rfl⟩
      · rename_i hsplit
        exact ⟨package, rest, Text.not_mem_of_splitFirst hsplit, rfl, Or.inl rfl⟩

theorem resolveInChain_known (h : ∀ N ∈ here.chain, Known t N) {name : String} {d : Declaration}
    (hd : resolveInChain t name here.chain = some d) : Known t d := by
  obtain ⟨N, hN, hanswer⟩ := List.exists_of_findSome?_eq_some hd
  split at hanswer
  · exact Option.some.inj hanswer ▸ h N hN
  · exact known_of_filter hanswer

theorem resolveSimple_sound (h : ∀ N ∈ here.chain, Known t N) {name : String}
    (hname : '.' ∉ name.toList) : (resolveSimple t here name).Sound t := by
  unfold resolveSimple
  split
  · rename_i d hd
    exact resolveInChain_known h hd
  · split
    · split
      · exact resolveInPackage_sound _ _
      · trivial
    · dsimp only
      split
      · rename_i d hd
        exact known_of_declaration? hd
      · split
        · exact ⟨"java.lang", name, hname, rfl, Or.inr ⟨rfl, rfl⟩⟩
        · split
          · rename_i d hd
            obtain ⟨p, -, hp⟩ := List.exists_of_findSome?_eq_some hd
            exact known_of_declaration? hp
          · split
            · rename_i package _
              exact ⟨package, name, hname, rfl, Or.inl rfl⟩
            · trivial

theorem resolveType_sound (h : ∀ N ∈ here.chain, Known t N) (written : String) :
    (resolveType t here written).Sound t := by
  unfold resolveType
  dsimp only
  generalize stripGenerics written = name
  split
  · trivial
  · split
    · rename_i hdot
      exact resolveSimple_sound h (by simpa using hdot)
    · split
      · exact resolveInPackage_sound _ _
      · rename_i rest _
        have hhead : '.' ∉ ((Text.splitFirst '.' rest).getD (rest, "")).1.toList := by
          cases hsplit : Text.splitFirst '.' rest with
          | none => exact Text.not_mem_of_splitFirst hsplit
          | some pair => exact Text.splitFirst_dotless hsplit
        split
        · have hfirst := resolveSimple_sound (t := t) h hhead
          split
          · split
            · rename_i d hd
              exact known_of_declaration? hd
            · trivial
          · exact hfirst
        · trivial

theorem declaredMember_known {owner : QName} {name : String} {kind : MemberKind} {d : Declaration}
    (h : declaredMember t owner name kind = some d) : Known t d := by
  unfold declaredMember at h
  dsimp only at h
  split at h
  · rename_i hd
    exact Option.some.inj h ▸ known_of_filter hd
  · split at h
    · exact known_of_filter h
    · cases h

theorem searchSupertypes_sound {search : Declaration → List QName → MemberLookup × List QName}
    (hsearch : ∀ d visited, (search d visited).1.Sound t) (parents : List TypeTarget) :
    (∀ p ∈ parents, p.Sound t) → ∀ (library : MemberLookup) (visited : List QName),
      library.Sound t → (searchSupertypes search parents library visited).1.Sound t := by
  induction parents with
  | nil => exact fun _ _ _ hlibrary => hlibrary
  | cons p parents ih =>
    intro hparents library visited hlibrary
    have hrest : ∀ q ∈ parents, q.Sound t := fun q hq => hparents q (List.mem_cons_of_mem _ hq)
    have hp := hparents p List.mem_cons_self
    cases p with
    | project parent =>
      rw [searchSupertypes_project]
      have hfound := hsearch parent visited
      split
      · exact ih hrest _ _ hlibrary
      · exact hfound
    | library id owner =>
      rw [searchSupertypes_library]
      refine ih hrest _ _ ?_
      split
      · exact hp
      · exact hlibrary
    | unknown =>
      rw [searchSupertypes_unknown]
      exact ih hrest _ _ hlibrary

theorem findMemberIn_sound (imports : Imports) (name : String) (kind : MemberKind) (fuel : Nat) :
    ∀ owner visited, (findMemberIn t imports name kind fuel owner visited).1.Sound t := by
  induction fuel with
  | zero => exact fun _ _ => trivial
  | succ fuel ih =>
    intro owner visited
    rw [findMemberIn_succ]
    split
    · trivial
    · split
      · rename_i d hd
        exact declaredMember_known hd
      · refine searchSupertypes_sound ih _ (fun p hp => ?_) _ _ trivial
        obtain ⟨written, -, rfl⟩ := List.mem_map.mp hp
        exact resolveType_sound (chainOf_known owner) written

theorem findMember_sound (imports : Imports) (owner : Declaration) (name : String)
    (kind : MemberKind) : (findMember t imports owner name kind).Sound t := by
  rw [findMember_def]
  exact findMemberIn_sound imports name kind _ owner []

theorem memberOrNested_sound (imports : Imports) {owner : Declaration} (h : Known t owner)
    (name : String) (kind : MemberKind) : (memberOrNested t imports owner name kind).Sound t := by
  rw [memberOrNested_def]
  have hfound := findMember_sound (t := t) imports owner name kind
  split
  · split
    · rename_i nested hnested
      exact known_of_filter hnested
    · split
      · exact h
      · trivial
  · exact hfound

theorem staticMember_sound (imports : Imports) (name : String) (kind : MemberKind)
    (owner : String) : (staticMember t imports name kind owner).Sound t := by
  rw [staticMember_def]
  have howner : (resolveType t ⟨imports, []⟩ owner).Sound t :=
    resolveType_sound (fun _ hN => absurd hN List.not_mem_nil) owner
  split
  · rename_i d _
    have hmember := findMember_sound (t := t) imports d name kind
    split
    · rename_i m hm
      rw [hm] at hmember
      exact hmember
    · trivial
  · rename_i id c hlibrary
    rw [hlibrary] at howner
    exact howner
  · trivial

theorem MemberLookup.answer?_eq_some {l found : MemberLookup} (h : l.answer? = some found) :
    l = found := by
  cases l with
  | missing => cases h
  | found d => exact Option.some.inj h
  | library id owner => exact Option.some.inj h

theorem mem_of_firstOnDemand {wide : List MemberLookup} {found : MemberLookup}
    (h : firstOnDemand wide = some found) : found ∈ wide := by
  unfold firstOnDemand at h
  split at h
  · rename_i m hm
    exact Option.some.inj h ▸ List.mem_of_find?_eq_some hm
  · exact List.mem_of_find?_eq_some h

theorem implicitMember_sound (h : ∀ N ∈ here.chain, Known t N) {name : String} {kind : MemberKind}
    {found : MemberLookup} (hfound : implicitMember t here name kind = some found) :
    found.Sound t := by
  have hwide : ∀ m, firstOnDemand
      (here.imports.staticOnDemand.map (staticMember t here.imports name kind)) = some m →
        m.Sound t := by
    intro m hm
    obtain ⟨owner, -, rfl⟩ := List.mem_map.mp (mem_of_firstOnDemand hm)
    exact staticMember_sound _ _ _ owner
  rw [implicitMember_def] at hfound
  dsimp only at hfound
  split at hfound
  · rename_i m hm
    obtain ⟨N, hN, hanswer⟩ := List.exists_of_findSome?_eq_some hm
    obtain rfl := Option.some.inj hfound
    exact MemberLookup.answer?_eq_some hanswer ▸ memberOrNested_sound here.imports (h N hN) name kind
  · split at hfound
    · exact hwide _ hfound
    · split at hfound
      · exact hwide _ hfound
      · exact Option.some.inj hfound ▸ staticMember_sound _ _ _ _

theorem valueType_sound (h : ∀ N ∈ here.chain, Known t N) (type : String) :
    (valueType t here type).Sound t := by
  unfold valueType
  have htype := resolveType_sound h type
  split
  · trivial
  · split
    · trivial
    · exact htype

theorem declaredType_sound (imports : Imports) (member : Declaration) :
    (declaredType t imports member).Sound t := by
  rw [declaredType_def]
  split
  · split
    · trivial
    · exact valueType_sound (chainOf_known member) _
  · trivial

theorem lookupType_sound (imports : Imports) (kind : MemberKind) {m : MemberLookup}
    (h : m.Sound t) : (lookupType t imports kind m).Sound t := by
  rw [lookupType_def]
  split
  · split
    · split
      · exact h
      · trivial
    · exact declaredType_sound imports _
  · trivial
  · trivial

mutual
theorem receiverType_sound (h : ∀ N ∈ here.chain, Known t N) : ∀ r : Receiver,
    (receiverType t here r).Sound t
  | .implicit => by
    rw [receiverType_implicit]
    split
    · rename_i type htype
      exact h type (List.mem_of_head? htype)
    · trivial
  | .super => by
    rw [receiverType_super]
    split
    · trivial
    · rename_i current _
      split
      · rename_i parent hparent
        obtain ⟨written, -, rfl⟩ := List.mem_map.mp (List.mem_of_find?_eq_some hparent)
        exact resolveType_sound (chainOf_known current) written
      · trivial
  | .typed type => valueType_sound h type
  | .created type => valueType_sound h type
  | .name name => by
    rw [receiverType_name]
    have htype := resolveType_sound h name
    split
    · exact declaredType_sound _ _
    · split
      · split <;> trivial
      · exact htype
  | .call access => accessType_sound h .method access
  | .field access => accessType_sound h .field access
  | .unknown => trivial

theorem accessType_sound (h : ∀ N ∈ here.chain, Known t N) (kind : MemberKind) : ∀ a : Access,
    (accessType t here kind a).Sound t
  | .mk name receiver => by
    have hreceiver := receiverType_sound h receiver
    by_cases himplicit : receiver = .implicit
    · subst himplicit
      rw [accessType_implicit]
      refine lookupType_sound _ kind ?_
      cases hfound : implicitMember t here name kind with
      | none => trivial
      | some found => exact implicitMember_sound h hfound
    · rw [accessType_explicit himplicit]
      split
      · rename_i owner howner
        rw [howner] at hreceiver
        exact lookupType_sound _ kind (memberOrNested_sound _ hreceiver name kind)
      · trivial
      · trivial
      · trivial
end

theorem ofLookup_sound {name : String} {m : MemberLookup} (h : m.Sound t) :
    (Bound.ofLookup name m).Sound t := by
  cases m with
  | found d => exact ⟨d, h⟩
  | library id owner => exact h
  | missing => trivial

theorem methodsNamed_declared {name : String} : ∀ id ∈ t.methodsNamed name,
    ∃ d, t.declaration? id.text = some d := by
  intro id hid
  obtain ⟨row, hrow, rfl⟩ := List.mem_map.mp hid
  have hsome : (t.row? row.1.decl.id.text).isSome :=
    List.find?_isSome.mpr ⟨row, (List.mem_filter.mp hrow).1, by simp⟩
  obtain ⟨first, hfirst⟩ := Option.isSome_iff_exists.mp hsome
  exact ⟨first.1.decl, by rw [Table.declaration?, hfirst]; rfl⟩

theorem bindLoose_sound (kind : MemberKind) (access : Access) :
    (bindLoose t here kind access).Sound t := by
  rw [bindLoose_def]
  split
  · trivial
  · split
    · trivial
    · split
      · trivial
      · split
        · rename_i only honly
          exact methodsNamed_declared only (honly ▸ List.mem_singleton.mpr rfl)
        · trivial

theorem bindMember_sound (h : ∀ N ∈ here.chain, Known t N) (kind : MemberKind)
    (access : Access) : (bindMember t here kind access).Sound t := by
  obtain ⟨name, receiver⟩ := access
  have hreceiver := receiverType_sound h receiver
  by_cases himplicit : receiver = .implicit
  · subst himplicit
    rw [bindMember_implicit]
    split
    · rename_i found hfound
      exact ofLookup_sound (implicitMember_sound h hfound)
    · exact bindLoose_sound kind _
  · rw [bindMember_explicit himplicit]
    split
    · rename_i owner howner
      rw [howner] at hreceiver
      have hknown : Known t owner := hreceiver
      have hmember := memberOrNested_sound here.imports hknown name kind
      split
      · exact bindLoose_sound kind _
      · exact ofLookup_sound hmember
    · rename_i id owner hlibrary
      rw [hlibrary] at hreceiver
      exact hreceiver
    · exact bindLoose_sound kind _
    · exact bindLoose_sound kind _
    · trivial

theorem bindMention_sound (h : ∀ N ∈ here.chain, Known t N) (m : Mention) :
    (bindMention t here m).Sound t := by
  cases m with
  | type name =>
    have htype := resolveType_sound h name
    rw [bindMention_type]
    split
    · rename_i d hd
      rw [hd] at htype
      exact ⟨d, htype⟩
    · rename_i id owner hlibrary
      rw [hlibrary] at htype
      exact htype
    · trivial
  | call access => exact bindMember_sound h .method access
  | field access => exact bindMember_sound h .field access
  | bare name =>
    rw [bindMention_bare]
    split
    · rename_i found hfound
      exact ofLookup_sound (implicitMember_sound h hfound)
    · split <;> trivial

/-- Every library type that a declaration uses comes with the library of its package. -/
theorem collect_provided {d : Declaration} {sites : List UseSite} :
    ∀ l ∈ (collect t d imports sites).libraries,
      ∃ id owner, l = .library id owner ∧ Provided t id owner := by
  intro l hl
  rw [collect_def] at hl
  obtain ⟨⟨s, b⟩, hb, hlibrary⟩ := List.mem_filterMap.mp (mem_keepFirst hl)
  obtain ⟨s, -, hbound⟩ := List.mem_map.mp hb
  obtain ⟨rfl, rfl⟩ := Prod.mk.inj hbound
  have hsound : (bindMention t ⟨imports, chainOf t d⟩ s.mention).Sound t :=
    bindMention_sound (chainOf_known d) s.mention
  cases hmention : bindMention t ⟨imports, chainOf t d⟩ s.mention with
  | library id owner name =>
    rw [hmention] at hlibrary hsound
    exact ⟨id, owner, (Option.some.inj hlibrary).symm, hsound⟩
  | project id name =>
    rw [hmention] at hlibrary
    cases hlibrary
  | unresolved name =>
    rw [hmention] at hlibrary
    cases hlibrary
  | nothing =>
    rw [hmention] at hlibrary
    cases hlibrary

/-- The name of a library type tells the library. -/
theorem Provided.owner_eq (hplatform : coordinateFor t "java.lang" = .jdk) {id : QName}
    {owner owner' : Coordinate} (h : Provided t id owner) (h' : Provided t id owner') :
    owner = owner' := by
  obtain ⟨package, name, hname, rfl, howner⟩ := h
  obtain ⟨package', name', hname', hid, howner'⟩ := h'
  obtain rfl := QName.mk.inj (QName.member_inj hname hname' hid)
  have hone : ∀ c, (c = coordinateFor t package ∨ package = "java.lang" ∧ c = .jdk) →
      c = coordinateFor t package := by
    rintro c (rfl | ⟨rfl, rfl⟩)
    · rfl
    · exact hplatform.symm
  exact (hone _ howner).trans (hone _ howner').symm

end

end Java

end Carve
