import Carve.Proofs.Java.Enclosure
import Carve.Proofs.Java.Lookup
import Carve.Proofs.Java.Tour

/-!
# Binding comes to an end

At `Option` binding has no result where a search uses up its depth. In a table of files that were
read it always has one, the result of the program: names get shorter from a type to the one around
it, a search enters no type twice, and a receiver has finitely many dots.
-/

namespace Carve

namespace Java

/-- A search whose depth is used up has no result. -/
instance : SearchMonad Option where
  spent _ := none

/-! ### What rests on the two searches -/

/-- Both searches stay within their depth, with the result that they have in the program. -/
structure Ends (t : Table) : Prop where
  chainFrom : ∀ start, chainFromM t start = some (chainFrom t start)
  findMember : ∀ imports owner name kind,
    findMemberM t imports owner name kind = some (findMember t imports owner name kind)

namespace Ends

variable {t : Table} (h : Ends t)

include h

theorem chainOf (d : Declaration) : chainOfM t d = some (Java.chainOf t d) :=
  h.chainFrom _

theorem placeOf (fallback : Imports) (d : Declaration) :
    placeOfM t fallback d = some (Java.placeOf t fallback d) := by
  unfold placeOfM
  rw [h.chainOf]
  rfl

theorem memberOrNested (imports : Imports) (owner : Declaration) (name : String)
    (kind : MemberKind) :
    memberOrNestedM t imports owner name kind =
      some (Java.memberOrNested t imports owner name kind) := by
  unfold memberOrNestedM
  rw [h.findMember, memberOrNested_def]
  cases Java.findMember t imports owner name kind with
  | found d => rfl
  | library id provider => rfl
  | missing =>
    simp only [Option.bind_eq_bind, Option.bind_some]
    cases (t.declaration? (owner.id.member name).text).filter (·.kind.isType) with
    | some nested => rfl
    | none =>
      dsimp only
      split <;> rfl

theorem staticMember (imports : Imports) (name : String) (kind : MemberKind) (owner : String) :
    staticMemberM t imports name kind owner =
      some (Java.staticMember t imports name kind owner) := by
  unfold staticMemberM
  rw [staticMember_def]
  cases resolveType t ⟨imports, []⟩ owner with
  | library id provider => rfl
  | unknown => rfl
  | project d =>
    dsimp only
    rw [h.findMember]
    cases Java.findMember t imports d name kind <;> rfl

theorem onDemandMember (here : Place) (name : String) (kind : MemberKind) :
    onDemandMemberM t here name kind = some (firstOnDemand
      (here.imports.staticOnDemand.map (Java.staticMember t here.imports name kind))) := by
  have hall : here.imports.staticOnDemand.mapM (staticMemberM t here.imports name kind) =
      some (here.imports.staticOnDemand.map (Java.staticMember t here.imports name kind)) := by
    rw [funext (h.staticMember here.imports name kind)]
    exact List.mapM_pure
  unfold onDemandMemberM
  rw [hall]
  rfl

theorem implicitMember (here : Place) (name : String) (kind : MemberKind) :
    implicitMemberM t here name kind = some (Java.implicitMember t here name kind) := by
  unfold implicitMemberM
  rw [implicitMember_def]
  simp only [h.memberOrNested, Option.bind_eq_bind, Option.bind_some]
  rw [List.findSomeM?_pure]
  cases here.chain.findSome? fun type =>
      (Java.memberOrNested t here.imports type name kind).answer? with
  | some found => rfl
  | none =>
    dsimp only
    cases here.imports.staticOwner? name with
    | none => exact h.onDemandMember here name kind
    | some owner =>
      dsimp only
      rw [h.staticMember]
      cases Java.staticMember t here.imports name kind owner with
      | missing => exact h.onDemandMember here name kind
      | found d => rfl
      | library id provider => rfl

theorem fieldInChain (here : Place) (name : String) :
    fieldInChainM t here name = some (Java.fieldInChain t here name) := by
  unfold fieldInChainM
  rw [fieldInChain_def]
  simp only [h.findMember, Option.bind_eq_bind, Option.bind_some]
  rw [List.findSomeM?_pure]
  rfl

theorem declaredType (imports : Imports) (member : Declaration) :
    declaredTypeM t imports member = some (Java.declaredType t imports member) := by
  unfold declaredTypeM
  rw [h.placeOf, declaredType_def]
  cases member.outline?.bind (·.typeText) with
  | none => rfl
  | some type =>
    dsimp only
    split <;> rfl

theorem lookupType (imports : Imports) (kind : MemberKind) (found : MemberLookup) :
    lookupTypeM t imports kind found = some (Java.lookupType t imports kind found) := by
  rw [lookupType_def]
  cases found with
  | library id provider => rfl
  | missing => rfl
  | found member =>
    unfold lookupTypeM
    dsimp only
    rw [h.declaredType]
    split
    · split <;> rfl
    · rfl

mutual

theorem receiverType (here : Place) : ∀ r : Receiver,
    receiverTypeM t here r = some (Java.receiverType t here r)
  | .implicit => by
    rw [receiverTypeM, receiverType_implicit]
    cases here.chain.head? <;> rfl
  | .super => by
    rw [receiverTypeM, receiverType_super]
    cases here.chain.head? with
    | none => rfl
    | some current =>
      dsimp only
      rw [h.placeOf]
      simp only [Option.bind_eq_bind, Option.bind_some]
      cases ((t.supertypes current.id).map
        (resolveType t (Java.placeOf t here.imports current))).find? (!·.isUnknown) <;> rfl
  | .typed _ => rfl
  | .created _ => rfl
  | .name name => by
    rw [receiverTypeM, receiverType_name, h.fieldInChain]
    simp only [Option.bind_eq_bind, Option.bind_some]
    cases Java.fieldInChain t here name with
    | found field => exact h.declaredType _ _
    | library id provider => cases resolveType t here name <;> rfl
    | missing => cases resolveType t here name <;> rfl
  | .call access => by
    rw [receiverTypeM]
    exact accessType here .method access
  | .field access => by
    rw [receiverTypeM]
    exact accessType here .field access
  | .unknown => rfl

theorem accessType (here : Place) (kind : MemberKind) : ∀ a : Access,
    accessTypeM t here kind a = some (Java.accessType t here kind a)
  | .mk name receiver => by
    have hreceiver := receiverType here receiver
    by_cases himplicit : receiver = .implicit
    · subst himplicit
      rw [accessTypeM, h.implicitMember]
      exact h.lookupType _ _ _
    · rw [accessTypeM, accessType_explicit himplicit, hreceiver]
      · cases Java.receiverType t here receiver with
        | foreign => rfl
        | unknown => rfl
        | known target =>
          cases target with
          | library id provider => rfl
          | unknown => rfl
          | project owner =>
            simp only [Option.bind_eq_bind, Option.bind_some]
            rw [h.memberOrNested]
            exact h.lookupType _ _ _
      · exact himplicit

end

theorem strangeType? (here : Place) (access : Access) :
    strangeTypeM? t here access = some (Java.strangeType? t here access) := by
  obtain ⟨name, receiver⟩ := access
  cases receiver with
  | name receiver =>
    unfold strangeTypeM?
    rw [strangeType?_def]
    dsimp only
    rw [h.fieldInChain]
    cases Java.fieldInChain t here receiver <;> rfl
  | _ => rfl

theorem bindLoose (here : Place) (kind : MemberKind) (access : Access) :
    bindLooseM t here kind access = some (Java.bindLoose t here kind access) := by
  unfold bindLooseM
  rw [bindLoose_def, h.strangeType?]
  simp only [Option.bind_eq_bind, Option.bind_some]
  split
  · rfl
  · cases Java.strangeType? t here access with
    | some receiver => rfl
    | none =>
      cases kind with
      | field => rfl
      | method =>
        dsimp only
        cases t.methodsNamed access.name with
        | nil => rfl
        | cons only rest => cases rest <;> rfl

theorem bindMember (here : Place) (kind : MemberKind) (access : Access) :
    bindMemberM t here kind access = some (Java.bindMember t here kind access) := by
  obtain ⟨name, receiver⟩ := access
  by_cases himplicit : receiver = .implicit
  · subst himplicit
    unfold bindMemberM
    rw [bindMember_implicit]
    dsimp only
    rw [h.implicitMember]
    cases Java.implicitMember t here name kind with
    | some found => rfl
    | none => exact h.bindLoose _ _ _
  · rw [bindMemberM, bindMember_explicit himplicit, h.receiverType]
    · cases Java.receiverType t here receiver with
      | foreign => rfl
      | unknown => exact h.bindLoose _ _ _
      | known target =>
        cases target with
        | library id provider => rfl
        | unknown => exact h.bindLoose _ _ _
        | project owner =>
          simp only [Option.bind_eq_bind, Option.bind_some]
          rw [h.memberOrNested]
          cases Java.memberOrNested t here.imports owner name kind with
          | missing => exact h.bindLoose _ _ _
          | found d => rfl
          | library id provider => rfl
    · exact himplicit

theorem bindMention (here : Place) (mention : Mention) :
    bindMentionM t here mention = some (Java.bindMention t here mention) := by
  cases mention with
  | type name =>
    unfold bindMentionM
    rw [bindMention_type]
    dsimp only
    cases resolveType t here name <;> rfl
  | call access => exact h.bindMember here .method access
  | field access => exact h.bindMember here .field access
  | bare name =>
    unfold bindMentionM
    rw [bindMention_bare]
    dsimp only
    rw [h.implicitMember]
    cases Java.implicitMember t here name .field with
    | some found => rfl
    | none =>
      simp only [Option.bind_eq_bind, Option.bind_some]
      split <;> rfl

theorem collect (d : Declaration) (imports : Imports) (sites : List UseSite) :
    collectM t d imports sites = some (Java.collect t d imports sites) := by
  unfold collectM
  rw [collect_def, h.chainOf]
  simp only [h.bindMention, Option.bind_eq_bind, Option.bind_some]
  rw [List.mapM_pure]
  rfl

end Ends

/-! ### The way outwards -/

section

variable {t : Table} {id : QName} {d : Declaration}

/-- Whatever encloses a declaration has a shorter name. -/
def Narrowing (t : Table) : Prop :=
  ∀ d, Known t d → ∀ p, d.parent = some p → p.text.length < d.id.text.length

theorem rank_pos (h : t.declaration? id.text = some d) : 0 < rank t id := by
  obtain ⟨row, hrow, -⟩ := Option.map_eq_some_iff.mp h
  have hid : row.1.decl.id.text = id.text := by simpa using List.find?_some hrow
  exact List.countP_pos_iff.mpr ⟨row, List.mem_of_find?_eq_some hrow, by simp [hid]⟩

theorem Narrowing.rank_lt (h : Narrowing t) (hd : t.declaration? id.text = some d) {p : QName}
    (hp : d.parent = some p) : rank t p < rank t id := by
  have hid := Table.declaration?_id hd
  have hlt := Java.rank_lt (h d (known_of_declaration? hd) p hp) (by rw [hid, hd]; rfl)
  rwa [hid] at hlt

theorem Narrowing.enclosing (h : Narrowing t) (depth : Nat) : ∀ start : Option QName,
    (∀ id ∈ start, rank t id < depth) → 0 < depth →
      enclosingM t depth start = some (Java.enclosing t depth start) := by
  induction depth with
  | zero => exact fun _ _ hpos => absurd hpos (Nat.lt_irrefl 0)
  | succ depth ih =>
    intro start hrank _
    cases start with
    | none => rfl
    | some id =>
      rw [enclosingM, enclosing_succ]
      cases hd : t.declaration? id.text with
      | none => rfl
      | some d =>
        have hdepth := Nat.le_of_lt_succ (hrank id rfl)
        have hparent : ∀ p ∈ d.parent, rank t p < depth := fun p hp =>
          Nat.lt_of_lt_of_le (h.rank_lt hd hp) hdepth
        dsimp only
        rw [ih d.parent hparent (Nat.lt_of_lt_of_le (rank_pos hd) hdepth)]
        rfl

theorem Narrowing.chainFrom (h : Narrowing t) (start : Option QName) :
    chainFromM t start = some (Java.chainFrom t start) := by
  refine h.enclosing (searchDepth t) start (fun id _ => ?_) (Nat.succ_pos _)
  exact Nat.lt_succ_of_le (Nat.le_succ_of_le List.countP_le_length)

theorem Narrowing.placeOf (h : Narrowing t) (fallback : Imports) (d : Declaration) :
    placeOfM t fallback d = some (Java.placeOf t fallback d) := by
  unfold placeOfM chainOfM
  rw [h.chainFrom]
  rfl

/-! ### The search of a hierarchy -/

/-- Types that a search has entered, each once: its start and types of the table. -/
structure Explored (t : Table) (start : QName) (visited : List QName) : Prop where
  nodup : visited.Nodup
  known : ∀ id ∈ visited, id = start ∨ ∃ d, t.declaration? id.text = some d

variable {start : QName} {visited : List QName} {owner : Declaration}

theorem Explored.length_le (h : Explored t start visited) : visited.length ≤ t.size + 1 := by
  have hstays : Stays t (visited.erase start) := by
    refine ⟨h.nodup.erase start, fun id hid => ?_⟩
    obtain ⟨hne, hmem⟩ := h.nodup.mem_erase_iff.mp hid
    exact (h.known id hmem).resolve_left hne
  have hrest := hstays.length_le
  have herase := List.le_length_erase (a := start) (l := visited)
  omega

theorem Explored.enter (h : Explored t start visited) (howner : owner.id = start ∨ Known t owner)
    (hnew : owner.id ∉ visited) : Explored t start (owner.id :: visited) where
  nodup := List.nodup_cons.mpr ⟨hnew, h.nodup⟩
  known id hid := by
    rcases List.mem_cons.mp hid with rfl | hid
    · exact howner.imp_right fun hknown => ⟨owner, hknown⟩
    · exact h.known id hid

/-- A search that comes to this result, after it has entered types of the table only. -/
structure Comes (t : Table) (start : QName) (visited : List QName)
    (run : Option (MemberLookup × List QName)) (result : MemberLookup × List QName) : Prop where
  ends : run = some result
  entered : Explored t start result.2
  grows : visited.length ≤ result.2.length

variable {imports : Imports} {name : String} {kind : MemberKind}

theorem searchSupertypes_comes {n depth : Nat}
    (hsearch : ∀ parent visited, parent.id = start ∨ Known t parent → Explored t start visited →
      n ≤ visited.length → Comes t start visited
        (findMemberInM t imports name kind depth parent visited)
        (findMemberIn t imports name kind depth parent visited))
    (parents : List TypeTarget) : (∀ p ∈ parents, p.Sound t) → ∀ library visited,
      Explored t start visited → n ≤ visited.length → Comes t start visited
        (searchSupertypesM (findMemberInM t imports name kind depth) parents library visited)
        (searchSupertypes (findMemberIn t imports name kind depth) parents library visited) := by
  induction parents with
  | nil => exact fun _ _ _ hexplored _ => ⟨rfl, hexplored, Nat.le_refl _⟩
  | cons p rest ih =>
    intro hsound library visited hexplored hn
    have hrest := ih fun q hq => hsound q (List.mem_cons_of_mem _ hq)
    have hp := hsound p List.mem_cons_self
    cases p with
    | unknown => exact hrest library visited hexplored hn
    | library id provider => exact hrest _ visited hexplored hn
    | project parent =>
      obtain ⟨hends, hafter, hgrows⟩ := hsearch parent visited (Or.inr hp) hexplored hn
      rw [searchSupertypesM, searchSupertypes_project, hends]
      generalize findMemberIn t imports name kind depth parent visited = result at hafter hgrows
      obtain ⟨found, after⟩ := result
      cases found with
      | missing =>
        obtain ⟨hends, hexplored, hmore⟩ := hrest library after hafter (Nat.le_trans hn hgrows)
        exact ⟨hends, hexplored, Nat.le_trans hgrows hmore⟩
      | found d => exact ⟨rfl, hafter, hgrows⟩
      | library id provider => exact ⟨rfl, hafter, hgrows⟩

/-- There is depth enough for every type of the table and for the start, and none comes twice. -/
theorem Narrowing.search_comes (h : Narrowing t) (depth : Nat) :
    ∀ owner visited, owner.id = start ∨ Known t owner → Explored t start visited →
      searchDepth t - depth ≤ visited.length → Comes t start visited
        (findMemberInM t imports name kind depth owner visited)
        (findMemberIn t imports name kind depth owner visited) := by
  induction depth with
  | zero =>
    intro owner visited _ hexplored hdepth
    have hlength := hexplored.length_le
    rw [searchDepth] at hdepth
    omega
  | succ depth ih =>
    intro owner visited howner hexplored hdepth
    rw [findMemberInM, findMemberIn_succ]
    by_cases hold : visited.contains owner.id = true
    · rw [if_pos hold, if_pos hold]
      exact ⟨rfl, hexplored, Nat.le_refl _⟩
    · rw [if_neg hold, if_neg hold]
      have hnext := hexplored.enter howner (by simpa using hold)
      have hgrows : visited.length ≤ (owner.id :: visited).length := Nat.le_succ _
      cases declaredMember t owner.id name kind with
      | some d => exact ⟨rfl, hnext, hgrows⟩
      | none =>
        have hsound : ∀ p ∈ (t.supertypes owner.id).map
            (resolveType t (Java.placeOf t imports owner)), p.Sound t := by
          intro p hp
          obtain ⟨written, -, rfl⟩ := List.mem_map.mp hp
          exact resolveType_sound (chainOf_known owner) written
        obtain ⟨hends, hexplored, hmore⟩ := searchSupertypes_comes ih _ hsound .missing
          (owner.id :: visited) hnext (by rw [List.length_cons]; omega)
        dsimp only
        rw [h.placeOf]
        exact ⟨hends, hexplored, Nat.le_trans hgrows hmore⟩

end

section

variable {t : Table} (h : Narrowing t)

include h

theorem Narrowing.findMemberIn (imports : Imports) (name : String) (kind : MemberKind)
    (owner : Declaration) :
    ∃ visited, findMemberInM t imports name kind (searchDepth t) owner [] =
        some (findMember t imports owner name kind, visited) ∧
      visited.Nodup ∧ visited.length ≤ t.size + 1 := by
  have hnone : Explored t owner.id [] := ⟨List.nodup_nil, by simp⟩
  obtain ⟨hends, hexplored, -⟩ : Comes t owner.id []
      (findMemberInM t imports name kind (searchDepth t) owner [])
      (Java.findMemberIn t imports name kind (searchDepth t) owner []) :=
    h.search_comes _ owner [] (Or.inl rfl) hnone (by simp)
  exact ⟨_, hends, hexplored.nodup, hexplored.length_le⟩

theorem Narrowing.ends : Ends t where
  chainFrom := h.chainFrom
  findMember imports owner name kind := by
    obtain ⟨visited, hsearch, -, -⟩ := h.findMemberIn imports name kind owner
    unfold findMemberM
    rw [hsearch]
    rfl

end

theorem narrowing_tableOf (sources : List SourceText) (catalog : Catalog) :
    Narrowing (tableOf sources catalog) := by
  intro d hd p hp
  obtain ⟨f, hf, e, he, rfl⟩ := Table.declaration?_mem hd
  obtain ⟨s, -, rfl⟩ := List.mem_map.mp hf
  exact length_of_below (s.parsed.consistent.named e he p hp)

/-- In the table of any files no way outwards and no search goes deeper than the table is large, and
with them binding comes to an end, whatever extends what and however receivers are nested. -/
theorem binding_ends (sources : List SourceText) (catalog : Catalog) :
    let t := tableOf sources catalog
    (∀ start, chainFromM t start = some (chainFrom t start)) ∧
    (∀ imports name kind owner, ∃ visited,
      findMemberInM t imports name kind (searchDepth t) owner [] =
        some (findMember t imports owner name kind, visited) ∧
      visited.Nodup ∧ visited.length ≤ t.size + 1) ∧
    (∀ here receiver, receiverTypeM t here receiver = some (receiverType t here receiver)) ∧
    (∀ here mention, bindMentionM t here mention = some (bindMention t here mention)) ∧
    ∀ d imports sites, collectM t d imports sites = some (collect t d imports sites) := by
  have h := narrowing_tableOf sources catalog
  exact ⟨h.chainFrom, h.findMemberIn, h.ends.receiverType, h.ends.bindMention, h.ends.collect⟩

end Java

end Carve
