import Carve.Java.Binding

/-!
# Binding without a depth

At `Id` the functions of binding are plain functions, each told here by those that it calls.
-/

namespace Carve.Java

variable (t : Table) (here : Place) (imports : Imports) (name : String) (kind : MemberKind)

/-! ### Enclosing types -/

theorem enclosing_succ (depth : Nat) (id : QName) :
    enclosing t (depth + 1) (some id) =
      match t.declaration? id.text with
      | none => []
      | some d =>
        if d.kind.isType then d :: enclosing t depth d.parent else enclosing t depth d.parent := by
  show Id.run (enclosingM t (depth + 1) (some id)) = _
  unfold enclosingM
  cases t.declaration? id.text <;> rfl

theorem chainOf_def (d : Declaration) :
    chainOf t d = enclosing t (searchDepth t) (if d.kind.isType then some d.id else d.parent) :=
  rfl

theorem placeOf_def (fallback : Imports) (d : Declaration) :
    placeOf t fallback d = ⟨(t.imports? d.id).getD fallback, chainOf t d⟩ := rfl

/-! ### Members -/

section

variable (search : Declaration → List QName → MemberLookup × List QName) (rest : List TypeTarget)
  (library : MemberLookup) (visited : List QName)

theorem searchSupertypes_project (parent : Declaration) :
    searchSupertypes search (.project parent :: rest) library visited =
      match search parent visited with
      | (.missing, visited) => searchSupertypes search rest library visited
      | found => found := by
  show Id.run (do
    match search parent visited with
    | (.missing, visited) => searchSupertypesM (m := Id) search rest library visited
    | found => return found) = _
  split <;> rfl

theorem searchSupertypes_library (id : QName) (owner : Coordinate) :
    searchSupertypes search (.library id owner :: rest) library visited =
      searchSupertypes search rest (if library.isMissing then .library id owner else library)
        visited := rfl

theorem searchSupertypes_unknown :
    searchSupertypes search (.unknown :: rest) library visited =
      searchSupertypes search rest library visited := rfl

end

theorem findMemberIn_succ (depth : Nat) (owner : Declaration) (visited : List QName) :
    findMemberIn t imports name kind (depth + 1) owner visited =
      if visited.contains owner.id then (.missing, visited)
      else
        match declaredMember t owner.id name kind with
        | some d => (.found d, owner.id :: visited)
        | none => searchSupertypes (findMemberIn t imports name kind depth)
            ((t.supertypes owner.id).map (resolveType t (placeOf t imports owner))) .missing
            (owner.id :: visited) := by
  show Id.run (findMemberInM t imports name kind (depth + 1) owner visited) = _
  unfold findMemberInM
  split
  · rfl
  · dsimp only
    cases declaredMember t owner.id name kind <;> rfl

theorem findMember_def (owner : Declaration) :
    findMember t imports owner name kind =
      (findMemberIn t imports name kind (searchDepth t) owner []).1 := rfl

theorem memberOrNested_def (owner : Declaration) :
    memberOrNested t imports owner name kind =
      match findMember t imports owner name kind with
      | .missing =>
        match (t.declaration? (owner.id.member name).text).filter (·.kind.isType) with
        | some nested => .found nested
        | none =>
          if kind == .method && (owner.kind == .enumType || owner.kind == .recordType) &&
              !isObjectMethod name then .found owner
          else .missing
      | found => found := rfl

theorem staticMember_def (owner : String) :
    staticMember t imports name kind owner =
      match resolveType t ⟨imports, []⟩ owner with
      | .project d =>
        match findMember t imports d name kind with
        | .found member => .found member
        | _ => .missing
      | .library id c => .library id c
      | .unknown => .missing := by
  unfold staticMember staticMemberM
  cases resolveType t ⟨imports, []⟩ owner <;> rfl

theorem onDemandMember_def :
    Id.run (onDemandMemberM t here name kind) = firstOnDemand
      (here.imports.staticOnDemand.map (staticMember t here.imports name kind)) :=
  congrArg firstOnDemand List.idRun_mapM

theorem implicitMember_def :
    implicitMember t here name kind =
      match here.chain.findSome? fun type =>
          (memberOrNested t here.imports type name kind).answer? with
      | some found => some found
      | none =>
        let onDemand := firstOnDemand
          (here.imports.staticOnDemand.map (staticMember t here.imports name kind))
        match here.imports.staticOwner? name with
        | none => onDemand
        | some owner =>
          match staticMember t here.imports name kind owner with
          | .missing => onDemand
          | found => some found := by
  unfold implicitMember implicitMemberM
  rw [Id.run_bind, List.idRun_findSomeM?, ← onDemandMember_def]
  rfl

theorem fieldInChain_def :
    fieldInChain t here name =
      (here.chain.findSome? fun type =>
        (findMember t here.imports type name .field).answer?).getD .missing := by
  unfold fieldInChain fieldInChainM
  rw [Id.run_bind, List.idRun_findSomeM?]
  rfl

theorem declaredType_def (member : Declaration) :
    declaredType t imports member =
      match member.outline?.bind (·.typeText) with
      | some type =>
        if isPrimitive (Text.trimmed type) then .foreign
        else valueType t (placeOf t imports member) type
      | none => .unknown := by
  unfold declaredType declaredTypeM
  cases member.outline?.bind (·.typeText) with
  | none => rfl
  | some type =>
    dsimp only
    split <;> rfl

theorem receiverType_implicit : receiverType t here .implicit =
    match here.chain.head? with
    | some type => .known (.project type)
    | none => .unknown := by
  unfold receiverType receiverTypeM
  cases here.chain.head? <;> rfl

theorem receiverType_super : receiverType t here .super =
    match here.chain.head? with
    | none => .unknown
    | some current =>
      match ((t.supertypes current.id).map
          (resolveType t (placeOf t here.imports current))).find? (!·.isUnknown) with
      | some parent => .known parent
      | none => .unknown := rfl

theorem receiverType_typed (type : String) :
    receiverType t here (.typed type) = valueType t here type := rfl

theorem receiverType_created (type : String) :
    receiverType t here (.created type) = valueType t here type := rfl

theorem receiverType_name : receiverType t here (.name name) =
    match fieldInChain t here name with
    | .found field => declaredType t here.imports field
    | field =>
      match resolveType t here name with
      | .unknown => if field.isMissing then .unknown else .foreign
      | found => .known found := rfl

theorem lookupType_def (found : MemberLookup) :
    lookupType t imports kind found =
      match found with
      | .found member =>
        if member.kind.isType then
          if kind == .field || member.kind == .enumType then .known (.project member) else .unknown
        else declaredType t imports member
      | .library _ _ => .foreign
      | .missing => .unknown := by
  unfold lookupType lookupTypeM
  cases found with
  | found member =>
    dsimp only
    split
    · split <;> rfl
    · rfl
  | library id owner => rfl
  | missing => rfl

theorem accessType_implicit : accessType t here kind (.mk name .implicit) =
    lookupType t here.imports kind ((implicitMember t here name kind).getD .missing) := rfl

variable {t here name kind} in
theorem accessType_explicit {receiver : Receiver} (h : receiver ≠ .implicit) :
    accessType t here kind (.mk name receiver) =
      match receiverType t here receiver with
      | .known (.project owner) =>
        lookupType t here.imports kind (memberOrNested t here.imports owner name kind)
      | .known (.library _ _) | .foreign => .foreign
      | _ => .unknown := by
  cases receiver with
  | implicit => contradiction
  | _ => rfl

theorem strangeType?_def (access : Access) :
    strangeType? t here access =
      match access with
      | .mk _ (.name receiver) =>
        match fieldInChain t here receiver with
        | .found _ => none
        | _ => if looksLikeType receiver then some receiver else none
      | _ => none := by
  obtain ⟨name, receiver⟩ := access
  cases receiver <;> rfl

theorem bindLoose_def (access : Access) :
    bindLoose t here kind access =
      if kind == .method && isObjectMethod access.name then .nothing
      else
        match strangeType? t here access with
        | some receiver => .unresolved receiver
        | none =>
          match kind with
          | .field => .nothing
          | .method =>
            match t.methodsNamed access.name with
            | [only] => .project only access.name
            | _ => .unresolved (displayAccess access) := by
  unfold bindLoose bindLooseM
  split <;> rfl

theorem bindMember_implicit : bindMember t here kind (.mk name .implicit) =
    match implicitMember t here name kind with
    | some found => .ofLookup name found
    | none => bindLoose t here kind (.mk name .implicit) := rfl

variable {t here name kind} in
theorem bindMember_explicit {receiver : Receiver} (h : receiver ≠ .implicit) :
    bindMember t here kind (.mk name receiver) =
      match receiverType t here receiver with
      | .known (.project owner) =>
        match memberOrNested t here.imports owner name kind with
        | .missing => bindLoose t here kind (.mk name receiver)
        | found => .ofLookup name found
      | .known (.library id owner) => .library id owner name
      | .known .unknown | .unknown => bindLoose t here kind (.mk name receiver)
      | .foreign => .nothing := by
  cases receiver with
  | implicit => contradiction
  | _ => rfl

theorem bindMention_type : bindMention t here (.type name) =
    match resolveType t here name with
    | .project d => .project d.id name
    | .library id owner => .library id owner name
    | .unknown => .unresolved name := by
  unfold bindMention bindMentionM
  dsimp only
  cases resolveType t here name <;> rfl

theorem bindMention_call (access : Access) :
    bindMention t here (.call access) = bindMember t here .method access := rfl

theorem bindMention_field (access : Access) :
    bindMention t here (.field access) = bindMember t here .field access := rfl

theorem bindMention_bare : bindMention t here (.bare name) =
    match implicitMember t here name .field with
    | some found => .ofLookup name found
    | none =>
      if looksLikeClass name && (resolveType t here name).isUnknown then .unresolved name
      else .nothing := rfl

theorem collect_def (d : Declaration) (sites : List UseSite) :
    collect t d imports sites =
      let bound := sites.map fun site => (site, bindMention t ⟨imports, chainOf t d⟩ site.mention)
      { references := Reference.dedup (bound.filterMap fun (site, b) => b.reference? d site)
        libraries := Reference.keepFirst (·.id) [] (bound.filterMap (·.2.library?)) } := by
  unfold collect collectM
  rw [Id.run_bind, Id.run_bind, List.idRun_mapM]
  rfl

end Carve.Java
