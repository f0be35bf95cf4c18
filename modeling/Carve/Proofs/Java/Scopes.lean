import Carve.Proofs.Java.Binding
import Carve.Proofs.QName

/-!
# Binding inside and outside of a nested type

What is bound at a place depends on the types around it, the innermost first. Seen from further
out, the inner ones are gone. A name means the same from both places unless one of the inner types
answers to it: as a type of that name, by a member of its own or one that it inherits, or as the
value of `this` or `super`.
-/

namespace Carve.Java

/-- The word by which a written type is looked up among the types around, if it is. -/
def leadWord? (written : String) : Option String :=
  let name := stripGenerics written
  if name.isEmpty then none
  else if !name.toList.contains '.' then some name
  else
    match splitPackage name with
    | (some _, _) => none
    | (none, rest) =>
      let head := ((Text.splitFirst '.' rest).getD (rest, "")).1
      if looksLikeType head then some head else none

/-- From the type that the word leads to, the type that the rest of the name means. -/
def descend (t : Table) (written : String) (first : TypeTarget) : TypeTarget :=
  let name := stripGenerics written
  if !name.toList.contains '.' then first
  else
    let rest := (splitPackage name).2
    let tail := ((Text.splitFirst '.' rest).getD (rest, "")).2
    match first with
    | .project outer =>
      match t.declaration? (outer.id.member tail).text with
      | some d => .project d
      | none => .unknown
    | other => other

section

variable (t : Table) (imports : Imports) (types : List Declaration)

def answersType (written : String) : Bool :=
  (leadWord? written).any fun word => (resolveInChain t word types).isSome

def answersField (name : String) : Bool :=
  types.any fun type => !(findMember t imports type name .field).isMissing

def answersMember (kind : MemberKind) (name : String) : Bool :=
  types.any fun type => !(memberOrNested t imports type name kind).isMissing

mutual
def answersReceiver : Receiver → Bool
  | .implicit | .super => !types.isEmpty
  | .typed type | .created type => answersType t types type
  | .name name => answersField t imports types name || answersType t types name
  | .call access => answersAccess .method access
  | .field access => answersAccess .field access
  | .unknown => false

def answersAccess (kind : MemberKind) : Access → Bool
  | .mk name .implicit => answersMember t imports types kind name
  | .mk _ receiver => answersReceiver receiver
end

/-- One of the types has a say in what is mentioned. -/
def answers : Mention → Bool
  | .type name => answersType t types name
  | .call access => answersAccess t imports types .method access
  | .field access => answersAccess t imports types .field access
  | .bare name => answersMember t imports types .field name

/-- Seen from two places with the same types further out, nothing nearer answers. -/
def Alike (here there : List Declaration) (m : Mention) : Prop :=
  ∃ inner inner' outer, here = inner ++ outer ∧ there = inner' ++ outer ∧
    answers t imports inner m = false ∧ answers t imports inner' m = false

end

def Bound.target? : Bound → Option QName
  | .project target _ | .library target _ _ => some target
  | .unresolved _ | .nothing => none

section

variable {t : Table} {imports : Imports} {inner : List Declaration}

theorem answersAccess_implicit {kind : MemberKind} {name : String} :
    answersAccess t imports inner kind (.mk name .implicit) =
      answersMember t imports inner kind name := by
  unfold answersAccess
  rfl

theorem answersAccess_explicit {kind : MemberKind} {name : String} {r : Receiver}
    (hr : r ≠ .implicit) :
    answersAccess t imports inner kind (.mk name r) = answersReceiver t imports inner r := by
  cases r <;> first | contradiction | (unfold answersAccess; rfl)

theorem findSome?_append_of_none {α β : Type} {f : α → Option β} {as : List α} (bs : List α)
    (h : ∀ a ∈ as, f a = none) : (as ++ bs).findSome? f = bs.findSome? f := by
  rw [List.findSome?_append, List.findSome?_eq_none_iff.mpr h, Option.none_or]

theorem resolveSimple_append (rest : List Declaration) {name : String}
    (h : resolveInChain t name inner = none) :
    resolveSimple t ⟨imports, inner ++ rest⟩ name = resolveSimple t ⟨imports, rest⟩ name := by
  have hchain : resolveInChain t name (inner ++ rest) = resolveInChain t name rest :=
    findSome?_append_of_none rest (List.findSome?_eq_none_iff.mp h)
  unfold resolveSimple
  simp only [hchain]

theorem resolveType_of_lead (here : Place) {written word : String}
    (h : leadWord? written = some word) :
    resolveType t here written = descend t written (resolveSimple t here word) := by
  unfold leadWord? at h
  unfold resolveType descend
  dsimp only at h ⊢
  generalize stripGenerics written = name at h ⊢
  by_cases hname : name.isEmpty = true
  · simp [hname] at h
  rw [if_neg hname] at h ⊢
  by_cases hdot : (!name.toList.contains '.') = true
  · rw [if_pos hdot] at h ⊢
    rw [if_pos hdot, Option.some.inj h]
  rw [if_neg hdot] at h ⊢
  rw [if_neg hdot]
  cases hsplit : splitPackage name with
  | mk package rest =>
    rw [hsplit] at h
    cases package with
    | some package => contradiction
    | none =>
      dsimp only at h ⊢
      by_cases hlooks : looksLikeType ((Text.splitFirst '.' rest).getD (rest, "")).1 = true
      · rw [if_pos hlooks] at h ⊢
        obtain rfl := Option.some.inj h
        rfl
      · rw [if_neg hlooks] at h
        contradiction

theorem resolveType_of_no_lead (here here' : List Declaration) {written : String}
    (h : leadWord? written = none) :
    resolveType t ⟨imports, here⟩ written = resolveType t ⟨imports, here'⟩ written := by
  unfold leadWord? at h
  unfold resolveType
  dsimp only at h ⊢
  generalize stripGenerics written = name at h ⊢
  by_cases hname : name.isEmpty = true
  · rw [if_pos hname, if_pos hname]
  rw [if_neg hname] at h
  rw [if_neg hname, if_neg hname]
  by_cases hdot : (!name.toList.contains '.') = true
  · rw [if_pos hdot] at h
    contradiction
  rw [if_neg hdot] at h
  rw [if_neg hdot, if_neg hdot]
  cases hsplit : splitPackage name with
  | mk package rest =>
    rw [hsplit] at h
    cases package with
    | some package => rfl
    | none =>
      dsimp only at h ⊢
      by_cases hlooks : looksLikeType ((Text.splitFirst '.' rest).getD (rest, "")).1 = true
      · rw [if_pos hlooks] at h
        contradiction
      · rw [if_neg hlooks, if_neg hlooks]

theorem resolveType_append (rest : List Declaration) {written : String}
    (h : answersType t inner written = false) :
    resolveType t ⟨imports, inner ++ rest⟩ written = resolveType t ⟨imports, rest⟩ written := by
  cases hlead : leadWord? written with
  | none => exact resolveType_of_no_lead _ _ hlead
  | some word =>
    have hword : resolveInChain t word inner = none := by simpa [answersType, hlead] using h
    rw [resolveType_of_lead _ hlead, resolveType_of_lead _ hlead, resolveSimple_append rest hword]

theorem implicitMember_append (rest : List Declaration) {kind : MemberKind} {name : String}
    (h : answersMember t imports inner kind name = false) :
    implicitMember t ⟨imports, inner ++ rest⟩ name kind =
      implicitMember t ⟨imports, rest⟩ name kind := by
  rw [implicitMember_def, implicitMember_def, findSome?_append_of_none rest fun type htype => ?_]
  have hmissing := List.any_eq_false.mp h type htype
  cases hlookup : memberOrNested t imports type name kind <;>
    simp_all [MemberLookup.isMissing, MemberLookup.answer?]

theorem fieldInChain_append (rest : List Declaration) {name : String}
    (h : answersField t imports inner name = false) :
    fieldInChain t ⟨imports, inner ++ rest⟩ name = fieldInChain t ⟨imports, rest⟩ name := by
  rw [fieldInChain_def, fieldInChain_def, findSome?_append_of_none rest fun type htype => ?_]
  have hmissing := List.any_eq_false.mp h type htype
  cases hlookup : findMember t imports type name .field <;>
    simp_all [MemberLookup.isMissing, MemberLookup.answer?]

theorem valueType_append (rest : List Declaration) {written : String}
    (h : answersType t inner written = false) :
    valueType t ⟨imports, inner ++ rest⟩ written = valueType t ⟨imports, rest⟩ written := by
  unfold valueType
  rw [resolveType_append rest h]

mutual
theorem receiverType_append (rest : List Declaration) : ∀ r : Receiver,
    answersReceiver t imports inner r = false →
    receiverType t ⟨imports, inner ++ rest⟩ r = receiverType t ⟨imports, rest⟩ r
  | .implicit, h => by
    obtain rfl : inner = [] := by simpa [answersReceiver] using h
    rfl
  | .super, h => by
    obtain rfl : inner = [] := by simpa [answersReceiver] using h
    rfl
  | .typed type, h => by
    unfold answersReceiver at h
    exact valueType_append rest h
  | .created type, h => by
    unfold answersReceiver at h
    exact valueType_append rest h
  | .name name, h => by
    unfold answersReceiver at h
    obtain ⟨hfield, htype⟩ := Bool.or_eq_false_iff.mp h
    rw [receiverType_name, receiverType_name, fieldInChain_append rest hfield,
      resolveType_append rest htype]
  | .call access, h => by
    unfold answersReceiver at h
    exact accessType_append rest .method access h
  | .field access, h => by
    unfold answersReceiver at h
    exact accessType_append rest .field access h
  | .unknown, _ => rfl

theorem accessType_append (rest : List Declaration) (kind : MemberKind) : ∀ a : Access,
    answersAccess t imports inner kind a = false →
    accessType t ⟨imports, inner ++ rest⟩ kind a = accessType t ⟨imports, rest⟩ kind a
  | .mk name receiver, h => by
    by_cases hr : receiver = .implicit
    · subst hr
      rw [answersAccess_implicit] at h
      rw [accessType_implicit, accessType_implicit, implicitMember_append rest h]
    · rw [answersAccess_explicit hr] at h
      rw [accessType_explicit hr, accessType_explicit hr,
        receiverType_append rest receiver h]
end

theorem strangeType?_append (rest : List Declaration) {kind : MemberKind} {a : Access}
    (h : answersAccess t imports inner kind a = false) :
    strangeType? t ⟨imports, inner ++ rest⟩ a = strangeType? t ⟨imports, rest⟩ a := by
  rw [strangeType?_def, strangeType?_def]
  split
  · unfold answersAccess answersReceiver at h
    obtain ⟨hfield, -⟩ := Bool.or_eq_false_iff.mp h
    rw [fieldInChain_append rest hfield]
  · rfl

theorem bindMember_append (rest : List Declaration) {kind : MemberKind} {a : Access}
    (h : answersAccess t imports inner kind a = false) :
    bindMember t ⟨imports, inner ++ rest⟩ kind a = bindMember t ⟨imports, rest⟩ kind a := by
  have hloose : bindLoose t ⟨imports, inner ++ rest⟩ kind a =
      bindLoose t ⟨imports, rest⟩ kind a := by
    rw [bindLoose_def, bindLoose_def, strangeType?_append rest h]
  obtain ⟨name, receiver⟩ := a
  by_cases hr : receiver = .implicit
  · subst hr
    rw [answersAccess_implicit] at h
    rw [bindMember_implicit, bindMember_implicit, implicitMember_append rest h, hloose]
  · rw [answersAccess_explicit hr] at h
    rw [bindMember_explicit hr, bindMember_explicit hr,
      receiverType_append rest receiver h, hloose]

/-- What the inner types do not answer has the target that it has without them. -/
theorem target_append (rest : List Declaration) {m : Mention}
    (h : answers t imports inner m = false) :
    (bindMention t ⟨imports, inner ++ rest⟩ m).target? =
      (bindMention t ⟨imports, rest⟩ m).target? := by
  cases m with
  | type name => simp only [bindMention_type, resolveType_append rest h]
  | call access => exact congrArg Bound.target? (bindMember_append rest h)
  | field access => exact congrArg Bound.target? (bindMember_append rest h)
  | bare name =>
    simp only [bindMention_bare, implicitMember_append rest h]
    split
    · rfl
    · split <;> split <;> rfl

theorem Alike.target_eq {here there : List Declaration} {m : Mention}
    (h : Alike t imports here there m) :
    (bindMention t ⟨imports, here⟩ m).target? = (bindMention t ⟨imports, there⟩ m).target? := by
  obtain ⟨inner, inner', outer, rfl, rfl, hinner, hinner'⟩ := h
  rw [target_append outer hinner, target_append outer hinner']

theorem resolveInChain_isSome_append (more : List Declaration) (word : String) :
    (resolveInChain t word (inner ++ more)).isSome =
      ((resolveInChain t word inner).isSome || (resolveInChain t word more).isSome) := by
  unfold resolveInChain
  rw [List.findSome?_append, Option.isSome_or]

theorem answersType_append (more : List Declaration) (written : String) :
    answersType t (inner ++ more) written =
      (answersType t inner written || answersType t more written) := by
  unfold answersType
  cases leadWord? written with
  | none => rfl
  | some word => exact resolveInChain_isSome_append more word

mutual
theorem answersReceiver_append (more : List Declaration) : ∀ r : Receiver,
    answersReceiver t imports (inner ++ more) r =
      (answersReceiver t imports inner r || answersReceiver t imports more r)
  | .implicit => by cases inner <;> simp [answersReceiver]
  | .super => by cases inner <;> simp [answersReceiver]
  | .typed type => by simp only [answersReceiver, answersType_append]
  | .created type => by simp only [answersReceiver, answersType_append]
  | .name name => by
    simp only [answersReceiver, answersType_append, answersField, List.any_append]
    ac_rfl
  | .call access => by
    simp only [answersReceiver]
    exact answersAccess_append more .method access
  | .field access => by
    simp only [answersReceiver]
    exact answersAccess_append more .field access
  | .unknown => by simp [answersReceiver]

theorem answersAccess_append (more : List Declaration) (kind : MemberKind) : ∀ a : Access,
    answersAccess t imports (inner ++ more) kind a =
      (answersAccess t imports inner kind a || answersAccess t imports more kind a)
  | .mk name receiver => by
    by_cases hr : receiver = .implicit
    · subst hr
      simp only [answersAccess_implicit, answersMember, List.any_append]
    · simp only [answersAccess_explicit hr]
      exact answersReceiver_append more receiver
end

theorem answers_append (more : List Declaration) (m : Mention) :
    answers t imports (inner ++ more) m =
      (answers t imports inner m || answers t imports more m) := by
  cases m with
  | type name => exact answersType_append more name
  | call access => exact answersAccess_append more .method access
  | field access => exact answersAccess_append more .field access
  | bare name => exact List.any_append

theorem answersType_nil (written : String) : answersType t [] written = false := by
  unfold answersType
  cases leadWord? written <;> rfl

mutual
theorem answersReceiver_nil : ∀ r : Receiver, answersReceiver t imports [] r = false
  | .implicit | .super | .unknown => rfl
  | .typed type | .created type => answersType_nil type
  | .name name => answersType_nil name
  | .call access => by
    unfold answersReceiver
    exact answersAccess_nil .method access
  | .field access => by
    unfold answersReceiver
    exact answersAccess_nil .field access

theorem answersAccess_nil (kind : MemberKind) : ∀ a : Access,
    answersAccess t imports [] kind a = false
  | .mk name receiver => by
    by_cases hr : receiver = .implicit
    · subst hr
      rw [answersAccess_implicit]
      rfl
    · rw [answersAccess_explicit hr]
      exact answersReceiver_nil receiver
end

theorem answers_nil (m : Mention) : answers t imports [] m = false := by
  cases m with
  | type name => exact answersType_nil name
  | call access => exact answersAccess_nil .method access
  | field access => exact answersAccess_nil .field access
  | bare name => rfl

/-- Of two places one of which lies further in, only the types in between matter. -/
theorem alike_append_iff (outer : List Declaration) (m : Mention) :
    Alike t imports (inner ++ outer) outer m ↔ answers t imports inner m = false := by
  constructor
  · rintro ⟨near, far, common, hhere, rfl, hnear, -⟩
    have hsplit : inner ++ far = near := by
      rw [← List.append_assoc] at hhere
      exact List.append_cancel_right hhere
    rw [← hsplit, answers_append] at hnear
    exact (Bool.or_eq_false_iff.mp hnear).1
  · exact fun h => ⟨inner, [], outer, rfl, rfl, h, answers_nil m⟩

end

end Carve.Java
