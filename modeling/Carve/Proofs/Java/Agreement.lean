import Carve.Proofs.Java.Binding
import Carve.Proofs.Table

/-!
# Binding by tables that agree

Binding asks a table only for what it has under a name, for the packages of the project and for all
methods of a name, of which it counts one alone. None of this depends on the order of the rows, so
a use site is bound alike by tables that agree.
-/

namespace Carve.Java

variable {t t' : Table}

theorem enclosing_congr (h : t.Agree t') (fuel : Nat) : enclosing t fuel = enclosing t' fuel := by
  induction fuel with
  | zero => rfl
  | succ fuel ih =>
    funext start
    cases start with
    | none => rfl
    | some id => simp only [enclosing_succ, h.declaration?, ih]

theorem chainOf_congr (h : t.Agree t') : chainOf t = chainOf t' := by
  funext d
  simp only [chainOf_def, searchDepth, h.size, enclosing_congr h]

theorem coordinateFor_congr (h : t.Agree t') : coordinateFor t = coordinateFor t' := by
  funext package
  simp only [coordinateFor, h.libraryFor?]

theorem resolveInPackage_congr (h : t.Agree t') : resolveInPackage t = resolveInPackage t' := by
  funext package rest
  simp only [resolveInPackage, h.declaration?, h.isProjectPackage, coordinateFor_congr h]

theorem resolveInChain_congr (h : t.Agree t') : resolveInChain t = resolveInChain t' := by
  funext name chain
  simp only [resolveInChain, h.declaration?]

theorem resolveSimple_congr (h : t.Agree t') : resolveSimple t = resolveSimple t' := by
  funext here name
  simp only [resolveSimple, resolveInChain_congr h, resolveInPackage_congr h, h.declaration?,
    h.isProjectPackage, coordinateFor_congr h]

theorem resolveType_congr (h : t.Agree t') : resolveType t = resolveType t' := by
  funext here written
  simp only [resolveType, resolveSimple_congr h, resolveInPackage_congr h, h.declaration?]

theorem placeOf_congr (h : t.Agree t') : placeOf t = placeOf t' := by
  funext fallback d
  simp only [placeOf_def, h.imports?, chainOf_congr h]

theorem declaredMember_congr (h : t.Agree t') : declaredMember t = declaredMember t' := by
  funext owner name kind
  simp only [declaredMember, h.declaration?]

theorem findMemberIn_congr (h : t.Agree t') (imports : Imports) (name : String)
    (kind : MemberKind) (fuel : Nat) :
    findMemberIn t imports name kind fuel = findMemberIn t' imports name kind fuel := by
  induction fuel with
  | zero => rfl
  | succ fuel ih =>
    funext owner visited
    simp only [findMemberIn_succ, declaredMember_congr h, h.supertypes, resolveType_congr h,
      placeOf_congr h, ih]

theorem findMember_congr (h : t.Agree t') : findMember t = findMember t' := by
  funext imports owner name kind
  simp only [findMember_def, searchDepth, h.size, findMemberIn_congr h]

theorem memberOrNested_congr (h : t.Agree t') : memberOrNested t = memberOrNested t' := by
  funext imports owner name kind
  simp only [memberOrNested_def, findMember_congr h, h.declaration?]

theorem staticMember_congr (h : t.Agree t') : staticMember t = staticMember t' := by
  funext imports name kind owner
  simp only [staticMember_def, resolveType_congr h, findMember_congr h]

theorem implicitMember_congr (h : t.Agree t') : implicitMember t = implicitMember t' := by
  funext here name kind
  simp only [implicitMember_def, memberOrNested_congr h, staticMember_congr h]

theorem fieldInChain_congr (h : t.Agree t') : fieldInChain t = fieldInChain t' := by
  funext here name
  simp only [fieldInChain_def, findMember_congr h]

theorem valueType_congr (h : t.Agree t') : valueType t = valueType t' := by
  funext here type
  simp only [valueType, resolveType_congr h]

theorem declaredType_congr (h : t.Agree t') : declaredType t = declaredType t' := by
  funext imports member
  simp only [declaredType_def, valueType_congr h, placeOf_congr h]

theorem lookupType_congr (h : t.Agree t') : lookupType t = lookupType t' := by
  funext imports kind found
  simp only [lookupType_def, declaredType_congr h]

mutual
theorem receiverType_congr (h : t.Agree t') (here : Place) : ∀ r : Receiver,
    receiverType t here r = receiverType t' here r
  | .implicit => by simp only [receiverType_implicit]
  | .super => by
    simp only [receiverType_super, h.supertypes, resolveType_congr h, placeOf_congr h]
  | .typed type => by simp only [receiverType_typed, valueType_congr h]
  | .created type => by simp only [receiverType_created, valueType_congr h]
  | .name name => by
    simp only [receiverType_name, fieldInChain_congr h, declaredType_congr h, resolveType_congr h]
  | .call access => accessType_congr h here .method access
  | .field access => accessType_congr h here .field access
  | .unknown => rfl

theorem accessType_congr (h : t.Agree t') (here : Place) (kind : MemberKind) : ∀ a : Access,
    accessType t here kind a = accessType t' here kind a
  | .mk name receiver => by
    have hreceiver := receiverType_congr h here receiver
    by_cases himplicit : receiver = .implicit
    · subst himplicit
      rw [accessType_implicit, accessType_implicit, lookupType_congr h, implicitMember_congr h]
    · rw [accessType_explicit himplicit, accessType_explicit himplicit, hreceiver,
        lookupType_congr h, memberOrNested_congr h]
end

theorem strangeType?_congr (h : t.Agree t') : strangeType? t = strangeType? t' := by
  funext here access
  rw [strangeType?_def, strangeType?_def, fieldInChain_congr h]

/-- The only method of a name is the only one in any order. -/
theorem bindLoose_congr (h : t.Agree t') : bindLoose t = bindLoose t' := by
  funext here kind access
  have hperm := h.methodsNamed access.name
  rw [bindLoose_def, bindLoose_def, strangeType?_congr h]
  split
  · rfl
  · split
    · rfl
    · cases kind with
      | field => rfl
      | method =>
        dsimp only
        split
        · rename_i only honly
          rw [honly, List.singleton_perm] at hperm
          rw [← hperm]
        · rename_i hmany
          split
          · rename_i only honly
            rw [honly, List.perm_singleton] at hperm
            exact absurd hperm (hmany only)
          · rfl

theorem bindMember_congr (h : t.Agree t') : bindMember t = bindMember t' := by
  funext here kind access
  obtain ⟨name, receiver⟩ := access
  have hreceiver := receiverType_congr h here receiver
  by_cases himplicit : receiver = .implicit
  · subst himplicit
    rw [bindMember_implicit, bindMember_implicit, implicitMember_congr h, bindLoose_congr h]
  · rw [bindMember_explicit himplicit, bindMember_explicit himplicit, hreceiver,
      memberOrNested_congr h, bindLoose_congr h]

theorem bindMention_congr (h : t.Agree t') : bindMention t = bindMention t' := by
  funext here m
  cases m with
  | type name => simp only [bindMention_type, resolveType_congr h]
  | call access => simp only [bindMention_call, bindMember_congr h]
  | field access => simp only [bindMention_field, bindMember_congr h]
  | bare name => simp only [bindMention_bare, implicitMember_congr h, resolveType_congr h]

/-- The references of a declaration depend on what the table has, not on its order. -/
theorem collect_congr (h : t.Agree t') : collect t = collect t' := by
  funext d imports sites
  simp only [collect_def, chainOf_congr h, bindMention_congr h]

end Carve.Java
