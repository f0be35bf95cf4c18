import Carve.Proofs.Java.Enclosure

/-!
# Types at the top of a file

The reader opens a type at the top only when it is inside of no other one. Such a type is called by
the package of the file and one word, so no type at the top has a name inside that of another one.
-/

namespace Carve

namespace Java

def TopName (package : Option String) (id : QName) : Prop :=
  ∃ word : String, '.' ∉ word.toList ∧ id =
    match package with
    | some p => QName.member ⟨p⟩ word
    | none => ⟨word⟩

namespace Reader

variable {source : List Char} {r r' : Reader} {package : Option String}

theorem readCallable_eq (r : Reader) (kind : Declaration.Kind) (n : Node) :
    ∃ es, r.readCallable kind n = { r with entries := es } := by
  unfold Reader.readCallable
  split
  · exact ⟨_, rfl⟩
  · dsimp only
    split
    · exact ⟨_, rfl⟩
    · exact addMember_eq r _ _

theorem readField_eq (r : Reader) (n : Node) : ∃ es, r.readField n = { r with entries := es } := by
  unfold Reader.readField
  split
  · exact ⟨_, rfl⟩
  · rename_i owner howner
    clear howner
    dsimp only
    generalize (n.childrenIn .declarator).length = count
    induction n.childrenIn .declarator generalizing r with
    | nil => exact ⟨_, rfl⟩
    | cons d ds ih =>
      have hstep : ∃ es, readDeclarator n count owner.id r d = { r with entries := es } := by
        unfold readDeclarator
        split
        · exact ⟨_, rfl⟩
        · exact addMember_eq r _ _
      obtain ⟨es, hes⟩ := hstep
      rw [List.foldl_cons, hes]
      exact ih { r with entries := es }

theorem readConstant_eq (r : Reader) (n : Node) :
    ∃ es, r.readConstant n = { r with entries := es } := by
  unfold Reader.readConstant
  split
  · split
    · exact addMember_eq r _ _
    · exact ⟨_, rfl⟩
  · exact ⟨_, rfl⟩

/-- The types at the top so far are called by the package. -/
structure Topped (package : Option String) (r : Reader) : Prop where
  package_eq : r.package = package
  names : ∀ t ∈ r.topLevel, TopName package t

theorem Topped.of_entries (h : Topped package r) (hr : ∃ es, r' = { r with entries := es }) :
    Topped package r' := by
  obtain ⟨es, rfl⟩ := hr
  exact ⟨h.package_eq, h.names⟩

theorem typeId_topName (hnobody : r.owner? = none) {name : String} (h : '.' ∉ name.toList) :
    TopName r.package (r.typeId name) := by
  refine ⟨name, h, ?_⟩
  rw [typeId, hnobody]
  cases r.package <;> rfl

theorem Topped.openType? (h : Topped package r) (hc : Coherent source r)
    {kind : Declaration.Kind} {n : Node} (hn : Tidy source n) (hk : n.kind ≠ .annotationMark)
    (hopen : r.openType? kind n = some r') : Topped package r' := by
  unfold Reader.openType? at hopen
  obtain ⟨c, hname, hopen⟩ := Option.bind_eq_some_iff.mp hopen
  dsimp only at hopen
  split at hopen
  · cases hopen
  obtain rfl := Option.some.inj hopen
  refine ⟨h.package_eq, fun t ht => ?_⟩
  dsimp only at ht
  split at ht
  · rename_i htop
    rcases List.mem_append.mp ht with ht | ht
    · exact h.names t ht
    · have hnobody : r.owner? = none := by
        rw [owner?, List.isEmpty_iff.mp htop]
        rfl
      rw [List.mem_singleton.mp ht, ← h.package_eq]
      exact typeId_topName hnobody (hc.dotless hn hk hname)
  · exact h.names t ht

mutual
theorem Topped.readMember : ∀ {n : Node} {r : Reader}, Tidy source n → Coherent source r →
    Topped package r → Topped package (Reader.readMember n r)
  | .mk k role e cs, r, hn, hc, h => by
    unfold Reader.readMember
    dsimp only
    split
    · exact h.of_entries (readCallable_eq r _ _)
    · exact h.of_entries (readCallable_eq r _ _)
    · exact h.of_entries (readCallable_eq r _ _)
    · exact h.of_entries (readCallable_eq r _ _)
    · exact h.of_entries (readField_eq r _)
    · exact h.of_entries (readConstant_eq r _)
    · exact Topped.readMembers hn.children hc h
    · exact h.of_entries ⟨_, rfl⟩
    · exact h.of_entries ⟨_, rfl⟩
    · split
      · rename_i kind hkind
        obtain ⟨htype, hk⟩ := typeKind?_isType hkind
        split
        · rename_i inner hopen
          have hinner := Topped.readBody hn.children (hc.openType? htype hn hk hopen)
            (h.openType? hc hn hk hopen)
          exact ⟨hinner.package_eq, hinner.names⟩
        · exact h
      · exact h

theorem Topped.readMembers : ∀ {ns : List Node} {r : Reader}, (∀ n ∈ ns, Tidy source n) →
    Coherent source r → Topped package r → Topped package (Reader.readMembers ns r)
  | [], r, _, _, h => by unfold Reader.readMembers; exact h
  | n :: ns, r, hns, hc, h => by
    unfold Reader.readMembers
    have hn := hns n List.mem_cons_self
    exact Topped.readMembers (fun m hm => hns m (List.mem_cons_of_mem _ hm)) (hc.readMember hn)
      (Topped.readMember hn hc h)

theorem Topped.readBody : ∀ {ns : List Node} {r : Reader}, (∀ n ∈ ns, Tidy source n) →
    Coherent source r → Topped package r → Topped package (Reader.readBody ns r)
  | [], r, _, _, h => by unfold Reader.readBody; exact h
  | .mk k role e inner :: ns, r, hns, hc, h => by
    unfold Reader.readBody
    split
    · exact Topped.readMembers (hns _ List.mem_cons_self).children hc h
    · exact Topped.readBody (fun m hm => hns m (List.mem_cons_of_mem _ hm)) hc h
end

end Reader

theorem SourceTree.topNames (s : SourceTree) :
    ∀ t ∈ s.read.topLevel, TopName s.read.imports.package t := by
  have hstart : Reader.Topped s.read.imports.package s.start := ⟨rfl, fun t ht => by cases ht⟩
  exact (hstart.readMembers s.topTypes_tidy (.start s)).names

theorem TopName.of_below {package : Option String} {id o : QName} (h : TopName package id)
    (hbelow : QName.Below o id) : ∃ p, package = some p ∧ o = ⟨p⟩ := by
  obtain ⟨word, hdotless, rfl⟩ := h
  cases package with
  | none =>
    obtain ⟨x, -, hx⟩ := hbelow
    have hlist : word.toList = (o.member x).text.toList :=
      congrArg (fun q : QName => q.text.toList) hx
    rw [QName.member_toList] at hlist
    exact absurd (by simp [hlist]) hdotless
  | some p => exact ⟨p, rfl, hbelow.owner_eq ⟨word, hdotless, rfl⟩⟩

theorem TopName.not_isWithin {package : Option String} {t t' : QName} (h : TopName package t)
    (h' : TopName package t') : isWithin t' t = false := by
  obtain ⟨word, -, rfl⟩ := h
  obtain ⟨word', hdotless, rfl⟩ := h'
  refine Bool.eq_false_iff.mpr fun hwithin => ?_
  obtain ⟨rest, hrest⟩ := isWithin_iff.mp hwithin
  have hdot : word'.toList = word.toList ++ '.' :: rest := by
    cases package with
    | none => exact hrest
    | some p =>
      dsimp only at hrest
      rw [QName.member_toList, QName.member_toList, List.append_assoc, List.cons_append] at hrest
      exact (List.cons.inj (List.append_cancel_left hrest)).2
  exact hdotless (by simp [hdot])

end Java

end Carve
