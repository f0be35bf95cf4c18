import Carve.Proofs.Java.Merging
import Carve.Proofs.Java.Placing

/-!
# The outermost declarations of a file

A file lists the types at its top as it declares them: the list has the names of the declarations
that nothing is around, in their order. Members never come to stand there, and a member that gives
its name up is none of them.
-/

namespace Carve.Java

def outermost (ds : List Declaration) : List QName :=
  ds.filterMap fun d => if d.parent = none then some d.id else none

theorem outermost_append (ds es : List Declaration) :
    outermost (ds ++ es) = outermost ds ++ outermost es := List.filterMap_append

theorem outermost_enclosed {d : Declaration} (h : d.parent ≠ none) : outermost [d] = [] := by
  simp [outermost, h]

theorem outermost_modify {ds : List Declaration} {i : Nat} {g : Declaration → Declaration}
    (h : ∀ d, ds[i]? = some d → outermost [g d] = outermost [d]) :
    outermost (ds.modify i g) = outermost ds := by
  induction ds generalizing i with
  | nil => simp
  | cons d ds ih =>
    cases i with
    | zero =>
      have hd := h d rfl
      rw [List.modify_zero_cons, ← List.singleton_append, outermost_append, hd,
        ← outermost_append, List.singleton_append]
    | succ i =>
      rw [List.modify_succ_cons, ← List.singleton_append, outermost_append,
        ih fun e he => h e (by simpa using he), ← outermost_append, List.singleton_append]

namespace Reader

variable {source : List Char} {r r' : Reader} {ds ds' : List Declaration} {d : Declaration}

theorem outermost_added (hparent : d.parent ≠ none)
    (hmembers : ∀ e ∈ ds, e.kind.isType = false → e.parent ≠ none) (ha : Added ds d ds') :
    outermost ds' = outermost ds := by
  cases ha with
  | passedOver => rfl
  | unplaced => rfl
  | new => rw [outermost_append, outermost_enclosed hparent, List.append_nil]
  | aside =>
    have hnew : outermost [{ d with id := d.id.methodAlias }] = [] := outermost_enclosed hparent
    rw [outermost_append, hnew, List.append_nil]
  | @ahead i e he _ hmethod =>
    rw [outermost_append, outermost_enclosed hparent, List.append_nil]
    refine outermost_modify fun m hm => ?_
    obtain rfl := Option.some.inj (he.symm.trans hm)
    have hinside := hmembers e (List.mem_of_getElem? he) (by rw [hmethod]; rfl)
    have hrenamed : outermost [{ e with id := d.id.methodAlias }] = [] :=
      outermost_enclosed hinside
    rw [hrenamed, outermost_enclosed hinside]
  | overload => exact outermost_modify fun _ _ => rfl

/-- So far the file lists the outermost types. -/
def Topmost (r : Reader) : Prop := r.topLevel = outermost r.decls

theorem Topmost.addMember (h : Topmost r) (hc : Coherent source r) (hu : Unique r.decls)
    (hparent : d.parent ≠ none) (own : List UseSite) : Topmost (r.addMember d own) := by
  have hmembers : ∀ e ∈ r.decls, e.kind.isType = false → e.parent ≠ none := by
    intro e he
    obtain ⟨entry, hentry, rfl⟩ := List.mem_map.mp he
    exact hc.members entry hentry
  obtain ⟨es, hes⟩ := addMember_eq r d own
  have htop : (r.addMember d own).topLevel = r.topLevel := by rw [hes]
  unfold Topmost
  rw [htop, outermost_added hparent hmembers (addMember_added r d own hu)]
  exact h

theorem declaration_enclosed {f : TypeFrame} (hf : r.owner? = some f) (id : QName) (name : String)
    (kind : Declaration.Kind) (n : Node) (outline : Outline) :
    (r.declaration id name kind n outline).parent ≠ none := by
  simp [declaration, hf]

theorem Topmost.readCallable (h : Topmost r) (hc : Coherent source r) (hu : Unique r.decls)
    (kind : Declaration.Kind) (n : Node) : Topmost (r.readCallable kind n) := by
  unfold Reader.readCallable
  split
  · exact h
  · rename_i f hf
    dsimp only
    split
    · exact h
    · exact h.addMember hc hu (declaration_enclosed hf _ _ _ _ _) _

theorem Topmost.readDeclarators {n : Node} {count : Nat} {f : TypeFrame} (ds : List Node) :
    ∀ {r : Reader}, Topmost r → Coherent source r → Unique r.decls → r.owner? = some f →
      (∀ d ∈ ds, Tidy source d ∧ d.kind = .variableDeclarator) →
      Topmost (ds.foldl (Reader.readDeclarator n count f.id) r) := by
  induction ds with
  | nil => exact fun h _ _ _ _ => h
  | cons d ds ih =>
    intro r h hc hu hf hds
    obtain ⟨hd, hk⟩ := hds d List.mem_cons_self
    obtain ⟨hnext, hframes⟩ := hc.readDeclarator n count hf hd hk
    refine ih ?_ hnext (hu.readDeclarator hc n count f.id hd hk) ?_
      fun d' hd' => hds d' (List.mem_cons_of_mem _ hd')
    · unfold Reader.readDeclarator
      split
      · exact h
      · exact h.addMember hc hu (declaration_enclosed hf _ _ _ _ _) _
    · unfold owner?
      rw [hframes]
      exact hf

theorem Topmost.readField (h : Topmost r) (hc : Coherent source r) (hu : Unique r.decls)
    {n : Node} (hn : Tidy source n) : Topmost (r.readField n) := by
  unfold Reader.readField
  split
  · exact h
  · rename_i f hf
    exact Topmost.readDeclarators _ h hc hu hf fun d hd => hn.declarator hd

theorem Topmost.readConstant (h : Topmost r) (hc : Coherent source r) (hu : Unique r.decls)
    (n : Node) : Topmost (r.readConstant n) := by
  unfold Reader.readConstant
  split
  · rename_i f nameNode hf _
    split
    · exact h.addMember hc hu (declaration_enclosed hf _ _ _ _ _) _
    · exact h
  · exact h

theorem Topmost.propagate (h : Topmost r) (sites : List UseSite) :
    Topmost (r.propagate sites) := by
  unfold Topmost
  rw [decls_propagate]
  exact h

theorem Topmost.openType? (h : Topmost r) {kind : Declaration.Kind} {n : Node}
    (hopen : r.openType? kind n = some r') : Topmost r' := by
  obtain ⟨c, ho⟩ := openType?_opens hopen
  unfold Topmost at h ⊢
  rw [ho.topLevel, ho.decls, outermost_append, ← h]
  cases hframes : r.frames with
  | nil => simp [outermost, typeDeclaration, declaration, owner?, hframes]
  | cons f fs => simp [outermost, typeDeclaration, declaration, owner?, hframes]

mutual
theorem Topmost.readMember : ∀ {n : Node} {r : Reader}, Tidy source n → Coherent source r →
    Unique r.decls → Topmost r → Topmost (Reader.readMember n r)
  | .mk k role e cs, r, hn, hc, hu, h => by
    unfold Reader.readMember
    dsimp only
    split
    · exact h.readCallable hc hu _ _
    · exact h.readCallable hc hu _ _
    · exact h.readCallable hc hu _ _
    · exact h.readCallable hc hu _ _
    · exact h.readField hc hu hn
    · exact h.readConstant hc hu _
    · exact Topmost.readMembers hn.children hc hu h
    · exact h.propagate _
    · exact h.propagate _
    · split
      · rename_i kind hkind
        obtain ⟨htype, hk⟩ := typeKind?_isType hkind
        split
        · rename_i inner hopen
          exact Topmost.readBody hn.children (hc.openType? htype hn hk hopen)
            (hu.openType? hc hn hk hopen) (h.openType? hopen)
        · exact h
      · exact h

theorem Topmost.readMembers : ∀ {ns : List Node} {r : Reader}, (∀ n ∈ ns, Tidy source n) →
    Coherent source r → Unique r.decls → Topmost r → Topmost (Reader.readMembers ns r)
  | [], r, _, _, _, h => by unfold Reader.readMembers; exact h
  | n :: ns, r, hns, hc, hu, h => by
    unfold Reader.readMembers
    have hn := hns n List.mem_cons_self
    exact Topmost.readMembers (fun m hm => hns m (List.mem_cons_of_mem _ hm)) (hc.readMember hn)
      (hu.readMember hn hc) (Topmost.readMember hn hc hu h)

theorem Topmost.readBody : ∀ {ns : List Node} {r : Reader}, (∀ n ∈ ns, Tidy source n) →
    Coherent source r → Unique r.decls → Topmost r → Topmost (Reader.readBody ns r)
  | [], r, _, _, _, h => by unfold Reader.readBody; exact h
  | .mk k role e inner :: ns, r, hns, hc, hu, h => by
    unfold Reader.readBody
    split
    · exact Topmost.readMembers (hns _ List.mem_cons_self).children hc hu h
    · exact Topmost.readBody (fun m hm => hns m (List.mem_cons_of_mem _ hm)) hc hu h
end

end Reader

/-- The types at the top of a file are its declarations that nothing is around. -/
theorem SourceTree.outermost (s : SourceTree) :
    s.read.topLevel = Java.outermost (s.read.entries.map (·.decl)) :=
  Reader.Topmost.readMembers s.topTypes_tidy (.start s) (.start s) rfl

section

variable {sources : List SourceText} {f : SourceFile}

end

end Carve.Java
