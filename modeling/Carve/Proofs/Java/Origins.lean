import Carve.Proofs.Java.Bodies
import Carve.Proofs.Java.Lookup
import Carve.Proofs.Java.Placing

/-!
# Where declarations come from

Every declaration of a file was read from a node of its tree, which tells the range and the
outline, and every overload was read from another one, under the same name. The nodes of a tree
are laid on the text, so that offsets, lines and columns tell the same of a declaration.
-/

namespace Carve.Java

/-- What is read from the node is a declaration of this kind and name, with this outline. -/
inductive Gives (source : List Char) (n : Node) : Declaration.Kind → String → Outline → Prop where
  | type {kind : Declaration.Kind} {c : Node} : typeKind? n.kind = some kind →
      n.child? .name = some c → Gives source n kind (c.text source) (n.typeOutline source)
  | method {c : Node} : n.kind = .methodDeclaration ∨ n.kind = .elementDeclaration →
      n.child? .name = some c →
      Gives source n .method (c.text source) (n.callableOutline source)
  | ctor {name : String} : n.kind = .ctorDeclaration ∨ n.kind = .compactCtorDeclaration →
      Gives source n .ctor name (n.callableOutline source)
  | field {d c : Node} : n.kind = .fieldDeclaration → d ∈ n.childrenIn .declarator →
      d.child? .name = some c →
      Gives source n .field (c.text source)
        (n.fieldOutline source d c (n.childrenIn .declarator).length)
  | constant {owner : QName} {c : Node} : n.kind = .enumConstant → n.child? .name = some c →
      Gives source n .field (c.text source) (n.constantOutline owner)

theorem Gives.span_eq {source : List Char} {n : Node} {kind : Declaration.Kind} {name : String}
    {o : Outline} (h : Gives source n kind name o) : o.span = n.span := by
  cases h <;> rfl

theorem Gives.of_isType {source : List Char} {n : Node} {kind : Declaration.Kind} {name : String}
    {o : Outline} (h : Gives source n kind name o) (htype : kind.isType = true) :
    (∃ c, n.child? .name = some c) ∧ o = n.typeOutline source := by
  cases h with
  | type _ hname => exact ⟨⟨_, hname⟩, rfl⟩
  | method => cases htype
  | ctor => cases htype
  | field => cases htype
  | constant => cases htype

theorem Gives.of_ctor {source : List Char} {n : Node} {kind : Declaration.Kind} {name : String}
    {o : Outline} (h : Gives source n kind name o) (hkind : kind = .ctor) :
    (n.kind = .ctorDeclaration ∨ n.kind = .compactCtorDeclaration) ∧
      o = n.callableOutline source := by
  cases h with
  | type hk =>
    have htype := (Reader.typeKind?_isType hk).1
    rw [hkind] at htype
    cases htype
  | ctor hk => exact ⟨hk, rfl⟩
  | method => cases hkind
  | field => cases hkind
  | constant => cases hkind

theorem Gives.of_overload {source : List Char} {n : Node} {d e : Declaration} {o : Outline}
    (h : Gives source n d.kind d.name o) (hmember : d.kind.isType = false) (hd : Titled d)
    (hplain : ∀ p : QName, d.id ≠ p.methodAlias) (he : Titled e) (hkind : e.kind = d.kind)
    (hid : e.id = d.id ∨ e.id = d.id.methodAlias) : Gives source n e.kind e.name o := by
  rcases kind_cases d.kind with htype | hctor | ⟨kind, hk⟩
  · rw [hmember] at htype
    cases htype
  · obtain ⟨hn, rfl⟩ := h.of_ctor hctor
    rw [hkind, hctor]
    exact .ctor hn
  · rw [hkind, Titled.name_eq hd hplain he hk hkind hid]
    exact h

/-- The declaration was read from a node, its overloads from others, all under its name. -/
structure Sprung (source : List Char) (N : Node → Prop) (d : Declaration) : Prop where
  own : ∀ place, d.location = some place →
    ∃ n, N n ∧ Gives source n d.kind d.name place.layout.own ∧ place.range = n.range
  named : ∀ o ∈ d.outlines, ∃ n, N n ∧ Gives source n d.kind d.name o

section

variable {source : List Char} {N : Node → Prop} {d e : Declaration} {ds ds' : List Declaration}

theorem Sprung.all (h : Sprung source N d) :
    ∀ o ∈ d.outlines, ∃ n name, N n ∧ Gives source n d.kind name o := by
  intro o ho
  obtain ⟨n, hn, hgives⟩ := h.named o ho
  exact ⟨n, d.name, hn, hgives⟩

theorem Sprung.withId (h : Sprung source N d) (id : QName) : Sprung source N { d with id } :=
  ⟨h.own, h.named⟩

theorem Sprung.withOverload (h : Sprung source N e) {place : Location} {n : Node}
    (hn : N n) (hgives : Gives source n e.kind e.name place.layout.own) :
    Sprung source N (e.withOverload place.layout) := by
  cases hplace : e.location with
  | none =>
    refine ⟨fun new hnew => ?_, fun o ho => ?_⟩
    · simp [Declaration.withOverload, hplace] at hnew
    · simp [Declaration.withOverload, Declaration.outlines, hplace] at ho
  | some old =>
    refine ⟨fun new hnew => ?_, fun o ho => ?_⟩
    · simp only [Declaration.withOverload, hplace, Option.map_some, Option.some.injEq] at hnew
      subst hnew
      exact h.own old hplace
    · rw [outlines_withOverload hplace] at ho
      rcases List.mem_append.mp ho with ho | ho
      · exact h.named o ho
      · rw [List.mem_singleton.mp ho]
        exact ⟨n, hn, hgives⟩

theorem sprung_declaration {r : Reader} {n : Node} (hn : N n) {kind : Declaration.Kind}
    {name : String} {outline : Outline} (hgives : Gives source n kind name outline) (id : QName) :
    Sprung source N (r.declaration id name kind n outline) := by
  refine ⟨fun place hplace => ?_, fun o ho => ?_⟩
  · obtain rfl := Option.some.inj hplace
    exact ⟨n, hn, hgives, rfl⟩
  · obtain rfl := List.mem_singleton.mp ho
    exact ⟨n, hn, hgives⟩

namespace Reader

variable {r : Reader}

theorem Sprung.added (h : ∀ e ∈ ds, Sprung source N e) (ht : ∀ e ∈ ds, Titled e)
    (hd : Sprung source N d) (hmember : d.kind.isType = false) (htitled : Titled d)
    (hplain : ∀ p : QName, d.id ≠ p.methodAlias) (ha : Added ds d ds') :
    ∀ e ∈ ds', Sprung source N e := by
  intro e he
  cases ha with
  | passedOver => exact h e he
  | unplaced => exact h e he
  | new =>
    rcases List.mem_append.mp he with hold | hlast
    · exact h e hold
    · exact List.mem_singleton.mp hlast ▸ hd
  | aside =>
    rcases List.mem_append.mp he with hold | hlast
    · exact h e hold
    · exact List.mem_singleton.mp hlast ▸ hd.withId _
  | @ahead i a ha =>
    rcases List.mem_append.mp he with hold | hlast
    · rcases of_mem_modify ha hold with rfl | hmem
      · exact (h a (List.mem_of_getElem? ha)).withId _
      · exact h e hmem
    · exact List.mem_singleton.mp hlast ▸ hd
  | @overload i a place ha hid hkind hplace =>
    rcases of_mem_modify ha he with rfl | hmem
    · obtain ⟨n, hn, hgives, -⟩ := hd.own place hplace
      have hold := List.mem_of_getElem? ha
      exact (h a hold).withOverload hn
        (hgives.of_overload hmember htitled hplain (ht a hold) hkind hid)
    · exact h e hmem

theorem Sprung.addMember (hs : ∀ e ∈ r.decls, Sprung source N e) (ht : ∀ e ∈ r.decls, Titled e)
    (hu : Unique r.decls) {d : Declaration} (own : List UseSite) (hd : Sprung source N d)
    (hmember : d.kind.isType = false) (htitled : Titled d)
    (hplain : ∀ p : QName, d.id ≠ p.methodAlias) :
    ∀ e ∈ (r.addMember d own).decls, Sprung source N e :=
  Sprung.added hs ht hd hmember htitled hplain (addMember_added r d own hu)

theorem Sprung.readCallable (hs : ∀ e ∈ r.decls, Sprung source N e) (ht : ∀ e ∈ r.decls, Titled e)
    (hu : Unique r.decls) (h : Coherent source r) {kind : Declaration.Kind} {n : Node}
    (htidy : Tidy source n) (hmark : n.kind ≠ .annotationMark) (hn : N n)
    (hkind : kind = .method ∧ (n.kind = .methodDeclaration ∨ n.kind = .elementDeclaration) ∨
      kind = .ctor ∧ (n.kind = .ctorDeclaration ∨ n.kind = .compactCtorDeclaration)) :
    ∀ e ∈ (r.readCallable kind n).decls, Sprung source N e := by
  obtain rfl := h.source_eq
  unfold Reader.readCallable
  split
  · exact hs
  rename_i f hf
  dsimp only
  split
  · exact hs
  rename_i id name hidentity
  obtain ⟨htitled, hplain⟩ := titled_callable h hf htidy hmark hidentity _
  have hmember : kind.isType = false := by
    rcases hkind with ⟨rfl, -⟩ | ⟨rfl, -⟩ <;> rfl
  refine Sprung.addMember hs ht hu _ (sprung_declaration hn ?_ _) hmember htitled hplain
  rcases hkind with ⟨rfl, hk⟩ | ⟨rfl, hk⟩
  · rw [if_neg (by decide)] at hidentity
    obtain ⟨c, hc, hpair⟩ := Option.map_eq_some_iff.mp hidentity
    obtain ⟨-, rfl⟩ := Prod.mk.inj hpair
    exact .method hk hc
  · exact .ctor hk

theorem Sprung.readDeclarators {n : Node} (hn : N n) (hk : n.kind = .fieldDeclaration)
    {f : TypeFrame} (ds : List Node) :
    ∀ {r : Reader}, (∀ e ∈ r.decls, Sprung source N e) → (∀ e ∈ r.decls, Titled e) →
      Unique r.decls → Coherent source r → r.owner? = some f →
      (∀ d ∈ ds, d ∈ n.childrenIn .declarator ∧ Tidy source d ∧ d.kind = .variableDeclarator) →
      ∀ e ∈ (ds.foldl (Reader.readDeclarator n (n.childrenIn .declarator).length f.id) r).decls,
        Sprung source N e := by
  induction ds with
  | nil => exact fun hs _ _ _ _ _ => hs
  | cons d ds ih =>
    intro r hs ht hu h hf hds
    obtain ⟨hmem, hd, hdk⟩ := hds d List.mem_cons_self
    obtain ⟨hnext, hframes⟩ := h.readDeclarator n _ hf hd hdk
    refine ih ?_ (Titled.readDeclarator ht hu h n _ hf hd hdk)
      (hu.readDeclarator h n _ f.id hd hdk) hnext ?_
      fun d' hd' => hds d' (List.mem_cons_of_mem _ hd')
    · obtain rfl := h.source_eq
      unfold Reader.readDeclarator
      split
      · exact hs
      · rename_i nameNode hname
        obtain ⟨htitled, hplain⟩ := titled_called h hf hd (by simp [hdk]) hname _ _ _
        exact Sprung.addMember hs ht hu _ (sprung_declaration hn (.field hk hmem hname) _) rfl
          htitled hplain
    · unfold owner?
      rw [hframes]
      exact hf

theorem Sprung.readField (hs : ∀ e ∈ r.decls, Sprung source N e) (ht : ∀ e ∈ r.decls, Titled e)
    (hu : Unique r.decls) (h : Coherent source r) {n : Node} (htidy : Tidy source n) (hn : N n)
    (hk : n.kind = .fieldDeclaration) : ∀ e ∈ (r.readField n).decls, Sprung source N e := by
  unfold Reader.readField
  split
  · exact hs
  · rename_i f hf
    exact Sprung.readDeclarators hn hk _ hs ht hu h hf fun d hd => ⟨hd, htidy.declarator hd⟩

theorem Sprung.readConstant (hs : ∀ e ∈ r.decls, Sprung source N e) (ht : ∀ e ∈ r.decls, Titled e)
    (hu : Unique r.decls) (h : Coherent source r) {n : Node} (htidy : Tidy source n) (hn : N n)
    (hk : n.kind = .enumConstant) :
    ∀ e ∈ (r.readConstant n).decls, Sprung source N e := by
  obtain rfl := h.source_eq
  unfold Reader.readConstant
  split
  · rename_i f nameNode hf hname
    split
    · obtain ⟨htitled, hplain⟩ := titled_called h hf htidy (by simp [hk]) hname _ _ _
      exact Sprung.addMember hs ht hu _ (sprung_declaration hn (.constant hk hname) _) rfl
        htitled hplain
    · exact hs
  · exact hs

theorem Sprung.openType? (hs : ∀ e ∈ r.decls, Sprung source N e) (h : Coherent source r)
    {kind : Declaration.Kind} {n : Node} (hn : N n) (hk : typeKind? n.kind = some kind)
    {r' : Reader} (hopen : r.openType? kind n = some r') :
    ∀ e ∈ r'.decls, Sprung source N e := by
  obtain rfl := h.source_eq
  obtain ⟨c, ho⟩ := openType?_opens hopen
  intro e he
  rw [ho.decls] at he
  rcases List.mem_append.mp he with hold | hlast
  · exact hs e hold
  · rw [List.mem_singleton.mp hlast]
    exact sprung_declaration hn (.type hk ho.name) _

mutual
theorem Sprung.readMember (hN : ∀ n, N n → ∀ c ∈ n.children, N c) : ∀ {n : Node} {r : Reader},
    Tidy source n → N n → Coherent source r → Unique r.decls → (∀ e ∈ r.decls, Titled e) →
    (∀ e ∈ r.decls, Sprung source N e) → ∀ e ∈ (Reader.readMember n r).decls, Sprung source N e
  | .mk k role e cs, r, htidy, hn, h, hu, ht, hs => by
    unfold Reader.readMember
    dsimp only
    split
    · exact Sprung.readCallable hs ht hu h htidy (by simp [Node.kind]) hn (.inl ⟨rfl, .inl rfl⟩)
    · exact Sprung.readCallable hs ht hu h htidy (by simp [Node.kind]) hn (.inl ⟨rfl, .inr rfl⟩)
    · exact Sprung.readCallable hs ht hu h htidy (by simp [Node.kind]) hn (.inr ⟨rfl, .inl rfl⟩)
    · exact Sprung.readCallable hs ht hu h htidy (by simp [Node.kind]) hn (.inr ⟨rfl, .inr rfl⟩)
    · exact Sprung.readField hs ht hu h htidy hn rfl
    · exact Sprung.readConstant hs ht hu h htidy hn rfl
    · exact Sprung.readMembers hN htidy.children (hN _ hn) h hu ht hs
    · exact (decls_propagate r _).symm ▸ hs
    · exact (decls_propagate r _).symm ▸ hs
    · split
      · rename_i kind hkind
        obtain ⟨htype, hk⟩ := typeKind?_isType hkind
        split
        · rename_i inner hopen
          exact Sprung.readBody hN htidy.children (hN _ hn) (h.openType? htype htidy hk hopen)
            (hu.openType? h htidy hk hopen) (Titled.openType? ht htype hopen)
            (Sprung.openType? hs h hn hkind hopen)
        · exact hs
      · exact hs

theorem Sprung.readMembers (hN : ∀ n, N n → ∀ c ∈ n.children, N c) : ∀ {ns : List Node}
    {r : Reader}, (∀ n ∈ ns, Tidy source n) → (∀ n ∈ ns, N n) → Coherent source r →
    Unique r.decls → (∀ e ∈ r.decls, Titled e) → (∀ e ∈ r.decls, Sprung source N e) →
      ∀ e ∈ (Reader.readMembers ns r).decls, Sprung source N e
  | [], r, _, _, _, _, _, hs => by unfold Reader.readMembers; exact hs
  | n :: ns, r, htidy, hns, h, hu, ht, hs => by
    unfold Reader.readMembers
    have hn := htidy n List.mem_cons_self
    exact Sprung.readMembers hN (fun m hm => htidy m (List.mem_cons_of_mem _ hm))
      (fun m hm => hns m (List.mem_cons_of_mem _ hm)) (h.readMember hn) (hu.readMember hn h)
      (Titled.readMember hn h hu ht) (Sprung.readMember hN hn (hns n List.mem_cons_self) h hu ht hs)

theorem Sprung.readBody (hN : ∀ n, N n → ∀ c ∈ n.children, N c) : ∀ {ns : List Node}
    {r : Reader}, (∀ n ∈ ns, Tidy source n) → (∀ n ∈ ns, N n) → Coherent source r →
    Unique r.decls → (∀ e ∈ r.decls, Titled e) → (∀ e ∈ r.decls, Sprung source N e) →
      ∀ e ∈ (Reader.readBody ns r).decls, Sprung source N e
  | [], r, _, _, _, _, _, hs => by unfold Reader.readBody; exact hs
  | .mk k role e inner :: ns, r, htidy, hns, h, hu, ht, hs => by
    unfold Reader.readBody
    split
    · exact Sprung.readMembers hN (htidy _ List.mem_cons_self).children
        (hN _ (hns _ List.mem_cons_self)) h hu ht hs
    · exact Sprung.readBody hN (fun m hm => htidy m (List.mem_cons_of_mem _ hm))
        (fun m hm => hns m (List.mem_cons_of_mem _ hm)) h hu ht hs
end

end Reader

end

/-! ### The tree of a file -/

/-- A node of the tree, other than its root. -/
def InTree {source : List Char} (t : Tree source) (n : Node) : Prop :=
  n ∈ Node.nodesIn t.root.children

mutual
theorem Node.nodes_closed : ∀ {n m : Node}, m ∈ n.nodes → ∀ c ∈ m.children, c ∈ n.nodes
  | .mk k role e cs, m, hm, c, hc => by
    unfold nodes at hm ⊢
    rcases List.mem_cons.mp hm with rfl | hm
    · exact List.mem_cons_of_mem _ (mem_nodesIn.mpr ⟨c, hc, self_mem_nodes c⟩)
    · exact List.mem_cons_of_mem _ (nodesIn_closed hm c hc)

theorem Node.nodesIn_closed : ∀ {ns : List Node} {m : Node}, m ∈ nodesIn ns →
    ∀ c ∈ m.children, c ∈ nodesIn ns
  | [], m, hm, _, _ => by cases hm
  | n :: ns, m, hm, c, hc => by
    unfold nodesIn at hm ⊢
    rcases List.mem_append.mp hm with hm | hm
    · exact List.mem_append_left _ (nodes_closed hm c hc)
    · exact List.mem_append_right _ (nodesIn_closed hm c hc)
end

mutual
theorem Node.of_mem_nodes {P : Node → Prop} (hP : ∀ n, P n → ∀ c ∈ n.children, P c) :
    ∀ {n m : Node}, P n → m ∈ n.nodes → P m
  | .mk k role e cs, m, h, hm => by
    unfold nodes at hm
    rcases List.mem_cons.mp hm with rfl | hm
    · exact h
    · exact of_mem_nodesIn hP (hP _ h) hm

theorem Node.of_mem_nodesIn {P : Node → Prop} (hP : ∀ n, P n → ∀ c ∈ n.children, P c) :
    ∀ {ns : List Node} {m : Node}, (∀ n ∈ ns, P n) → m ∈ nodesIn ns → P m
  | [], m, _, hm => by cases hm
  | n :: ns, m, h, hm => by
    unfold nodesIn at hm
    rcases List.mem_append.mp hm with hm | hm
    · exact of_mem_nodes hP (h n List.mem_cons_self) hm
    · exact of_mem_nodesIn hP (fun n hn => h n (List.mem_cons_of_mem _ hn)) hm
end

theorem Laid.of_mem_nodes {g : Ground} {n m : Node} (h : Laid g n) (hm : m ∈ n.nodes) : Laid g m :=
  Node.of_mem_nodes (fun _ h => h.children) h hm

theorem InTree.tidy {source : List Char} {t : Tree source} {n : Node} (h : InTree t n) :
    Tidy source n :=
  Node.of_mem_nodesIn (fun _ h => h.children) t.tidy.children h

theorem InTree.laid {source : List Char} {t : Tree source} {n : Node} (h : InTree t n) :
    Laid (.ofText source) n :=
  Node.of_mem_nodesIn (fun _ h => h.children) t.stands.laid h

theorem SourceTree.topTypes_inTree (s : SourceTree) : ∀ n ∈ s.tree.root.topTypes, InTree s.tree n :=
  fun n hn => Node.mem_nodesIn.mpr ⟨n, (List.mem_filter.mp hn).1, n.self_mem_nodes⟩

theorem Stands.apart {source : List Char} {lo hi : Nat} {ns : List Node}
    (h : Stands source lo ns hi) {c d : Node} (hc : c ∈ ns) (hd : d ∈ ns) (hne : c ≠ d) :
    c.span.Apart d.span := by
  have hsymm : Std.Symm fun c d : Node => c.span.Apart d.span := ⟨fun _ _ => Or.symm⟩
  have happart : ns.Pairwise fun c d => c.span.Apart d.span := h.pairwise.imp Or.inl
  exact happart.forall hc hd hne

namespace Laid

variable {source : List Char} {n c d : Node}

theorem shorter (h : Laid (.ofText source) n) (hc : c ∈ n.children) (hd : d ∈ n.children)
    (hne : c ≠ d) : n.span.Encloses c.span ∧ c.span.length < n.span.length := by
  have hstands := Stands.children h
  have hcin := hstands.bounds c hc
  have hdin := hstands.bounds d hd
  have hclen := (h.children c hc).nonempty
  have hdlen := (h.children d hd).nonempty
  refine ⟨hcin, ?_⟩
  unfold Span.length
  rcases hstands.apart hc hd hne with hbefore | hbehind <;> omega

theorem encloses_nodes (h : Laid (.ofText source) n) :
    ∀ m ∈ n.nodes, n.span.Encloses m.span := by
  induction h with
  | @intro k r e cs hstart hstop hlt hchain hfits hcs ih =>
    intro m hm
    unfold Node.nodes at hm
    rcases List.mem_cons.mp hm with rfl | hm
    · exact ⟨Nat.le_refl _, Nat.le_refl _⟩
    · obtain ⟨c, hc, hm⟩ := Node.mem_nodesIn.mp hm
      have hstands : Stands source e.start.offset cs e.stop.offset := ⟨hchain, hcs⟩
      exact Span.Encloses.trans (hstands.bounds c hc) (ih c hc m hm)

end Laid

/-- The node has parts beside each other. -/
def Node.Forked (n : Node) : Prop := ∃ a ∈ n.children, ∃ b ∈ n.children, a ≠ b

theorem Laid.part_shorter {source : List Char} {n c : Node} (h : Laid (.ofText source) n)
    (hfork : n.Forked) (hc : c ∈ n.children) : c.span.length < n.span.length := by
  obtain ⟨a, ha, b, hb, hne⟩ := hfork
  by_cases hca : c = a
  · exact (h.shorter hc hb (hca ▸ hne)).2
  · exact (h.shorter hc ha hca).2

def ToldBySpan (ns : List Node) : Prop :=
  ∀ m ∈ ns, ∀ m' ∈ ns, m.Forked → m'.Forked → m.span = m'.span → m = m'

theorem Stands.toldBySpan {source : List Char} {lo hi : Nat} {ns : List Node}
    (h : Stands source lo ns hi) (hns : ∀ n ∈ ns, ToldBySpan n.nodes) :
    ToldBySpan (Node.nodesIn ns) := by
  intro m hm m' hm' hfork hfork' hspan
  obtain ⟨c, hc, hmc⟩ := Node.mem_nodesIn.mp hm
  obtain ⟨c', hc', hmc'⟩ := Node.mem_nodesIn.mp hm'
  by_cases hsame : c = c'
  · obtain rfl := hsame
    exact hns c hc m hmc m' hmc' hfork hfork' hspan
  · have hin := (h.laid c hc).encloses_nodes m hmc
    have hin' := (h.laid c' hc').encloses_nodes m' hmc'
    have hlen := (Laid.of_mem_nodes (h.laid c hc) hmc).nonempty
    have happart := h.apart hc hc' hsame
    rw [← hspan] at hin'
    unfold Span.Encloses at hin hin'
    unfold Span.Apart at happart
    omega

theorem Laid.toldBySpan {source : List Char} {n : Node} (h : Laid (.ofText source) n) :
    ToldBySpan n.nodes := by
  induction h with
  | @intro k r e cs hstart hstop hlt hchain hfits hcs ih =>
    have hlaid : Laid (.ofText source) (.mk k r e cs) :=
      .intro hstart hstop hlt hchain hfits hcs
    have hinner : ∀ m ∈ Node.nodesIn cs, (Node.mk k r e cs).Forked →
        (Node.mk k r e cs).span ≠ m.span := by
      intro m hm hfork hspan
      obtain ⟨c, hc, hm⟩ := Node.mem_nodesIn.mp hm
      have hlt := hlaid.part_shorter hfork hc
      have hin := (hcs c hc).encloses_nodes m hm
      rw [hspan] at hlt
      unfold Span.length at hlt
      unfold Span.Encloses at hin
      omega
    intro m hm m' hm' hfork hfork' hspan
    unfold Node.nodes at hm hm'
    rcases List.mem_cons.mp hm with rfl | hm <;> rcases List.mem_cons.mp hm' with rfl | hm'
    · rfl
    · exact absurd hspan (hinner m' hm' hfork)
    · exact absurd hspan.symm (hinner m hm hfork')
    · have hstands : Stands source e.start.offset cs e.stop.offset := ⟨hchain, hcs⟩
      exact hstands.toldBySpan ih m hm m' hm' hfork hfork' hspan

theorem InTree.eq_of_span {source : List Char} {t : Tree source} {n m : Node} (hn : InTree t n)
    (hm : InTree t m) (hfork : n.Forked) (hfork' : m.Forked) (hspan : n.span = m.span) :
    n = m := by
  have hstands := t.stands
  exact hstands.toldBySpan (fun c hc => (hstands.laid c hc).toldBySpan) n hn m hm hfork hfork' hspan

/-- The declarations of a file come from its tree. -/
theorem SourceTree.sprung (s : SourceTree) :
    ∀ e ∈ s.read.entries, Sprung s.text.toList (InTree s.tree) e.decl := by
  have h := Reader.Sprung.readMembers (fun _ hn => Node.nodesIn_closed hn) s.topTypes_tidy
    s.topTypes_inTree (.start s) (.start s) (by simp [Reader.decls_start])
    (by simp [Reader.decls_start])
  exact fun e he => h e.decl (List.mem_map_of_mem he)

end Carve.Java
