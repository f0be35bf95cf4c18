import Carve.Proofs.Java.Recording

/-!
# Reading the bodies of types

A type is opened without members, and when it is closed the members that its body writes are
merged. Reading goes down the tree as the members are written in it, so that at the end of a file
no type is open and the members of each are those of the node that it was read from.
-/

namespace Carve

namespace Java

open QName

namespace Node

theorem self_mem_nodes (n : Node) : n ∈ n.nodes := by
  cases n
  simp [nodes]

theorem mem_nodesIn {ns : List Node} {m : Node} : m ∈ nodesIn ns ↔ ∃ n ∈ ns, m ∈ n.nodes := by
  induction ns with
  | nil => simp [nodesIn]
  | cons n ns ih => simp [nodesIn, ih]

theorem nodesIn_subset {ns ns' : List Node} (h : ns ⊆ ns') : nodesIn ns ⊆ nodesIn ns' := by
  intro m hm
  obtain ⟨n, hn, hmn⟩ := mem_nodesIn.mp hm
  exact mem_nodesIn.mpr ⟨n, h hn, hmn⟩

theorem nodesIn_children (n : Node) : nodesIn n.children ⊆ n.nodes := by
  cases n
  exact fun m hm => List.mem_cons_of_mem _ hm

section

variable {source : List Char} {T : Declaration} {k : Kind} {role : Option Role} {e : Extent}
  {n : Node} {ns : List Node}

theorem written_of_type {kind : Declaration.Kind} (h : typeKind? k = some kind) :
    (mk k role e ns).written source T = ((mk k role e ns).writtenType? source kind).toList := by
  unfold typeKind? at h
  split at h
  all_goals cases h
  all_goals rfl

theorem members_cons_body (h : n.role = some .body) :
    (mk k role e (n :: ns)).members source T = writtenIn source T n.children := by
  simp [members, child?, children, h]

theorem members_cons_other (h : n.role ≠ some .body) :
    (mk k role e (n :: ns)).members source T = (mk k role e ns).members source T := by
  simp [members, child?, children, h]

end

end Node

namespace Reader

section

variable {s : SourceTree} {source : List Char} {path : Path} {done : QName → List Written}
  {r r' inner : Reader} {f : TypeFrame} {T d : Declaration} {w : Written}
  {kind : Declaration.Kind} {n c : Node}

theorem typeId_of_owner (hf : r.owner? = some f) (name : String) :
    r.typeId name = f.id.member name := by
  simp [typeId, hf]

/-- A type counts as written even if it is passed over because its name is taken. -/
theorem Recorded.mention (h : Recorded s done r) (hT : Owns r T) (hx : Word w.name)
    (hw : w.kind.isType = true) : Records s (grow done T.id [w]) r r := by
  cases hf : r.owner? with
  | none => exact h.outside hf
  | some f =>
    rw [(hT f hf).1]
    refine ⟨⟨h.path_eq, h.provenance_eq, h.coherent, h.unique, h.apt, ?_, h.closed⟩, rfl,
      fun _ hT _ => hT⟩
    intro g hg hapart
    by_cases hid : g.id = f.id
    · rw [hid, grow_self] at hapart ⊢
      have hmerged := h.opened g hg (hid ▸ hapart.left)
      exact (hid ▸ hmerged).type hx hw (fun _ _ => Iff.rfl) fun _ hd => Or.inl hd
    · rw [grow_of_ne hid] at hapart ⊢
      exact h.opened g hg hapart

theorem Recorded.apt_typeDeclaration (h : Recorded s done r) (htype : kind.isType = true)
    (hx : Word (r.text c)) : Apt r.package (r.typeDeclaration kind n c) := by
  refine ⟨fun hctor => ?_, fun _ => typeId_ne_alias r hx.plain, fun _ hparent => ?_,
    fun _ p hpackage => ?_⟩
  · rw [show kind = .ctor from hctor] at htype
    cases htype
  · exact typeId_topName (Option.map_eq_none_iff.mp hparent) hx.dotless
  · show p.length < (r.typeId (r.text c)).text.length
    cases hf : r.owner? with
    | none =>
      have hid : r.typeId (r.text c) = QName.member ⟨p⟩ (r.text c) := by
        simp [typeId, hf, hpackage]
      rw [hid]
      exact length_of_below ⟨_, hx.dotless, rfl⟩
    | some f =>
      obtain ⟨T, hT, hTtype, hid⟩ := h.frame_type (List.mem_of_getLast? hf)
      have hwithin := (h.apt T hT).within hTtype p hpackage
      rw [hid] at hwithin
      rw [typeId_of_owner hf]
      exact Nat.lt_trans hwithin (length_of_below ⟨_, hx.dotless, rfl⟩)

theorem readFrom_typeDeclaration (hsource : r.source = source) (hpath : r.path = path)
    (hkind : typeKind? n.kind = some kind) (hc : n.child? .name = some c) :
    ReadFrom source path (r.typeDeclaration kind n c) n where
  kind := hkind
  name := by
    rw [hc, ← hsource]
    rfl
  location := by
    rw [← hsource, ← hpath]
    rfl

theorem Recorded.readFrom (h : Recorded s done r) (hkind : typeKind? n.kind = some kind)
    (hc : n.child? .name = some c) :
    ReadFrom s.text.toList s.path (r.typeDeclaration kind n c) n :=
  readFrom_typeDeclaration h.coherent.source_eq h.path_eq hkind hc

theorem Opens.fresh (ho : Opens kind n c r inner) (h : Recorded s done r) (hf : f ∈ r.frames) :
    f.id ≠ r.typeId (r.text c) := by
  obtain ⟨T, hT, -, hid⟩ := h.frame_type hf
  exact hid ▸ ho.free T hT

theorem Opens.childless (ho : Opens kind n c r inner) (h : Recorded s done r)
    (hcoherent : Coherent s.text.toList inner) :
    ∀ d ∈ inner.decls, d.parent ≠ some (r.typeId (r.text c)) := by
  intro d hd hparent
  have hmem := hd
  rw [ho.decls] at hd
  rcases List.mem_append.mp hd with hold | hnew
  · obtain ⟨e, he, rfl⟩ := mem_decls.mp hold
    obtain ⟨T, hT, -, hid⟩ := h.coherent.parents e he _ hparent
    exact ho.free T.decl (mem_decls.mpr ⟨T, hT, rfl⟩) hid
  · obtain ⟨e, he, rfl⟩ := mem_decls.mp hmem
    have hbelow := hcoherent.named e he _ hparent
    rw [List.mem_singleton.mp hnew] at hbelow
    exact absurd (length_of_below hbelow) (Nat.lt_irrefl _)

theorem Opens.mem_iff (ho : Opens kind n c r inner) (hne : d ≠ r.typeDeclaration kind n c) :
    d ∈ inner.decls ↔ d ∈ r.decls := by
  rw [ho.decls]
  simp [hne]

theorem Opens.spared (ho : Opens kind n c r inner) {id : QName}
    (hid : ∀ f, r.owner? = some f → f.id ≠ id) (hparent : d.parent = some id) :
    d ∈ inner.decls ↔ d ∈ r.decls := by
  apply ho.mem_iff
  rintro rfl
  obtain ⟨f, hf, hsame⟩ := Option.map_eq_some_iff.mp hparent
  exact hid f hf hsame

theorem Opens.merged (ho : Opens kind n c r inner) {ws : List Written}
    (h : Merged s f.id ws r.decls) (hf : r.owner? = some f) (hx : Word w.name)
    (hw : w.kind = kind) (hname : w.name = r.text c) (htype : kind.isType = true) :
    Merged s f.id (ws ++ [w]) inner.decls := by
  refine h.type hx (hw ▸ htype) (fun d hmember => ho.mem_iff ?_) fun d hd => ?_
  · rintro rfl
    rw [show kind.isType = false from hmember] at htype
    cases htype
  · rw [ho.decls] at hd
    rcases List.mem_append.mp hd with hmem | hnew
    · exact Or.inl hmem
    · rw [List.mem_singleton.mp hnew, hname]
      exact Or.inr (typeId_of_owner hf _)

theorem Opens.recorded (ho : Opens kind n c r inner) (h : Recorded s done r) (hT : Owns r T)
    (hcoherent : Coherent s.text.toList inner) (hunique : Unique inner.decls)
    (htype : kind.isType = true) (hx : Word (r.text c)) :
    Recorded s (Function.update (grow done T.id (n.writtenType? s.text.toList kind).toList)
      (r.typeId (r.text c)) []) inner := by
  obtain ⟨g, hframes, -, hgid⟩ := ho.frames
  obtain ⟨es, tops, fs, hrest⟩ := ho.rest
  have hpackage : inner.package = r.package := by rw [hrest]
  have hwritten : n.writtenType? s.text.toList kind =
      some ⟨kind, r.text c, n.range, n.typeOutline s.text.toList⟩ := by
    rw [Node.writtenType?, ho.name, ← h.coherent.source_eq]
    rfl
  rw [hwritten, Option.toList_some]
  refine ⟨?_, ?_, hcoherent, hunique, ?_, ?_, ?_⟩
  · rw [ho.path]
    exact h.path_eq
  · rw [hrest]
    exact h.provenance_eq
  · intro d hd
    rw [hpackage]
    rw [ho.decls] at hd
    rcases List.mem_append.mp hd with hmem | hnew
    · exact h.apt d hmem
    · rw [List.mem_singleton.mp hnew]
      exact h.apt_typeDeclaration htype hx
  · intro f hf hapart
    rw [hframes] at hf
    rcases List.mem_append.mp hf with hf | hnew
    · rw [Function.update_of_ne (ho.fresh h hf)] at hapart ⊢
      obtain ⟨o, howner⟩ : ∃ o, r.owner? = some o :=
        Option.isSome_iff_exists.mp (List.getLast?_isSome.mpr (List.ne_nil_of_mem hf))
      rw [(hT o howner).1] at hapart ⊢
      by_cases hid : f.id = o.id
      · rw [hid, grow_self] at hapart ⊢
        have hmerged := h.opened f hf (hid ▸ hapart.left)
        exact ho.merged (hid ▸ hmerged) howner hx rfl rfl htype
      · rw [grow_of_ne hid] at hapart ⊢
        refine (h.opened f hf hapart).congr fun d hparent _ => ho.spared ?_ hparent
        intro o' howner'
        obtain rfl := Option.some.inj (howner.symm.trans howner')
        exact Ne.symm hid
    · rw [List.mem_singleton.mp hnew, hgid, Function.update_self]
      exact .nothing (ho.childless h hcoherent)
  · intro T' hT' hT'type hclosed
    rw [hframes] at hclosed
    have hmem : T' ∈ r.decls := by
      refine (ho.mem_iff ?_).mp hT'
      rintro rfl
      exact hclosed g (by simp) hgid
    refine (h.closed T' hmem hT'type fun f hf => hclosed f (by simp [hf])).congr fun d hparent =>
      ho.spared (fun f hf => hclosed f ?_) hparent
    exact List.mem_append_left _ (List.mem_of_getLast? hf)

theorem Opens.close (ho : Opens kind n c r inner) (h : Recorded s done r)
    (htype : kind.isType = true)
    (hread : ReadFrom s.text.toList s.path (r.typeDeclaration kind n c) n)
    (hn : n ∈ s.tree.root.nodes) {done' : QName → List Written}
    (k : Records s (grow (Function.update done' (r.typeId (r.text c)) []) (r.typeId (r.text c))
      (n.members s.text.toList (r.typeDeclaration kind n c))) inner r') :
    Records s done' r r'.closeType := by
  obtain ⟨g, hframes, -, hgid⟩ := ho.frames
  have hrframes : r'.frames = r.frames ++ [g] := k.frames.trans hframes
  have hclosed : r'.closeType.frames = r.frames := by
    unfold closeType
    rw [hrframes, List.dropLast_concat]
  have hstay : r.typeDeclaration kind n c ∈ r'.decls :=
    k.types _ (by simp [ho.decls]) htype
  have hrec := k.recorded
  refine ⟨⟨hrec.path_eq, hrec.provenance_eq, hrec.coherent.closeType, hrec.unique, hrec.apt,
    ?_, ?_⟩, hclosed, fun T hT hTtype => k.types T (by simp [ho.decls, hT]) hTtype⟩
  · intro f hf hapart
    rw [hclosed] at hf
    have hmerged := hrec.opened f (by simp [hrframes, hf])
    have hne := ho.fresh h hf
    rw [grow_of_ne hne, Function.update_of_ne hne] at hmerged
    exact hmerged hapart
  · intro T hT hTtype hopen
    rw [hclosed] at hopen
    by_cases hid : T.id = r.typeId (r.text c)
    · obtain ⟨i, hi⟩ := List.mem_iff_getElem?.mp hT
      obtain ⟨j, hj⟩ := List.mem_iff_getElem?.mp hstay
      obtain rfl := hrec.unique.ids i j _ _ hi hj hid
      obtain rfl := Option.some.inj (hi.symm.trans hj)
      have hmerged := hrec.opened g (by simp [hrframes])
      rw [hgid, grow_self, Function.update_self, List.nil_append] at hmerged
      exact ⟨n, hn, hread, hmerged⟩
    · refine hrec.closed T hT hTtype fun f hf => ?_
      rw [hrframes] at hf
      rcases List.mem_append.mp hf with hf | hf
      · exact hopen f hf
      · rw [List.mem_singleton.mp hf, hgid]
        exact Ne.symm hid

/-- A type is opened, read and closed, unless its name is taken. -/
theorem Recorded.readType (h : Recorded s done r) (hT : Owns r T) (hn : Tidy s.text.toList n)
    (hmem : n ∈ s.tree.root.nodes) (hkind : typeKind? n.kind = some kind)
    (hread : ∀ {inner : Reader} {done : QName → List Written} {N : Declaration},
      Owns inner N → Recorded s done inner →
        Records s (grow done N.id (n.members s.text.toList N)) inner
          (Reader.readBody n.children inner)) :
    Records s (grow done T.id (n.writtenType? s.text.toList kind).toList) r
      (match r.openType? kind n with
        | some inner => (Reader.readBody n.children inner).closeType
        | none => r) := by
  obtain ⟨htype, hk⟩ := typeKind?_isType hkind
  split
  · rename_i inner hopen
    obtain ⟨c, ho⟩ := openType?_opens hopen
    have hcoherent := h.coherent.openType? htype hn hk hopen
    have hinner := ho.recorded h hT hcoherent (h.unique.openType? h.coherent hn hk hopen) htype
      (h.coherent.wordChars hn hk ho.name)
    have howns : Owns inner (r.typeDeclaration kind n c) := by
      intro f hf
      obtain ⟨g, hframes, -, hgid⟩ := ho.frames
      have hfkind := ho.kind
      rw [hf] at hfkind
      rw [owner?, hframes, List.getLast?_concat] at hf
      obtain rfl := Option.some.inj hf
      exact ⟨hgid.symm, (Option.some.inj hfkind).symm⟩
    exact ho.close h htype (h.readFrom hkind ho.name) hmem (hread howns hinner)
  · cases hc : n.child? .name with
    | none => simpa [Node.writtenType?, hc] using h.refl
    | some c =>
      have hx : Word (c.text s.text.toList) := by
        rw [← h.coherent.source_eq]
        exact h.coherent.wordChars hn hk hc
      simpa [Node.writtenType?, hc] using h.mention hT hx htype

mutual
theorem Recorded.readMember : ∀ {n : Node} {r : Reader} {done : QName → List Written}
    {T : Declaration}, Tidy s.text.toList n → n.nodes ⊆ s.tree.root.nodes → Owns r T →
    Recorded s done r →
    Records s (grow done T.id (n.written s.text.toList T)) r (Reader.readMember n r)
  | .mk k role e cs, r, done, T, hn, hsub, hT, h => by
    unfold Reader.readMember
    dsimp only
    split
    · exact h.readMethod hT hn (by simp [Node.kind])
    · exact h.readMethod hT hn (by simp [Node.kind])
    · simpa [Node.written, typeKind?] using h.readCtor hn (by simp [Node.kind])
    · simpa [Node.written, typeKind?] using h.readCtor hn (by simp [Node.kind])
    · exact h.readField hT hn
    · exact h.readConstant hT hn (by simp [Node.kind])
    · exact Recorded.readMembers hn.children (fun m hm => hsub (List.mem_cons_of_mem _ hm)) hT h
    · simpa [Node.written, typeKind?] using h.readInitializer _
    · simpa [Node.written, typeKind?] using h.readInitializer _
    · split
      · rename_i kind hkind
        rw [Node.written_of_type hkind]
        refine h.readType hT hn (hsub (Node.self_mem_nodes _)) hkind fun hN hinner => ?_
        exact Recorded.readBody hn.children (fun m hm => hsub (List.mem_cons_of_mem _ hm)) hN hinner
      · rename_i hkind
        have hnothing : (Node.mk k role e cs).written s.text.toList T = [] := by
          unfold Node.written
          dsimp only
          split <;> simp_all
        rw [hnothing, grow_nil]
        exact h.refl

theorem Recorded.readMembers : ∀ {ns : List Node} {r : Reader} {done : QName → List Written}
    {T : Declaration}, (∀ n ∈ ns, Tidy s.text.toList n) →
    Node.nodesIn ns ⊆ s.tree.root.nodes → Owns r T → Recorded s done r →
    Records s (grow done T.id (Node.writtenIn s.text.toList T ns)) r (Reader.readMembers ns r)
  | [], r, done, T, _, _, _, h => by
    unfold Reader.readMembers
    simpa [Node.writtenIn] using h.refl
  | n :: ns, r, done, T, hns, hsub, hT, h => by
    unfold Reader.readMembers Node.writtenIn
    obtain ⟨hhead, htail⟩ := List.append_subset.mp hsub
    have hfirst := Recorded.readMember (hns n List.mem_cons_self) hhead hT h
    have hrest := Recorded.readMembers (fun m hm => hns m (List.mem_cons_of_mem _ hm)) htail
      (hT.of_records hfirst) hfirst.recorded
    have hboth := hfirst.trans hrest
    rwa [grow_grow] at hboth

theorem Recorded.readBody : ∀ {ns : List Node} {r : Reader} {done : QName → List Written}
    {T : Declaration} {k : Kind} {role : Option Role} {e : Extent},
    (∀ n ∈ ns, Tidy s.text.toList n) → Node.nodesIn ns ⊆ s.tree.root.nodes →
    Owns r T → Recorded s done r →
    Records s (grow done T.id ((Node.mk k role e ns).members s.text.toList T)) r
      (Reader.readBody ns r)
  | [], r, done, T, k, role, e, _, _, _, h => by
    unfold Reader.readBody
    simpa [Node.members, Node.child?, Node.children] using h.refl
  | .mk k' role' e' inner :: ns, r, done, T, k, role, e, hns, hsub, hT, h => by
    unfold Reader.readBody
    obtain ⟨hhead, htail⟩ := List.append_subset.mp hsub
    split
    · rename_i hrole
      rw [Node.members_cons_body (by simpa [Node.role] using hrole)]
      exact Recorded.readMembers (hns _ List.mem_cons_self).children
        (fun m hm => hhead (List.mem_cons_of_mem _ hm)) hT h
    · rename_i hrole
      rw [Node.members_cons_other (by simpa [Node.role] using hrole)]
      exact Recorded.readBody (fun m hm => hns m (List.mem_cons_of_mem _ hm)) htail hT h
end

end

end Reader

/-- Every type of a file was read from a node of its tree and has the members that stand there. -/
theorem SourceTree.told (s : SourceTree) : ∀ e ∈ s.read.entries, e.decl.kind.isType = true →
    Told s e.decl (s.read.entries.map (·.decl)) := by
  have hsub : Node.nodesIn s.tree.root.topTypes ⊆ s.tree.root.nodes :=
    List.Subset.trans (Node.nodesIn_subset fun _ hn => (List.mem_filter.mp hn).1)
      (Node.nodesIn_children _)
  have hstart : Reader.Recorded s (fun _ => []) s.start := by
    refine ⟨rfl, rfl, .start s, .start s, ?_, ?_, ?_⟩
    · simp [Reader.decls_start]
    · exact fun f hf => absurd hf List.not_mem_nil
    · simp [Reader.decls_start]
  have hread := Reader.Recorded.readMembers (T := default) s.topTypes_tidy hsub
    (fun f hf => by cases hf) hstart
  intro e he htype
  refine hread.recorded.closed e.decl (List.mem_map_of_mem he) htype fun f hf => ?_
  rw [hread.frames] at hf
  cases hf

end Java

end Carve
