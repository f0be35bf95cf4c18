import Carve.Proofs.Java.Members
import Carve.Proofs.Java.Targets

/-!
# Members by name

Whatever a file looks like, a field or method that it declares is called by its name in the type
that it belongs to, a method maybe by the alias. A lookup that has nothing to go by but these two
names thus finds a member of the type, of the kind and of the name, exactly if the table has one.
-/

namespace Carve

open QName

namespace Java

/-- A field or method is called by its plain name in its type; a method may go by the alias. -/
def Titled (d : Declaration) : Prop :=
  ∀ kind : MemberKind, d.kind = kind.kind → ∃ p, d.parent = some p ∧ Word d.name ∧
    (d.id = p.member d.name ∨ kind = .method ∧ d.id = (p.member d.name).methodAlias)

theorem titled_of_type {d : Declaration} (h : d.kind.isType = true) : Titled d := by
  intro kind hkind
  rw [hkind] at h
  cases kind <;> cases h

namespace Reader

variable {ds ds' : List Declaration} {d : Declaration} {source : List Char} {r : Reader}

theorem Titled.added (h : ∀ e ∈ ds, Titled e) (hd : Titled d)
    (hplain : ∀ p : QName, d.id ≠ p.methodAlias) (ha : Added ds d ds') : ∀ e ∈ ds', Titled e := by
  intro e he
  cases ha with
  | passedOver => exact h e he
  | unplaced => exact h e he
  | new =>
    rcases List.mem_append.mp he with hold | hlast
    · exact h e hold
    · exact List.mem_singleton.mp hlast ▸ hd
  | aside hmethod =>
    rcases List.mem_append.mp he with hold | hlast
    · exact h e hold
    · rw [List.mem_singleton.mp hlast]
      intro kind hkind
      obtain ⟨p, hparent, hword, hid⟩ := hd kind hkind
      have hname : d.id = p.member d.name :=
        hid.resolve_right fun halias => hplain _ halias.2
      exact ⟨p, hparent, hword, Or.inr
        ⟨MemberKind.kind_inj (hkind.symm.trans hmethod), congrArg methodAlias hname⟩⟩
  | @ahead i a ha hsame hmethod =>
    rcases List.mem_append.mp he with hold | hlast
    · rcases of_mem_modify ha hold with rfl | hmem
      · intro kind hkind
        obtain ⟨p, hparent, hword, hid⟩ := h a (List.mem_of_getElem? ha) kind hkind
        have hname : a.id = p.member a.name :=
          hid.resolve_right fun halias => hplain _ (hsame.symm.trans halias.2)
        exact ⟨p, hparent, hword, Or.inr ⟨MemberKind.kind_inj (hkind.symm.trans hmethod),
          congrArg methodAlias (hsame.symm.trans hname)⟩⟩
      · exact h e hmem
    · exact List.mem_singleton.mp hlast ▸ hd
  | @overload i a place ha =>
    rcases of_mem_modify ha he with rfl | hmem
    · exact h a (List.mem_of_getElem? ha)
    · exact h e hmem

theorem titled_declaration {f : TypeFrame} (hf : r.owner? = some f) {name : String}
    (hname : Word name) (kind : Declaration.Kind) (n : Node) (outline : Outline) :
    Titled (r.declaration (f.id.member name) name kind n outline) := by
  intro _ _
  exact ⟨f.id, by simp [declaration, hf], hname, Or.inl rfl⟩

theorem Titled.addMember (hs : ∀ e ∈ r.decls, Titled e) (hu : Unique r.decls) {d : Declaration}
    (own : List UseSite) (hd : Titled d) (hplain : ∀ p : QName, d.id ≠ p.methodAlias) :
    ∀ e ∈ (r.addMember d own).decls, Titled e :=
  Titled.added hs hd hplain (addMember_added r d own hu)

theorem titled_called (h : Coherent source r) {f : TypeFrame} (hf : r.owner? = some f) {d c : Node}
    (hd : Tidy source d) (hk : d.kind ≠ .annotationMark) (hname : d.child? .name = some c)
    (kind : Declaration.Kind) (n : Node) (outline : Outline) :
    Titled (r.declaration (f.id.member (r.text c)) (r.text c) kind n outline) ∧
      ∀ p : QName, f.id.member (r.text c) ≠ p.methodAlias := by
  have hword : Word (r.text c) := h.wordChars hd hk hname
  exact ⟨titled_declaration hf hword kind n outline, member_ne_alias hword.plain⟩

theorem titled_callable (h : Coherent source r) {f : TypeFrame} (hf : r.owner? = some f)
    {kind : Declaration.Kind} {n : Node} (hn : Tidy source n) (hk : n.kind ≠ .annotationMark)
    {id : QName} {name : String}
    (hidentity : (if kind == .ctor then some (f.id.ctor, f.id.simple)
      else (n.child? .name).map fun c => (f.id.member (r.text c), r.text c)) = some (id, name))
    (outline : Outline) :
    Titled (r.declaration id name kind n outline) ∧ ∀ p : QName, id ≠ p.methodAlias := by
  split at hidentity
  · rename_i hctor
    obtain ⟨rfl, rfl⟩ := Prod.mk.inj (Option.some.inj hidentity)
    refine ⟨fun k hkind => ?_, member_ne_alias (by decide)⟩
    have hkind : kind = k.kind := hkind
    rw [beq_iff_eq.mp hctor] at hkind
    cases k <;> cases hkind
  · obtain ⟨c, hc, hpair⟩ := Option.map_eq_some_iff.mp hidentity
    obtain ⟨rfl, rfl⟩ := Prod.mk.inj hpair
    exact titled_called h hf hn hk hc _ _ _

theorem Titled.readCallable (hs : ∀ e ∈ r.decls, Titled e) (hu : Unique r.decls)
    (h : Coherent source r) {kind : Declaration.Kind} {n : Node} (hn : Tidy source n)
    (hk : n.kind ≠ .annotationMark) : ∀ e ∈ (r.readCallable kind n).decls, Titled e := by
  unfold Reader.readCallable
  split
  · exact hs
  rename_i f hf
  dsimp only
  split
  · exact hs
  rename_i id name hidentity
  obtain ⟨htitled, hplain⟩ := titled_callable h hf hn hk hidentity _
  exact Titled.addMember hs hu _ htitled hplain

theorem Titled.readDeclarator (hs : ∀ e ∈ r.decls, Titled e) (hu : Unique r.decls)
    (h : Coherent source r) (n : Node) {d : Node} (count : Nat) {f : TypeFrame}
    (hf : r.owner? = some f) (hd : Tidy source d) (hk : d.kind = .variableDeclarator) :
    ∀ e ∈ (Reader.readDeclarator n count f.id r d).decls, Titled e := by
  unfold Reader.readDeclarator
  split
  · exact hs
  rename_i nameNode hname
  obtain ⟨htitled, hplain⟩ := titled_called h hf hd (by simp [hk]) hname _ _ _
  exact Titled.addMember hs hu _ htitled hplain

theorem Titled.readDeclarators {n : Node} {count : Nat} {f : TypeFrame} (ds : List Node) :
    ∀ {r : Reader}, (∀ e ∈ r.decls, Titled e) → Unique r.decls → Coherent source r →
      r.owner? = some f → (∀ d ∈ ds, Tidy source d ∧ d.kind = .variableDeclarator) →
      ∀ e ∈ (ds.foldl (Reader.readDeclarator n count f.id) r).decls, Titled e := by
  induction ds with
  | nil => exact fun hs _ _ _ _ => hs
  | cons d ds ih =>
    intro r hs hu h hf hds
    obtain ⟨hd, hk⟩ := hds d List.mem_cons_self
    obtain ⟨hnext, hframes⟩ := h.readDeclarator n count hf hd hk
    refine ih (Titled.readDeclarator hs hu h n count hf hd hk)
      (hu.readDeclarator h n count f.id hd hk) hnext ?_
      fun d' hd' => hds d' (List.mem_cons_of_mem _ hd')
    unfold owner?
    rw [hframes]
    exact hf

theorem Titled.readField (hs : ∀ e ∈ r.decls, Titled e) (hu : Unique r.decls)
    (h : Coherent source r) {n : Node} (hn : Tidy source n) :
    ∀ e ∈ (r.readField n).decls, Titled e := by
  unfold Reader.readField
  split
  · exact hs
  · rename_i f hf
    exact Titled.readDeclarators _ hs hu h hf fun d hd => hn.declarator hd

theorem Titled.readConstant (hs : ∀ e ∈ r.decls, Titled e) (hu : Unique r.decls)
    (h : Coherent source r) {n : Node} (hn : Tidy source n) (hk : n.kind ≠ .annotationMark) :
    ∀ e ∈ (r.readConstant n).decls, Titled e := by
  unfold Reader.readConstant
  split
  · rename_i f nameNode hf hname
    split
    · obtain ⟨htitled, hplain⟩ := titled_called h hf hn hk hname _ _ _
      exact Titled.addMember hs hu _ htitled hplain
    · exact hs
  · exact hs

theorem Titled.openType? (hs : ∀ e ∈ r.decls, Titled e) {kind : Declaration.Kind}
    (htype : kind.isType = true) {n : Node} {r' : Reader} (hopen : r.openType? kind n = some r') :
    ∀ e ∈ r'.decls, Titled e := by
  obtain ⟨c, ho⟩ := openType?_opens hopen
  intro e he
  rw [ho.decls] at he
  rcases List.mem_append.mp he with hold | hlast
  · exact hs e hold
  · exact List.mem_singleton.mp hlast ▸ titled_of_type htype

mutual
theorem Titled.readMember : ∀ {n : Node} {r : Reader}, Tidy source n → Coherent source r →
    Unique r.decls → (∀ e ∈ r.decls, Titled e) → ∀ e ∈ (Reader.readMember n r).decls, Titled e
  | .mk k role e cs, r, hn, h, hu, hs => by
    unfold Reader.readMember
    dsimp only
    split
    · exact Titled.readCallable hs hu h hn (by simp [Node.kind])
    · exact Titled.readCallable hs hu h hn (by simp [Node.kind])
    · exact Titled.readCallable hs hu h hn (by simp [Node.kind])
    · exact Titled.readCallable hs hu h hn (by simp [Node.kind])
    · exact Titled.readField hs hu h hn
    · exact Titled.readConstant hs hu h hn (by simp [Node.kind])
    · exact Titled.readMembers hn.children h hu hs
    · exact (decls_propagate r _).symm ▸ hs
    · exact (decls_propagate r _).symm ▸ hs
    · split
      · rename_i kind hkind
        obtain ⟨htype, hk⟩ := typeKind?_isType hkind
        split
        · rename_i inner hopen
          exact Titled.readBody hn.children (h.openType? htype hn hk hopen)
            (hu.openType? h hn hk hopen) (Titled.openType? hs htype hopen)
        · exact hs
      · exact hs

theorem Titled.readMembers : ∀ {ns : List Node} {r : Reader}, (∀ n ∈ ns, Tidy source n) →
    Coherent source r → Unique r.decls → (∀ e ∈ r.decls, Titled e) →
      ∀ e ∈ (Reader.readMembers ns r).decls, Titled e
  | [], r, _, _, _, hs => by unfold Reader.readMembers; exact hs
  | n :: ns, r, hns, h, hu, hs => by
    unfold Reader.readMembers
    have hn := hns n List.mem_cons_self
    exact Titled.readMembers (fun m hm => hns m (List.mem_cons_of_mem _ hm)) (h.readMember hn)
      (hu.readMember hn h) (Titled.readMember hn h hu hs)

theorem Titled.readBody : ∀ {ns : List Node} {r : Reader}, (∀ n ∈ ns, Tidy source n) →
    Coherent source r → Unique r.decls → (∀ e ∈ r.decls, Titled e) →
      ∀ e ∈ (Reader.readBody ns r).decls, Titled e
  | [], r, _, _, _, hs => by unfold Reader.readBody; exact hs
  | .mk k role e inner :: ns, r, hns, h, hu, hs => by
    unfold Reader.readBody
    split
    · exact Titled.readMembers (hns _ List.mem_cons_self).children h hu hs
    · exact Titled.readBody (fun m hm => hns m (List.mem_cons_of_mem _ hm)) h hu hs
end

end Reader

/-- The fields and methods of a file are called by their names. -/
theorem SourceTree.titled (s : SourceTree) : ∀ e ∈ s.read.entries, Titled e.decl := by
  have h := Reader.Titled.readMembers s.topTypes_tidy (.start s) (.start s)
    (by simp [Reader.decls_start])
  exact fun e he => h e.decl (List.mem_map_of_mem he)

section

variable {sources : List SourceText} {catalog : Catalog} {owner : QName} {name : String}
  {kind : MemberKind} {d : Declaration}

/-- The table of a project made of these files. -/
def tableOf (sources : List SourceText) (catalog : Catalog) : Table :=
  Table.ofFiles (sources.map (·.read)) catalog

theorem titled_of_known (h : Known (tableOf sources catalog) d) : Titled d := by
  obtain ⟨f, hf, e, he, rfl⟩ := Table.declaration?_mem h
  obtain ⟨s, -, rfl⟩ := List.mem_map.mp hf
  exact s.parsed.titled e he

structure IsMember (owner : QName) (kind : MemberKind) (name : String) (d : Declaration) :
    Prop where
  parent : d.parent = some owner
  kind : d.kind = kind.kind
  name : d.name = name

theorem IsMember.calls (h : IsMember owner kind name d) (htitled : Titled d) :
    d.id = owner.member name ∨ kind = .method ∧ d.id = (owner.member name).methodAlias := by
  obtain ⟨p, hparent, -, hid⟩ := htitled kind h.kind
  rwa [Option.some.inj (hparent.symm.trans h.parent), h.name] at hid

theorem isMember_of_calls (hname : Word name) (hkind : d.kind = kind.kind)
    (hcalls : Calls owner name d.id) (htitled : Titled d) : IsMember owner kind name d := by
  obtain ⟨p, hparent, hword, hid⟩ := htitled kind hkind
  have hcalls' : Calls p d.name d.id := hid.imp_right And.right
  obtain rfl := (hcalls'.below hword.dotless).owner_eq (hcalls.below hname.dotless)
  exact ⟨hparent, hkind, hcalls'.name_eq hcalls hword.plain hname.plain⟩

theorem Titled.name_eq {e : Declaration} (hd : Titled d)
    (hplain : ∀ p : QName, d.id ≠ p.methodAlias) (he : Titled e) (hkind : d.kind = kind.kind)
    (hsame : e.kind = d.kind) (hid : e.id = d.id ∨ e.id = d.id.methodAlias) :
    e.name = d.name := by
  obtain ⟨p, -, hword, hname⟩ := hd kind hkind
  rw [hname.resolve_right fun halias => hplain _ halias.2] at hid
  exact (isMember_of_calls hword (hsame.trans hkind) hid he).name

theorem of_lookup {t : Table} {id : QName} (h : lookup t kind id = some d) :
    Known t d ∧ d.kind = kind.kind ∧ d.id = id := by
  obtain ⟨hd, hkind⟩ := Option.filter_eq_some_iff.mp h
  exact ⟨known_of_declaration? hd, beq_iff_eq.mp hkind, Table.declaration?_id hd⟩

theorem lookup_of_known {t : Table} (h : Known t d) (hkind : d.kind = kind.kind) :
    lookup t kind d.id = some d :=
  Option.filter_eq_some_iff.mpr ⟨h, beq_iff_eq.mpr hkind⟩

theorem declaredMember_isMember (hname : Word name)
    (h : declaredMember (tableOf sources catalog) owner name kind = some d) :
    IsMember owner kind name d := by
  have hfound : ∃ id, Calls owner name id ∧ lookup (tableOf sources catalog) kind id = some d := by
    cases kind with
    | field => exact ⟨_, Or.inl rfl, declaredMember_field _ _ _ ▸ h⟩
    | method =>
      rw [declaredMember_method, Option.or_eq_some_iff] at h
      rcases h with h | ⟨-, h⟩
      · exact ⟨_, Or.inl rfl, h⟩
      · exact ⟨_, Or.inr rfl, h⟩
  obtain ⟨id, hcalls, hlookup⟩ := hfound
  obtain ⟨hknown, hkind, rfl⟩ := of_lookup hlookup
  exact isMember_of_calls hname hkind hcalls (titled_of_known hknown)

theorem exists_declaredMember (hknown : Known (tableOf sources catalog) d)
    (h : IsMember owner kind name d) :
    ∃ m, declaredMember (tableOf sources catalog) owner name kind = some m := by
  have hlookup := lookup_of_known hknown h.kind
  rcases h.calls (titled_of_known hknown) with hplain | ⟨rfl, halias⟩
  · rw [hplain] at hlookup
    cases kind with
    | field => exact ⟨d, declaredMember_field _ _ _ ▸ hlookup⟩
    | method => exact ⟨d, by rw [declaredMember_method, hlookup, Option.some_or]⟩
  · rw [halias] at hlookup
    rw [declaredMember_method, hlookup]
    cases lookup (tableOf sources catalog) .method (owner.member name) with
    | none => exact ⟨d, rfl⟩
    | some m => exact ⟨m, rfl⟩

/-- The lookup finds a member of the name if there is one in the table. -/
theorem declaredMember_iff (hname : Word name) :
    (∃ m, declaredMember (tableOf sources catalog) owner name kind = some m) ↔
      ∃ d, Known (tableOf sources catalog) d ∧ IsMember owner kind name d := by
  constructor
  · rintro ⟨m, hm⟩
    exact ⟨m, declaredMember_known hm, declaredMember_isMember hname hm⟩
  · rintro ⟨d, hknown, h⟩
    exact exists_declaredMember hknown h

end

end Java

end Carve
