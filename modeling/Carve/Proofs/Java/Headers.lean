import Carve.Proofs.Java.Enclosure
import Carve.Proofs.Java.HeaderParts
import Carve.Proofs.Java.Members
import Carve.Proofs.Java.Origins

/-!
# Headers of types

The use sites in the header of a type are handed down to all that stands inside of it, while those
of what stands inside are handed up. What a header has to tell depends on the node of the type and
on the type parameters around it, and on nothing else that was read before.
-/

namespace Carve.Java

open QName

/-- The type parameters that the header of a type declares. -/
def Node.parameterNames (source : List Char) (n : Node) : List String :=
  match n.child? .typeParameters with
  | none => []
  | some params =>
    params.named.filterMap fun p =>
      (p.named.find? fun c => c.kind == .typeIdentifier || c.kind == .identifier).map
        (·.text source)

/-- The use sites in the header of a type inside of types with these type parameters. -/
def headingSites (source : List Char) (outer : List String) (n : Node) : List UseSite :=
  Reader.headerSites
    { source, path := ⟨""⟩, provenance := { module := "" }, package := none
      frames := [{ id := ⟨""⟩, index := 0, kind := .classType, header := [], params := outer }] } n

/-- Where a type was read from, and the type parameters of the types around it. -/
inductive Situated (s : SourceTree) : Entry → List String → Node → Prop
  | top {T : Entry} {n : Node} : T ∈ s.read.entries → T.decl.parent = none →
      InTree s.tree n → ReadFrom s.text.toList s.path T.decl n → Situated s T [] n
  | nested {P T : Entry} {outer : List String} {m n : Node} : Situated s P outer m →
      T ∈ s.read.entries → T.decl.parent = some P.decl.id → InTree s.tree n →
      ReadFrom s.text.toList s.path T.decl n →
      Situated s T (outer ++ m.parameterNames s.text.toList) n

theorem append_singleton_split {α : Type} {as before after : List α} {a b : α}
    (h : as ++ [a] = before ++ b :: after) :
    (before = as ∧ b = a) ∨ ∃ after', as = before ++ b :: after' := by
  rcases List.eq_nil_or_concat' after with rfl | ⟨after', last, rfl⟩
  · obtain ⟨rfl, hlast⟩ := List.append_inj' h rfl
    exact Or.inl ⟨rfl, (List.singleton_inj.mp hlast).symm⟩
  · rw [← List.cons_append, ← List.append_assoc] at h
    exact Or.inr ⟨after', (List.append_inj' h rfl).1⟩

structure Heading where
  node : Node
  outer : List String
  sites : List UseSite

namespace Reader

variable {source : List Char} {path : Path} {N : Node → Prop} {H : QName → Heading} {r r' : Reader}

theorem headerSites_eq (r : Reader) (n : Node) :
    r.headerSites n = headingSites r.source (r.frames.flatMap (·.params)) n := by
  unfold headingSites headerSites walk
  rw [List.flatMap_singleton]
  rfl

structure Heads (source : List Char) (path : Path) (N : Node → Prop) (H : QName → Heading)
    (T : Declaration) : Prop where
  node : N (H T.id).node
  read : ReadFrom source path T (H T.id).node
  top : T.parent = none → (H T.id).outer = []
  nested : ∀ p, T.parent = some p →
    (H T.id).outer = (H p).outer ++ (H p).node.parameterNames source
  down : ∀ p, T.parent = some p → (H p).sites ⊆ (H T.id).sites
  own : headingSites source (H T.id).outer (H T.id).node ⊆ (H T.id).sites

/-- Whatever stands in a type has the use sites of its header and of the headers around. -/
structure Headed (source : List Char) (path : Path) (N : Node → Prop) (H : QName → Heading)
    (r : Reader) : Prop where
  path_eq : r.path = path
  types : ∀ T ∈ r.entries, T.decl.kind.isType = true → Heads source path N H T.decl
  up : ∀ T ∈ r.entries, T.decl.kind.isType = true → (H T.decl.id).sites ⊆ T.sites
  members : ∀ D ∈ r.entries, ∀ p, D.decl.parent = some p → (H p).sites ⊆ D.sites
  params : ∀ before f after, r.frames = before ++ f :: after →
    (H f.id).outer ++ (H f.id).node.parameterNames source = (before ++ [f]).flatMap (·.params)
  sites : ∀ before f after, r.frames = before ++ f :: after →
    (H f.id).sites = (before ++ [f]).flatMap (·.header)

/-- The entry takes the place of another and has at least its use sites. -/
structure Betters (e e' : Entry) : Prop where
  kind : e'.decl.kind = e.decl.kind
  parent : e'.decl.parent = e.decl.parent
  type : e.decl.kind.isType = true → e'.decl = e.decl
  sites : e.sites ⊆ e'.sites

theorem Betters.refl (e : Entry) : Betters e e := ⟨rfl, rfl, fun _ => rfl, List.Subset.refl _⟩

theorem Betters.trans {e e' e'' : Entry} (h : Betters e e') (k : Betters e' e'') :
    Betters e e'' where
  kind := k.kind.trans h.kind
  parent := k.parent.trans h.parent
  type ht := (k.type (h.kind ▸ ht)).trans (h.type ht)
  sites := List.Subset.trans h.sites k.sites

def AllBetter (es es' : List Entry) : Prop := ∀ e' ∈ es', ∃ e ∈ es, Betters e e'

structure Aligned (es es' : List Entry) : Prop where
  length : es'.length = es.length
  entry : ∀ (i : Nat) (e : Entry), es[i]? = some e → ∃ e', es'[i]? = some e' ∧ Betters e e'

theorem Aligned.refl (es : List Entry) : Aligned es es := ⟨rfl, fun _ e he => ⟨e, he, .refl e⟩⟩

theorem Aligned.trans {es es' es'' : List Entry} (h : Aligned es es') (k : Aligned es' es'') :
    Aligned es es'' := by
  refine ⟨k.length.trans h.length, fun i e he => ?_⟩
  obtain ⟨e', he', hfirst⟩ := h.entry i e he
  obtain ⟨e'', he'', hlater⟩ := k.entry i e' he'
  exact ⟨e'', he'', hfirst.trans hlater⟩

theorem Aligned.allBetter {es es' : List Entry} (h : Aligned es es') : AllBetter es es' := by
  intro e' he'
  obtain ⟨i, hi⟩ := List.mem_iff_getElem?.mp he'
  have hlt : i < es.length := h.length ▸ (List.getElem?_eq_some_iff.mp hi).1
  obtain ⟨e₁, he₁, hbetter⟩ := h.entry i es[i] (List.getElem?_eq_getElem hlt)
  obtain rfl := Option.some.inj (hi.symm.trans he₁)
  exact ⟨es[i], List.getElem_mem hlt, hbetter⟩

theorem aligned_modify {es : List Entry} {i : Nat} {g : Entry → Entry}
    (hg : ∀ e, es[i]? = some e → Betters e (g e)) : Aligned es (es.modify i g) := by
  refine ⟨List.length_modify .., fun j e he => ?_⟩
  by_cases hij : i = j
  · exact ⟨g e, by simp [he, hij], hg e (hij ▸ he)⟩
  · exact ⟨e, by simp [he, hij], .refl e⟩

theorem aligned_propagate (r : Reader) (sites : List UseSite) :
    Aligned r.entries (r.propagate sites).entries := by
  unfold propagate
  dsimp only
  generalize r.frames = fs
  generalize r.entries = es
  induction fs generalizing es with
  | nil => exact .refl es
  | cons f fs ih =>
    refine Aligned.trans (aligned_modify fun e _ => ?_) (ih _)
    exact ⟨rfl, rfl, fun _ => rfl, List.subset_append_left _ _⟩

theorem aligned_settleName (r : Reader) (d : Declaration) :
    Aligned r.entries (r.settleName d).1.entries := by
  unfold settleName
  split
  · exact .refl _
  split
  · exact .refl _
  rename_i existing hexisting
  split
  · exact .refl _
  split
  · rename_i hmethod
    obtain ⟨-, hmethod⟩ := Bool.and_eq_true_iff.mp hmethod
    refine aligned_modify fun e he => ⟨rfl, rfl, fun htype => ?_, List.Subset.refl _⟩
    rw [he] at hexisting
    have hkind : e.decl.kind = .method :=
      (Option.some.inj hexisting).trans (beq_iff_eq.mp hmethod)
    rw [hkind] at htype
    cases htype
  · exact .refl _

/-- A member comes last or makes one there is an overload. -/
theorem addMember_better (r : Reader) {d : Declaration} (hmember : d.kind.isType = false)
    (own : List UseSite) :
    ∃ es, Aligned (r.propagate own).entries es ∧ ((r.addMember d own).entries = es ∨
      ∃ d', d'.parent = d.parent ∧ d'.kind = d.kind ∧
        (r.addMember d own).entries = es ++ [{ decl := d', sites := r.inherited ++ own }]) := by
  have hframes : ((r.propagate own).settleName d).1.frames = r.frames := by
    obtain ⟨es, hes⟩ := settleName_eq (r.propagate own) d
    rw [hes]
    rfl
  have hsettled := aligned_settleName (r.propagate own) d
  have hkind : ((r.propagate own).settleName d).2.kind = d.kind ∧
      ((r.propagate own).settleName d).2.parent = d.parent := by
    unfold settleName
    repeat' split
    all_goals exact ⟨rfl, rfl⟩
  unfold Reader.addMember
  dsimp only
  generalize (r.propagate own).settleName d = settled at hsettled hkind hframes
  obtain ⟨r₁, d'⟩ := settled
  dsimp only at hsettled hkind hframes ⊢
  split
  · rename_i i hi
    split
    · rename_i hsame
      obtain ⟨e, he, -⟩ := indexOf?_some hi
      rw [he] at hsame
      have hekind : e.decl.kind = d.kind :=
        (Option.some.inj (beq_iff_eq.mp hsame)).trans hkind.1
      have hbetter : ∀ g : Entry → Entry, (∀ a, (g a).decl.kind = a.decl.kind ∧
          (g a).decl.parent = a.decl.parent ∧ a.sites ⊆ (g a).sites) →
          Aligned r₁.entries (r₁.entries.modify i g) := by
        intro g hg
        refine aligned_modify fun a ha => ?_
        obtain rfl := Option.some.inj (he.symm.trans ha)
        refine ⟨(hg e).1, (hg e).2.1, fun htype => ?_, (hg e).2.2⟩
        rw [hekind, hmember] at htype
        cases htype
      split
      · exact ⟨_, hsettled.trans (hbetter (addOverload _ own) fun a =>
          ⟨rfl, rfl, List.subset_append_left _ _⟩), Or.inl rfl⟩
      · exact ⟨_, hsettled.trans (hbetter (addSites own) fun a =>
          ⟨rfl, rfl, List.subset_append_left _ _⟩), Or.inl rfl⟩
    · exact ⟨_, hsettled, Or.inl rfl⟩
  · refine ⟨_, hsettled, Or.inr ⟨d', hkind.2, hkind.1, ?_⟩⟩
    unfold inherited
    rw [hframes]

theorem Headed.inherited (h : Headed source path N H r) {f : TypeFrame}
    (hf : r.owner? = some f) : (H f.id).sites = r.inherited := by
  obtain ⟨before, hbefore⟩ := List.getLast?_eq_some_iff.mp hf
  rw [h.sites before f [] hbefore, Reader.inherited, hbefore]

theorem Headed.better (h : Headed source path N H r) {es : List Entry}
    (hes : AllBetter r.entries es) : Headed source path N H { r with entries := es } where
  path_eq := h.path_eq
  types T hT htype := by
    obtain ⟨T₀, hT₀, hbetter⟩ := hes T hT
    rw [hbetter.kind] at htype
    exact hbetter.type htype ▸ h.types T₀ hT₀ htype
  up T hT htype := by
    obtain ⟨T₀, hT₀, hbetter⟩ := hes T hT
    rw [hbetter.kind] at htype
    rw [hbetter.type htype]
    exact List.Subset.trans (h.up T₀ hT₀ htype) hbetter.sites
  members D hD p hparent := by
    obtain ⟨D₀, hD₀, hbetter⟩ := hes D hD
    exact List.Subset.trans (h.members D₀ hD₀ p (hbetter.parent ▸ hparent)) hbetter.sites
  params := h.params
  sites := h.sites

theorem Headed.propagate (h : Headed source path N H r) (sites : List UseSite) :
    Headed source path N H (r.propagate sites) := h.better (aligned_propagate r sites).allBetter

theorem Headed.addMember (h : Headed source path N H r) {f : TypeFrame} (hf : r.owner? = some f)
    {d : Declaration} (hmember : d.kind.isType = false) (hparent : d.parent = some f.id)
    (own : List UseSite) : Headed source path N H (r.addMember d own) := by
  obtain ⟨es, hes⟩ := addMember_eq r d own
  obtain ⟨old, haligned, hcases⟩ := addMember_better r hmember own
  have hold : AllBetter r.entries old := ((aligned_propagate r own).trans haligned).allBetter
  have hentries : (r.addMember d own).entries = es := by rw [hes]
  rw [hes]
  rcases hcases with hsame | ⟨d', hparent', hkind', hnew⟩
  · rw [← hentries, hsame]
    exact h.better hold
  · rw [← hentries, hnew]
    have hbetter := h.better hold
    have hnotype : d'.kind.isType = false := hkind' ▸ hmember
    refine ⟨h.path_eq, fun T hT htype => ?_, fun T hT htype => ?_, fun D hD p hp => ?_, h.params,
      h.sites⟩
    · rcases List.mem_append.mp hT with hT | hT
      · exact hbetter.types T hT htype
      · rw [List.mem_singleton.mp hT, hnotype] at htype
        cases htype
    · rcases List.mem_append.mp hT with hT | hT
      · exact hbetter.up T hT htype
      · rw [List.mem_singleton.mp hT, hnotype] at htype
        cases htype
    · rcases List.mem_append.mp hD with hD | hD
      · exact hbetter.members D hD p hp
      · obtain rfl := List.mem_singleton.mp hD
        have hp : d'.parent = some p := hp
        obtain rfl := Option.some.inj (hparent.symm.trans (hparent'.symm.trans hp))
        rw [h.inherited hf]
        exact List.subset_append_left _ _

theorem Headed.addDeclaration (h : Headed source path N H r) {f : TypeFrame}
    (hf : r.owner? = some f) (id : QName) (name : String) {kind : Declaration.Kind}
    (hmember : kind.isType = false) (n : Node) (outline : Outline) (own : List UseSite) :
    Headed source path N H (r.addMember (r.declaration id name kind n outline) own) :=
  h.addMember hf hmember (by simp [declaration, hf]) own

theorem Headed.readCallable (h : Headed source path N H r) {kind : Declaration.Kind}
    (hmember : kind.isType = false) (n : Node) :
    Headed source path N H (r.readCallable kind n) := by
  unfold Reader.readCallable
  split
  · exact h
  rename_i f hf
  dsimp only
  split
  · exact h
  · exact h.addDeclaration hf _ _ hmember n _ _

theorem Headed.readDeclarators {n : Node} {count : Nat} {f : TypeFrame} (ds : List Node) :
    ∀ {r : Reader}, Headed source path N H r → r.owner? = some f →
      Headed source path N H (ds.foldl (Reader.readDeclarator n count f.id) r) := by
  induction ds with
  | nil => exact fun h _ => h
  | cons d ds ih =>
    intro r h hf
    have hstep : Headed source path N H (Reader.readDeclarator n count f.id r d) ∧
        (Reader.readDeclarator n count f.id r d).owner? = some f := by
      unfold Reader.readDeclarator
      split
      · exact ⟨h, hf⟩
      · have hfield : Declaration.Kind.field.isType = false := rfl
        refine ⟨h.addDeclaration hf _ _ hfield n _ _, ?_⟩
        unfold owner?
        rw [addMember_frames]
        exact hf
    exact ih hstep.1 hstep.2

theorem Headed.readField (h : Headed source path N H r) (n : Node) :
    Headed source path N H (r.readField n) := by
  unfold Reader.readField
  split
  · exact h
  · rename_i f hf
    exact Headed.readDeclarators _ h hf

theorem Headed.readConstant (h : Headed source path N H r) (n : Node) :
    Headed source path N H (r.readConstant n) := by
  unfold Reader.readConstant
  split
  · rename_i f nameNode hf _
    split
    · exact h.addDeclaration hf _ _ rfl n _ _
    · exact h
  · exact h

theorem Headed.closeType (h : Headed source path N H r) :
    Headed source path N H r.closeType := by
  have hframes : ∀ before f after, r.closeType.frames = before ++ f :: after →
      ∃ after', r.frames = before ++ f :: after' := by
    intro before f after hsplit
    have hsplit : r.frames.dropLast = before ++ f :: after := hsplit
    have hne : r.frames ≠ [] := by
      intro hnil
      rw [hnil] at hsplit
      simp at hsplit
    have hlast := List.dropLast_append_getLast hne
    rw [hsplit, List.append_assoc, List.cons_append] at hlast
    exact ⟨_, hlast.symm⟩
  refine ⟨h.path_eq, h.types, h.up, h.members, fun before f after hsplit => ?_,
    fun before f after hsplit => ?_⟩
  · obtain ⟨after', hwhole⟩ := hframes before f after hsplit
    exact h.params before f after' hwhole
  · obtain ⟨after', hwhole⟩ := hframes before f after hsplit
    exact h.sites before f after' hwhole

theorem Heads.update {T : Declaration} (h : Heads source path N H T) {id : QName}
    (new : Heading) (hid : T.id ≠ id) (hparent : ∀ p, T.parent = some p → p ≠ id) :
    Heads source path N (Function.update H id new) T := by
  have hself : Function.update H id new T.id = H T.id := Function.update_of_ne hid _ _
  have hup : ∀ p, T.parent = some p → Function.update H id new p = H p := fun p hp =>
    Function.update_of_ne (hparent p hp) _ _
  constructor
  case node => rw [hself]; exact h.node
  case read => rw [hself]; exact h.read
  case top => rw [hself]; exact h.top
  case nested => intro p hp; rw [hself, hup p hp]; exact h.nested p hp
  case down => intro p hp; rw [hself, hup p hp]; exact h.down p hp
  case own => rw [hself]; exact h.own

def newHeading (r : Reader) (n : Node) : Heading :=
  ⟨n, r.frames.flatMap (·.params), r.inherited ++ r.headerSites n⟩

theorem Headed.heads_new (h : Headed source path N H r) (hsource : r.source = source)
    {n c : Node} (hn : N n) {kind : Declaration.Kind} (hkind : typeKind? n.kind = some kind)
    (hname : n.child? .name = some c) (hframes : ∀ f ∈ r.frames, f.id ≠ r.typeId (r.text c)) :
    Heads source path N (Function.update H (r.typeId (r.text c)) (r.newHeading n))
      (r.typeDeclaration kind n c) := by
  obtain rfl := hsource
  have hself : Function.update H (r.typeId (r.text c)) (r.newHeading n)
      (r.typeDeclaration kind n c).id = r.newHeading n := Function.update_self _ _ _
  have howner : ∀ p, (r.typeDeclaration kind n c).parent = some p →
      ∃ f, r.owner? = some f ∧ f.id = p ∧
        Function.update H (r.typeId (r.text c)) (r.newHeading n) p = H p := by
    intro p hp
    obtain ⟨f, hf, rfl⟩ := Option.map_eq_some_iff.mp hp
    exact ⟨f, hf, rfl, Function.update_of_ne (hframes f (List.mem_of_getLast? hf)) _ _⟩
  constructor
  case node => rwa [hself]
  case read =>
    rw [hself]
    exact readFrom_typeDeclaration rfl h.path_eq hkind hname
  case top =>
    intro hnone
    have hnil : r.frames = [] := List.getLast?_eq_none_iff.mp (Option.map_eq_none_iff.mp hnone)
    rw [hself, newHeading, hnil]
    rfl
  case nested =>
    intro p hp
    obtain ⟨f, hf, rfl, hold⟩ := howner p hp
    obtain ⟨before, hbefore⟩ := List.getLast?_eq_some_iff.mp hf
    rw [hself, hold, h.params before f [] hbefore, newHeading, hbefore]
  case down =>
    intro p hp
    obtain ⟨f, hf, rfl, hold⟩ := howner p hp
    rw [hself, hold, h.inherited hf]
    exact List.subset_append_left _ _
  case own =>
    rw [hself, newHeading, ← headerSites_eq]
    exact List.subset_append_right _ _

theorem Headed.push (h : Headed source path N H r) (hc : Coherent source r) {n c : Node}
    (hn : N n) {kind : Declaration.Kind} (hkind : typeKind? n.kind = some kind)
    (hname : n.child? .name = some c) (hfree : ∀ e ∈ r.entries, e.decl.id ≠ r.typeId (r.text c))
    (supertypes : List String) (topLevel : List QName) {es : List Entry}
    (hes : AllBetter r.entries es) (index : Nat) :
    Headed source path N (Function.update H (r.typeId (r.text c)) (r.newHeading n))
      { r with
        entries := es ++
          [{ decl := r.typeDeclaration kind n c, supertypes
             sites := r.inherited ++ r.headerSites n }]
        topLevel
        frames := r.frames ++ [⟨r.typeId (r.text c), index, kind, r.headerSites n,
          r.typeParameterNames n⟩] } := by
  have hbetter := h.better hes
  have hparents : ∀ e ∈ es, ∀ p, e.decl.parent = some p → p ≠ r.typeId (r.text c) := by
    intro e he p hp
    obtain ⟨e₀, he₀, hold⟩ := hes e he
    obtain ⟨T, hT, -, rfl⟩ := hc.parents e₀ he₀ p (hold.parent ▸ hp)
    exact hfree T hT
  have hframes : ∀ f ∈ r.frames, f.id ≠ r.typeId (r.text c) := by
    intro f hf
    obtain ⟨k, hk⟩ := List.mem_iff_getElem?.mp hf
    obtain ⟨e, he, hid, -⟩ := hc.framed k f hk
    exact hid ▸ hfree e (List.mem_of_getElem? he)
  have htypes : ∀ T ∈ es, T.decl.kind.isType = true → T.decl.id ≠ r.typeId (r.text c) := by
    intro T hT htype
    obtain ⟨T₀, hT₀, hold⟩ := hes T hT
    rw [hold.kind] at htype
    exact hold.type htype ▸ hfree T₀ hT₀
  have hnew := h.heads_new hc.source_eq hn hkind hname hframes
  have hself : Function.update H (r.typeId (r.text c)) (r.newHeading n) (r.typeId (r.text c)) =
      r.newHeading n := Function.update_self _ _ _
  constructor
  case path_eq => exact h.path_eq
  case types =>
    intro T hT htype
    rcases List.mem_append.mp hT with hT | hT
    · exact (hbetter.types T hT htype).update _ (htypes T hT htype) (hparents T hT)
    · exact List.mem_singleton.mp hT ▸ hnew
  case up =>
    intro T hT htype
    rcases List.mem_append.mp hT with hT | hT
    · rw [Function.update_of_ne (htypes T hT htype)]
      exact hbetter.up T hT htype
    · rw [List.mem_singleton.mp hT]
      show (Function.update H _ _ (r.typeId (r.text c))).sites ⊆ _
      rw [hself]
      exact List.Subset.refl _
  case members =>
    intro D hD p hp
    rcases List.mem_append.mp hD with hD | hD
    · rw [Function.update_of_ne (hparents D hD p hp)]
      exact hbetter.members D hD p hp
    · obtain rfl := List.mem_singleton.mp hD
      refine List.Subset.trans (hnew.down p hp) ?_
      show (Function.update H _ _ (r.typeId (r.text c))).sites ⊆ _
      rw [hself]
      exact List.Subset.refl _
  case params =>
    intro before f after hsplit
    rcases append_singleton_split hsplit with ⟨rfl, rfl⟩ | ⟨after', hold⟩
    · rw [hself, List.flatMap_append, List.flatMap_singleton, ← hc.source_eq]
      rfl
    · rw [Function.update_of_ne (hframes f (hold ▸ by simp))]
      exact h.params before f after' hold
  case sites =>
    intro before f after hsplit
    rcases append_singleton_split hsplit with ⟨rfl, rfl⟩ | ⟨after', hold⟩
    · rw [hself, List.flatMap_append, List.flatMap_singleton]
      rfl
    · rw [Function.update_of_ne (hframes f (hold ▸ by simp))]
      exact h.sites before f after' hold

theorem Headed.openType? (h : Headed source path N H r) (hc : Coherent source r)
    {kind : Declaration.Kind} {n : Node} (hn : N n) (hkind : typeKind? n.kind = some kind)
    (hopen : r.openType? kind n = some r') : ∃ H', Headed source path N H' r' := by
  unfold Reader.openType? at hopen
  obtain ⟨c, hname, hopen⟩ := Option.bind_eq_some_iff.mp hopen
  dsimp only at hopen
  split at hopen
  · cases hopen
  rename_i hfree
  have hfree : ∀ e ∈ r.entries, e.decl.id ≠ r.typeId (r.text c) :=
    indexOf?_none (by simpa using hfree)
  obtain rfl := Option.some.inj hopen
  exact ⟨_, h.push hc hn hkind hname hfree _ _ (aligned_propagate r _).allBetter _⟩

mutual
theorem Headed.readMember (hN : ∀ n, N n → ∀ c ∈ n.children, N c) : ∀ {n : Node} {r : Reader}
    {H : QName → Heading}, Tidy source n → N n → Coherent source r → Headed source path N H r →
    ∃ H', Headed source path N H' (Reader.readMember n r)
  | .mk k role e cs, r, H, htidy, hn, hc, h => by
    unfold Reader.readMember
    dsimp only
    split
    · exact ⟨H, h.readCallable rfl _⟩
    · exact ⟨H, h.readCallable rfl _⟩
    · exact ⟨H, h.readCallable rfl _⟩
    · exact ⟨H, h.readCallable rfl _⟩
    · exact ⟨H, h.readField _⟩
    · exact ⟨H, h.readConstant _⟩
    · exact Headed.readMembers hN htidy.children (hN _ hn) hc h
    · exact ⟨H, h.propagate _⟩
    · exact ⟨H, h.propagate _⟩
    · split
      · rename_i kind hkind
        obtain ⟨htype, hk⟩ := typeKind?_isType hkind
        split
        · rename_i inner hopen
          obtain ⟨H', h'⟩ := h.openType? hc hn hkind hopen
          obtain ⟨H'', h''⟩ := Headed.readBody hN htidy.children (hN _ hn)
            (hc.openType? htype htidy hk hopen) h'
          exact ⟨H'', h''.closeType⟩
        · exact ⟨H, h⟩
      · exact ⟨H, h⟩

theorem Headed.readMembers (hN : ∀ n, N n → ∀ c ∈ n.children, N c) : ∀ {ns : List Node}
    {r : Reader} {H : QName → Heading}, (∀ n ∈ ns, Tidy source n) → (∀ n ∈ ns, N n) →
    Coherent source r → Headed source path N H r →
    ∃ H', Headed source path N H' (Reader.readMembers ns r)
  | [], r, H, _, _, _, h => by unfold Reader.readMembers; exact ⟨H, h⟩
  | n :: ns, r, H, htidy, hns, hc, h => by
    unfold Reader.readMembers
    have hn := htidy n List.mem_cons_self
    obtain ⟨H', h'⟩ := Headed.readMember hN hn (hns n List.mem_cons_self) hc h
    exact Headed.readMembers hN (fun m hm => htidy m (List.mem_cons_of_mem _ hm))
      (fun m hm => hns m (List.mem_cons_of_mem _ hm)) (hc.readMember hn) h'

theorem Headed.readBody (hN : ∀ n, N n → ∀ c ∈ n.children, N c) : ∀ {ns : List Node}
    {r : Reader} {H : QName → Heading}, (∀ n ∈ ns, Tidy source n) → (∀ n ∈ ns, N n) →
    Coherent source r → Headed source path N H r →
    ∃ H', Headed source path N H' (Reader.readBody ns r)
  | [], r, H, _, _, _, h => by unfold Reader.readBody; exact ⟨H, h⟩
  | .mk k role e inner :: ns, r, H, htidy, hns, hc, h => by
    unfold Reader.readBody
    split
    · exact Headed.readMembers hN (htidy _ List.mem_cons_self).children
        (hN _ (hns _ List.mem_cons_self)) hc h
    · exact Headed.readBody hN (fun m hm => htidy m (List.mem_cons_of_mem _ hm))
        (fun m hm => hns m (List.mem_cons_of_mem _ hm)) hc h
end

end Reader

/-- Every type of a file has a heading. -/
theorem SourceTree.headed (s : SourceTree) : ∃ H : QName → Heading,
    (∀ T ∈ s.read.entries, T.decl.kind.isType = true →
      Reader.Heads s.text.toList s.path (InTree s.tree) H T.decl ∧
      (H T.decl.id).sites ⊆ T.sites) ∧
    ∀ D ∈ s.read.entries, ∀ p, D.decl.parent = some p → (H p).sites ⊆ D.sites := by
  have hstart : Reader.Headed s.text.toList s.path (InTree s.tree)
      (fun _ => ⟨default, [], []⟩) s.start := by
    constructor <;> simp [SourceTree.start, Reader.start]
  obtain ⟨H, h⟩ := Reader.Headed.readMembers (fun _ hn => Node.nodesIn_closed hn) s.topTypes_tidy
    s.topTypes_inTree (.start s) hstart
  exact ⟨H, fun T hT htype => ⟨h.types T hT htype, h.up T hT htype⟩, h.members⟩

section

variable {s : SourceTree} {H : QName → Heading} {T D : Entry}

theorem situated_of_heads (hH : ∀ T ∈ s.read.entries, T.decl.kind.isType = true →
      Reader.Heads s.text.toList s.path (InTree s.tree) H T.decl) :
    ∀ T ∈ s.read.entries, T.decl.kind.isType = true →
      Situated s T (H T.decl.id).outer (H T.decl.id).node := by
  have hconsistent := s.consistent
  intro T
  induction hlen : T.decl.id.text.length using Nat.strongRecOn generalizing T with
  | ind n ih =>
    intro hT htype
    have hheads := hH T hT htype
    cases hparent : T.decl.parent with
    | none =>
      rw [hheads.top hparent]
      exact .top hT hparent hheads.node hheads.read
    | some p =>
      obtain ⟨P, hP, hPtype, rfl⟩ := hconsistent.parents T hT p hparent
      have hlt := length_of_below (hconsistent.named T hT _ hparent)
      rw [hheads.nested _ hparent]
      exact .nested (ih _ (hlen ▸ hlt) P rfl hP hPtype) hT hparent hheads.node hheads.read

theorem headings_grow (hH : ∀ T ∈ s.read.entries, T.decl.kind.isType = true →
      Reader.Heads s.text.toList s.path (InTree s.tree) H T.decl)
    (h : Encloses s.read T D) (htype : D.decl.kind.isType = true) :
    (H T.decl.id).sites ⊆ (H D.decl.id).sites := by
  induction h with
  | member hD hparent => exact (hH _ hD htype).down _ hparent
  | nested _ hM hD hparent ih => exact List.Subset.trans (ih hM) ((hH _ hD htype).down _ hparent)

end

theorem mem_headingSites {source : List Char} {outer : List String} {n : Node} {site : UseSite}
    (h : HeaderSite source (outer ++ n.parameterNames source) n site) :
    site ∈ headingSites source outer n := by
  refine mem_headerSites _ ?_
  unfold Reader.walk
  rw [List.flatMap_singleton]
  exact h

/-- All use sites of what stands in a type are among those of the type, and all use sites in the
header of a type are among those of the type and of what stands in it. -/
theorem sites_go_up_and_headers_down (s : SourceTree) (T : Entry) (hT : T ∈ s.read.entries)
    (htype : T.decl.kind.isType = true) :
    (∀ D, Encloses s.read T D → D.sites ⊆ T.sites) ∧
      ∃ outer n, Situated s T outer n ∧
        (∀ site, HeaderSite s.text.toList (outer ++ n.parameterNames s.text.toList) n site →
          site ∈ headingSites s.text.toList outer n) ∧
        headingSites s.text.toList outer n ⊆ T.sites ∧
        ∀ D, Encloses s.read T D → headingSites s.text.toList outer n ⊆ D.sites := by
  have hconsistent := s.consistent
  obtain ⟨H, htypes, hmembers⟩ := s.headed
  obtain ⟨hheads, hup⟩ := htypes T hT htype
  have hH := fun T hT htype => (htypes T hT htype).1
  refine ⟨fun D hD => hD.sites_subset hconsistent hT htype, _, _, situated_of_heads hH T hT htype,
    fun _ => mem_headingSites, List.Subset.trans hheads.own hup,
    fun D hD => List.Subset.trans hheads.own ?_⟩
  cases hD with
  | member hD hparent => exact hmembers D hD _ hparent
  | nested hM hMtype hD hparent =>
    exact List.Subset.trans (headings_grow hH hM hMtype) (hmembers D hD _ hparent)

def shop : SourceText :=
  { path := ⟨"p/Shop.java"⟩
    text := "package p; @Open class Shop<G extends Goods> extends House \x7b int price; " ++
      "int price() \x7b return rate(); \x7d int price(int n) \x7b return n; \x7d " ++
      "enum Size implements Named \x7b SMALL(unit()) \x7d \x7d"
    provenance := { module := "m" } }

/-- A constant of an enum in a class has the headers of both types, and the class has the call that
the constant makes. -/
theorem shop_sites_go_up_and_headers_down :
    ∃ T ∈ shop.read.entries, T.decl.kind.isType = true ∧
      T.sites.map (·.kind) = [.annotationUse, .typeUse, .supertype, .call, .supertype, .call] ∧
      ∃ D, Encloses shop.read T D ∧ D.decl.id = ⟨"p.Shop.Size.SMALL"⟩ ∧
        D.sites.map (·.kind) = [.annotationUse, .typeUse, .supertype, .supertype, .call] ∧
        D.sites ⊆ T.sites ∧
        ∃ n, Situated shop.parsed T [] n ∧ headingSites shop.text.toList [] n ⊆ D.sites := by
  have hentries : ∃ T ∈ shop.read.entries, T.decl.kind.isType = true ∧ T.decl.parent = none ∧
      T.sites.map (·.kind) = [.annotationUse, .typeUse, .supertype, .call, .supertype, .call] ∧
      ∃ M ∈ shop.read.entries, M.decl.kind.isType = true ∧ M.decl.parent = some T.decl.id ∧
      ∃ D ∈ shop.read.entries, D.decl.parent = some M.decl.id ∧
        D.decl.id = ⟨"p.Shop.Size.SMALL"⟩ ∧
        D.sites.map (·.kind) = [.annotationUse, .typeUse, .supertype, .supertype, .call] := by
    decide +kernel
  obtain ⟨T, hT, htype, htop, hTkinds, M, hM, hMtype, hMparent, D, hD, hDparent, hid, hkinds⟩ :=
    hentries
  have hencloses : Encloses shop.read T D :=
    .nested (.member hM hMparent) hMtype hD hDparent
  obtain ⟨hup, outer, n, hsituated, -, -, hdown⟩ :=
    sites_go_up_and_headers_down shop.parsed T hT htype
  have houter : outer = [] := by
    cases hsituated with
    | top => rfl
    | nested _ _ hparent => rw [htop] at hparent; cases hparent
  subst houter
  exact ⟨T, hT, htype, hTkinds, D, hencloses, hid, hkinds, hup D hencloses, n, hsituated,
    hdown D hencloses⟩

end Carve.Java
