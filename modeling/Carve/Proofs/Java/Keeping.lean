import Carve.Proofs.Java.Headers

/-!
# What reading keeps

A type that is declared stays declared and only gains use sites, and a name that a field or method
has taken never goes to a type. Reading a part of a body takes no names but those that the part
brings: of its fields, its methods and its types, and whatever lies inside of these.
-/

namespace Carve.Java

open QName

namespace Node

mutual
def parts : Node → List Node
  | .mk k role e cs => if k = .enumMembers then partsIn cs else [.mk k role e cs]

def partsIn : List Node → List Node
  | [] => []
  | n :: ns => n.parts ++ partsIn ns
end

/-- The parts in the body of a type, in source order. -/
def bodyParts (n : Node) : List Node :=
  match n.child? .body with
  | some b => partsIn b.children
  | none => []

section

variable (source : List Char) (owner : Declaration.Kind) (hidden : List String)

/-- The name that a node declares a type by. -/
def typeName? (n : Node) : Option String :=
  if (typeKind? n.kind).isSome then (n.child? .name).map (·.text source) else none

def callableUses (n : Node) : List UseSite :=
  (callableWalk source n { hidden := hidden ++ n.parameterNames source }).sites

/-- The constructors, methods and fields that a part brings to a type of this kind, each with the
use sites in it. -/
def plainMembers (n : Node) : List (String × List UseSite) :=
  match n.kind with
  | .methodDeclaration | .elementDeclaration =>
    ((n.child? .name).map fun c => (c.text source, n.callableUses source hidden)).toList
  | .ctorDeclaration | .compactCtorDeclaration => [(ctorName, n.callableUses source hidden)]
  | .fieldDeclaration =>
    (n.childrenIn .declarator).filterMap fun d =>
      (d.child? .name).map fun c => (c.text source, (fieldWalk source n d { hidden }).sites)
  | .enumConstant =>
    if owner == .enumType then
      ((n.child? .name).map fun c =>
        (c.text source, (constantWalk source n { hidden }).sites)).toList
    else []
  | _ => []

def plainNames (n : Node) : List String := (n.plainMembers source owner []).map (·.1)

/-- The use sites in a part that is no member. -/
def looseUses (n : Node) : List UseSite :=
  match n.kind with
  | .staticInitializer | .block => (visit source n { hidden }).sites
  | _ => []

end

theorem names_plainMembers (source : List Char) (owner : Declaration.Kind) (hidden : List String)
    (n : Node) : (n.plainMembers source owner hidden).map (·.1) = n.plainNames source owner := by
  have hfields : ∀ (hidden : List String) (ds : List Node), (ds.filterMap fun d =>
      (d.child? .name).map fun c => (c.text source, (fieldWalk source n d { hidden }).sites)).map
        (·.1) = ds.filterMap fun d => (d.child? .name).map (·.text source) := by
    intro hidden ds
    rw [List.map_filterMap]
    simp only [Option.map_map]
    rfl
  unfold plainNames plainMembers
  split
  · cases n.child? .name <;> rfl
  · cases n.child? .name <;> rfl
  · rfl
  · rfl
  · rw [hfields, hfields]
  · split
    · cases n.child? .name <;> rfl
    · rfl
  · rfl

end Node

namespace Reader

variable {s : SourceTree} {source : List Char} {r r' r'' : Reader} {o q : QName} {f : TypeFrame}
  {n c : Node} {kind : Declaration.Kind} {ds ds' : List Declaration} {d : Declaration} {b : Bool}

/-! ### Parts in the order of reading -/

def readParts (r : Reader) (ms : List Node) : Reader := ms.foldl (fun r m => readMember m r) r

theorem readParts_append (r : Reader) (before after : List Node) :
    r.readParts (before ++ after) = (r.readParts before).readParts after := List.foldl_append

mutual
theorem readMember_eq : ∀ (n : Node) (r : Reader), r.readParts n.parts = readMember n r
  | .mk k role e cs, r => by
    unfold Node.parts
    split
    · rename_i hk
      subst hk
      rw [readMembers_eq cs r]
      unfold readMember
      rfl
    · rfl

theorem readMembers_eq : ∀ (ns : List Node) (r : Reader),
    r.readParts (Node.partsIn ns) = readMembers ns r
  | [], r => by
    unfold readMembers
    rfl
  | n :: ns, r => by
    unfold Node.partsIn readMembers
    rw [readParts_append, readMember_eq n r, readMembers_eq ns]
end

theorem readBody_eq (k : Kind) (role : Option Role) (e : Extent) (cs : List Node) (r : Reader) :
    r.readParts (Node.mk k role e cs).bodyParts = readBody cs r := by
  induction cs with
  | nil =>
    unfold readBody
    rfl
  | cons n cs ih =>
    obtain ⟨k', role', e', inner⟩ := n
    unfold readBody
    split
    · rename_i hrole
      have hbody : (Node.mk k role e (.mk k' role' e' inner :: cs)).bodyParts =
          Node.partsIn inner := by
        simp [Node.bodyParts, Node.child?, Node.children, Node.role, hrole]
      rw [hbody, readMembers_eq]
    · rename_i hrole
      have hbody : (Node.mk k role e (.mk k' role' e' inner :: cs)).bodyParts =
          (Node.mk k role e cs).bodyParts := by
        simp [Node.bodyParts, Node.child?, Node.children, Node.role, hrole]
      rw [hbody, ih]

theorem readMember_type (hkind : typeKind? n.kind = some kind) (r : Reader) :
    readMember n r =
      match r.openType? kind n with
      | some inner => (inner.readParts n.bodyParts).closeType
      | none => r := by
  obtain ⟨k, role, e, cs⟩ := n
  have hkind : typeKind? k = some kind := hkind
  simp only [readBody_eq]
  unfold readMember
  unfold typeKind? at hkind
  split at hkind
  all_goals cases hkind
  all_goals rfl

/-! ### Names that are taken -/

def IsPlain (q : QName) : Prop := ∀ p : QName, q ≠ p.methodAlias

/-- There is a declaration of this name, which is a type or is none. -/
def Has (ds : List Declaration) (q : QName) (type : Bool) : Prop :=
  ∃ d ∈ ds, d.id = q ∧ d.kind.isType = type

theorem Has.append (h : Has ds q b) (d : Declaration) : Has (ds ++ [d]) q b := by
  obtain ⟨e, he, hrest⟩ := h
  exact ⟨e, List.mem_append_left _ he, hrest⟩

theorem has_concat : Has (ds ++ [d]) q b ↔ Has ds q b ∨ (d.id = q ∧ d.kind.isType = b) := by
  unfold Has
  simp only [List.mem_append, List.mem_singleton, or_and_right, exists_or, exists_eq_left]

theorem has_withOverload {i : Nat} {layout : Layout} :
    Has (ds.modify i (.withOverload layout)) q b ↔ Has ds q b := by
  constructor
  · rintro ⟨e, he, heq, htype⟩
    obtain ⟨j, hj⟩ := List.mem_iff_getElem?.mp he
    obtain ⟨e₀, he₀, ⟨-, rfl⟩ | ⟨-, rfl⟩⟩ := getElem?_modify_cases hj
    · exact ⟨e₀, List.mem_of_getElem? he₀, heq, htype⟩
    · exact ⟨e, List.mem_of_getElem? he₀, heq, htype⟩
  · rintro ⟨e, he, heq, htype⟩
    rcases mem_modify_of_mem (i := i) (g := .withOverload layout) he with hmem | hmem
    · exact ⟨_, hmem, heq, htype⟩
    · exact ⟨e, hmem, heq, htype⟩

theorem Unique.has_one (hu : Unique ds) (h : Has ds q true) (k : Has ds q false) : False := by
  obtain ⟨d, hd, hid, htype⟩ := h
  obtain ⟨e, he, hid', hplain⟩ := k
  obtain ⟨i, hi⟩ := List.mem_iff_getElem?.mp hd
  obtain ⟨j, hj⟩ := List.mem_iff_getElem?.mp he
  obtain rfl := hu.ids i j d e hi hj (hid.trans hid'.symm)
  obtain rfl := Option.some.inj (hi.symm.trans hj)
  rw [htype] at hplain
  cases hplain

theorem has_of_added (ha : Added ds d ds') (hmember : d.kind.isType = false) (hq : IsPlain q)
    (h : Has ds' q b) : Has ds q b ∨ (q = d.id ∧ b = false) := by
  cases ha with
  | passedOver => exact .inl h
  | unplaced => exact .inl h
  | new =>
    refine (has_concat.mp h).imp_right ?_
    rintro ⟨rfl, rfl⟩
    exact ⟨rfl, hmember⟩
  | aside =>
    refine (has_concat.mp h).imp_right ?_
    rintro ⟨rfl, -⟩
    exact absurd rfl (hq d.id)
  | @ahead i e he hid hkind _ =>
    rcases has_concat.mp h with ⟨m, hm, rfl, htype⟩ | ⟨rfl, rfl⟩
    · rcases of_mem_modify he hm with rfl | hmem
      · exact absurd rfl (hq d.id)
      · exact .inl ⟨m, hmem, rfl, htype⟩
    · exact .inr ⟨rfl, hmember⟩
  | overload => exact .inl (has_withOverload.mp h)

theorem Has.added (h : Has ds q false) (ha : Added ds d ds') (hmember : d.kind.isType = false) :
    Has ds' q false := by
  cases ha with
  | passedOver => exact h
  | unplaced => exact h
  | new => exact h.append _
  | aside => exact h.append _
  | @ahead i e he hid hkind _ =>
    obtain ⟨m, hm, rfl, htype⟩ := h
    by_cases hsame : m = e
    · exact has_concat.mpr (.inr ⟨by rw [hsame, hid], hmember⟩)
    · exact Has.append ⟨m, mem_modify_of_ne he hm hsame, rfl, htype⟩ _
  | overload => exact has_withOverload.mpr h

theorem has_added (ha : Added ds d ds') (hu : Unique ds) (hmember : d.kind.isType = false)
    (hplace : d.location ≠ none) : Has ds d.id true ∨ Has ds' d.id false := by
  have hold : ∀ e ∈ ds, e.id = d.id → Has ds d.id true ∨ Has ds d.id false := by
    intro e he hid
    cases htype : e.kind.isType with
    | true => exact .inl ⟨e, he, hid, htype⟩
    | false => exact .inr ⟨e, he, hid, htype⟩
  have halias : ∀ e ∈ ds, e.id = d.id ∨ e.id = d.id.methodAlias →
      Has ds d.id true ∨ Has ds d.id false := by
    rintro e he (hid | hid)
    · exact hold e he hid
    · obtain ⟨e', he', hid', -⟩ := hu.aliases e he d.id hid
      exact hold e' he' hid'
  cases ha with
  | passedOver he hcases _ => exact halias _ he (hcases.imp And.left And.left)
  | unplaced hnone => exact absurd hnone hplace
  | new => exact .inr (has_concat.mpr (.inr ⟨rfl, hmember⟩))
  | aside _ he hid => exact (hold _ he hid).imp_right fun h => h.append _
  | ahead => exact .inr (has_concat.mpr (.inr ⟨rfl, hmember⟩))
  | overload he hcases _ _ =>
    exact (halias _ (List.mem_of_getElem? he) hcases).imp_right has_withOverload.mpr

/-! ### Steps of reading -/

structure Grows (r r' : Reader) : Prop where
  entries : ∀ (i : Nat) (e : Entry), r.entries[i]? = some e →
    ∃ e', r'.entries[i]? = some e' ∧ Betters e e'
  taken : ∀ q, Has r.decls q false → Has r'.decls q false

theorem Grows.refl (r : Reader) : Grows r r := ⟨fun _ e he => ⟨e, he, .refl e⟩, fun _ h => h⟩

theorem Grows.trans (h : Grows r r') (k : Grows r' r'') : Grows r r'' := by
  refine ⟨fun i e he => ?_, fun q hq => k.taken q (h.taken q hq)⟩
  obtain ⟨e', he', hfirst⟩ := h.entries i e he
  obtain ⟨e'', he'', hlater⟩ := k.entries i e' he'
  exact ⟨e'', he'', hfirst.trans hlater⟩

/-- The frames stand for types among the entries, and no name is given twice. -/
structure Steady (s : SourceTree) (r : Reader) : Prop where
  source_eq : r.source = s.text.toList
  path_eq : r.path = s.path
  package_eq : r.package = s.read.imports.package
  unique : Unique r.decls
  framed : ∀ f ∈ r.frames, ∃ e, r.entries[f.index]? = some e ∧ e.decl.id = f.id ∧
    e.decl.kind.isType = true

theorem Steady.grows (h : Steady s r) (hsame : ∃ es, r' = { r with entries := es })
    (hunique : Unique r'.decls) (hgrows : Grows r r') : Steady s r' := by
  obtain ⟨es, rfl⟩ := hsame
  refine ⟨h.source_eq, h.path_eq, h.package_eq, hunique, fun f hf => ?_⟩
  obtain ⟨e, he, hid, htype⟩ := h.framed f hf
  obtain ⟨e', he', hbetter⟩ := hgrows.entries f.index e he
  exact ⟨e', he', hbetter.type htype ▸ hid, hbetter.kind ▸ htype⟩

theorem Carries.grows {sites : List UseSite} (hcarries : Carries r sites) (h : Steady s r)
    (hframes : r'.frames = r.frames) (hgrows : Grows r r') : Carries r' sites := by
  intro f hf e' he'
  rw [hframes] at hf
  obtain ⟨e, he, -⟩ := h.framed f hf
  obtain ⟨e₁, he₁, hbetter⟩ := hgrows.entries f.index e he
  obtain rfl := Option.some.inj (he'.symm.trans he₁)
  exact List.Subset.trans (hcarries f hf e he) hbetter.sites

/-- The reader is where it was, and no names but these have been taken. -/
structure Passes (s : SourceTree) (new : QName → Bool → Prop) (r r' : Reader) : Prop where
  steady : Steady s r'
  frames : r'.frames = r.frames
  grows : Grows r r'
  inside : ∀ q b, IsPlain q → Has r'.decls q b → Has r.decls q b ∨ new q b

section

variable {new new' : QName → Bool → Prop}

theorem Steady.stay (h : Steady s r) : Passes s new r r :=
  ⟨h, rfl, .refl r, fun _ _ _ hq => .inl hq⟩

theorem Passes.mono (h : Passes s new r r') (hnew : ∀ q b, new q b → new' q b) :
    Passes s new' r r' :=
  ⟨h.steady, h.frames, h.grows, fun q b hq hhas =>
    (h.inside q b hq hhas).imp_right (hnew q b)⟩

theorem Passes.trans (h : Passes s new r r') (k : Passes s new r' r'') :
    Passes s new r r'' :=
  ⟨k.steady, k.frames.trans h.frames, h.grows.trans k.grows,
    fun q b hq hhas => (k.inside q b hq hhas).elim (h.inside q b hq) .inr⟩

theorem Passes.owner? (h : Passes s new r r') : r'.owner? = r.owner? := by
  unfold Reader.owner?
  rw [h.frames]

end

theorem grows_propagate (r : Reader) (sites : List UseSite) : Grows r (r.propagate sites) :=
  ⟨(aligned_propagate r sites).entry, fun _ hq => (decls_propagate r sites).symm ▸ hq⟩

theorem Steady.propagate (h : Steady s r) (sites : List UseSite)
    {new : QName → Bool → Prop} : Passes s new r (r.propagate sites) := by
  have hdecls := decls_propagate r sites
  have hgrows := grows_propagate r sites
  exact ⟨h.grows ⟨_, rfl⟩ (hdecls.symm ▸ h.unique) hgrows, rfl, hgrows,
    fun q b _ hq => .inl (hdecls ▸ hq)⟩

theorem entries_addMember (hmember : d.kind.isType = false) (own : List UseSite) (i : Nat)
    (e : Entry) (he : (r.propagate own).entries[i]? = some e) :
    ∃ e', (r.addMember d own).entries[i]? = some e' ∧ Betters e e' := by
  obtain ⟨es, haligned, hcases⟩ := addMember_better r hmember own
  obtain ⟨e', he', hbetter⟩ := haligned.entry i e he
  rcases hcases with hsame | ⟨d', -, -, hnew⟩
  · exact ⟨e', hsame ▸ he', hbetter⟩
  · exact ⟨e', hnew ▸ getElem?_concat_old he', hbetter⟩

theorem carries_addMember (h : Steady s r) (hmember : d.kind.isType = false)
    (own : List UseSite) : Carries (r.addMember d own) own := by
  intro f hf e' he'
  rw [addMember_frames] at hf
  have hpassed : Passes s (fun _ _ => False) r (r.propagate own) := h.propagate own
  obtain ⟨e, he, -⟩ := hpassed.steady.framed f hf
  obtain ⟨e₁, he₁, hbetter⟩ := entries_addMember hmember own f.index e he
  obtain rfl := Option.some.inj (he'.symm.trans he₁)
  exact List.Subset.trans (carries_propagate r own f hf e he) hbetter.sites

theorem Steady.addMember (h : Steady s r) (hplain : IsPlain d.id)
    (hmember : d.kind.isType = false) (own : List UseSite) :
    Passes s (fun q b => q = d.id ∧ b = false) r (r.addMember d own) := by
  have hadded := addMember_added r d own h.unique
  have hgrows : Grows r (r.addMember d own) := by
    refine ⟨fun i e he => ?_, fun q hq => hq.added hadded hmember⟩
    obtain ⟨e', he', hfirst⟩ := (aligned_propagate r own).entry i e he
    obtain ⟨e'', he'', hlater⟩ := entries_addMember hmember own i e' he'
    exact ⟨e'', he'', hfirst.trans hlater⟩
  exact ⟨h.grows (addMember_eq r d own) (h.unique.addMember own hplain) hgrows,
    addMember_frames d own, hgrows, fun q b hq hhas => has_of_added hadded hmember hq hhas⟩

/-! ### Members -/

def Segment (x : String) : Prop := '.' ∉ x.toList ∧ ')' ∉ x.toList

theorem segment_ctorName : Segment ctorName := by
  unfold Segment
  decide

theorem segment_name (hn : Tidy source n) (hk : n.kind ≠ .annotationMark)
    (hc : n.child? .name = some c) : Segment (c.text source) := by
  have hword : Word (c.text source) := hn.plain hk hc
  exact ⟨hword.dotless, hword.plain⟩

/-- Members of these names and with these use sites are added to a type, one after another. -/
inductive Adds (o : QName) : List (String × List UseSite) → Reader → Reader → Prop where
  | nil (r : Reader) : Adds o [] r r
  | cons {r r' : Reader} {d : Declaration} {x : String} {own : List UseSite}
      {items : List (String × List UseSite)} : d.id = o.member x → Segment x →
      d.kind.isType = false → d.location ≠ none → Adds o items (r.addMember d own) r' →
      Adds o ((x, own) :: items) r r'

section

variable {items : List (String × List UseSite)}

theorem Adds.passes (ha : Adds o items r r') (h : Steady s r) :
    Passes s (fun q b => b = false ∧ ∃ x ∈ items, Segment x.1 ∧ q = o.member x.1) r r' := by
  induction ha with
  | nil => exact h.stay
  | @cons r r' d x own items hid hx hmember _ _ ih =>
    have hfirst := h.addMember (hid ▸ member_ne_alias hx.2) hmember own
    refine (hfirst.mono ?_).trans ((ih hfirst.steady).mono ?_)
    · rintro q b ⟨rfl, rfl⟩
      exact ⟨rfl, _, List.mem_cons_self, hx, hid⟩
    · rintro q b ⟨rfl, y, hy, hrest⟩
      exact ⟨rfl, y, List.mem_cons_of_mem _ hy, hrest⟩

theorem Adds.takes (ha : Adds o items r r') (h : Steady s r) :
    ∀ x ∈ items, Has r.decls (o.member x.1) true ∨ Has r'.decls (o.member x.1) false := by
  induction ha with
  | nil => exact fun _ hx => absurd hx List.not_mem_nil
  | @cons r r' d x own items hid hx hmember hplace hrest ih =>
    have hfirst := h.addMember (hid ▸ member_ne_alias hx.2) hmember own
    have hadded := addMember_added r d own h.unique
    have hlater := hrest.passes hfirst.steady
    rintro y hy
    rcases List.mem_cons.mp hy with rfl | hy
    · have htaken := has_added hadded h.unique hmember hplace
      rw [hid] at htaken
      exact htaken.imp_right (hlater.grows.taken _)
    · rcases ih hfirst.steady y hy with htype | hmember'
      · obtain ⟨e, he, heid, hetype⟩ := htype
        exact .inl ⟨e, type_of_added hmember hadded e he hetype, heid, hetype⟩
      · exact .inr hmember'

theorem Adds.carries (ha : Adds o items r r') (h : Steady s r) :
    ∀ x ∈ items, Carries r' x.2 := by
  induction ha with
  | nil => exact fun _ hx => absurd hx List.not_mem_nil
  | @cons r r' d x own items hid hx hmember _ hrest ih =>
    have hfirst := h.addMember (hid ▸ member_ne_alias hx.2) hmember own
    have hlater := hrest.passes hfirst.steady
    rintro y hy
    rcases List.mem_cons.mp hy with rfl | hy
    · exact (carries_addMember h hmember own).grows hfirst.steady hlater.frames hlater.grows
    · exact ih hfirst.steady y hy

theorem adds_declaration (r : Reader) {x : String} (hx : Segment x) (name : String)
    (hmember : kind.isType = false) (n : Node) (outline : Outline) (own : List UseSite) :
    Adds o [(x, own)] r (r.addMember (r.declaration (o.member x) name kind n outline) own) :=
  .cons rfl hx hmember (by simp [declaration]) (.nil _)

theorem adds_readMethod (hsource : r.source = source) (hn : Tidy source n)
    (hk : n.kind ≠ .annotationMark) (hf : r.owner? = some f) :
    Adds f.id ((n.child? .name).map fun c => (c.text source,
      n.callableUses source (r.frames.flatMap (·.params)))).toList r
        (r.readCallable .method n) := by
  subst hsource
  unfold Reader.readCallable
  rw [hf]
  cases hc : n.child? .name with
  | none => exact .nil r
  | some c => exact adds_declaration r (segment_name hn hk hc) _ rfl n _ _

theorem adds_readCtor (hsource : r.source = source) (n : Node) (hf : r.owner? = some f) :
    Adds f.id [(ctorName, n.callableUses source (r.frames.flatMap (·.params)))] r
      (r.readCallable .ctor n) := by
  subst hsource
  unfold Reader.readCallable
  rw [hf]
  exact adds_declaration r segment_ctorName _ rfl n _ _

theorem adds_readDeclarators (n : Node) (count : Nat) (ds : List Node) :
    ∀ {r : Reader}, r.source = source →
      (∀ d ∈ ds, Tidy source d ∧ d.kind = .variableDeclarator) →
      Adds o (ds.filterMap fun d => (d.child? .name).map fun c => (c.text source,
        (fieldWalk source n d { hidden := r.frames.flatMap (·.params) }).sites)) r
        (ds.foldl (readDeclarator n count o) r) := by
  induction ds with
  | nil => exact fun _ _ => .nil _
  | cons d ds ih =>
    intro r hsource hds
    obtain ⟨hd, hk⟩ := hds d List.mem_cons_self
    have hrest := fun {r : Reader} (hsource : r.source = source) =>
      ih hsource fun d' hd' => hds d' (List.mem_cons_of_mem _ hd')
    rw [List.foldl_cons]
    cases hc : d.child? .name with
    | none =>
      have hidle : readDeclarator n count o r d = r := by simp [readDeclarator, hc]
      rw [hidle, List.filterMap_cons_none (by simp [hc])]
      exact hrest hsource
    | some c =>
      have hread : ∃ decl, readDeclarator n count o r d = r.addMember decl
          (fieldWalk source n d { hidden := r.frames.flatMap (·.params) }).sites ∧
          decl.id = o.member (c.text source) ∧ decl.kind = .field ∧ decl.location ≠ none := by
        subst hsource
        unfold readDeclarator
        rw [hc]
        dsimp only
        unfold Reader.walk
        rw [List.append_nil]
        exact ⟨_, rfl, rfl, rfl, by simp [declaration]⟩
      obtain ⟨decl, hread, hid, hkind, hplace⟩ := hread
      obtain ⟨es, hes⟩ := addMember_eq r decl
        (fieldWalk source n d { hidden := r.frames.flatMap (·.params) }).sites
      rw [hread, List.filterMap_cons]
      simp only [hc, Option.map_some]
      have hlater := hrest (r := r.addMember decl _) (by rw [hes]; exact hsource)
      rw [addMember_frames] at hlater
      exact .cons hid (segment_name hd (by simp [hk]) hc) (by rw [hkind]; rfl) hplace hlater

theorem adds_readField (hsource : r.source = source) (hn : Tidy source n)
    (hf : r.owner? = some f) :
    Adds f.id ((n.childrenIn .declarator).filterMap fun d => (d.child? .name).map fun c =>
      (c.text source, (fieldWalk source n d { hidden := r.frames.flatMap (·.params) }).sites)) r
        (r.readField n) := by
  unfold Reader.readField
  rw [hf]
  exact adds_readDeclarators n _ _ hsource fun d hd => hn.declarator hd

theorem adds_readConstant (hsource : r.source = source) (hn : Tidy source n)
    (hk : n.kind ≠ .annotationMark) (hf : r.owner? = some f) :
    Adds f.id (if f.kind == .enumType then ((n.child? .name).map fun c => (c.text source,
      (constantWalk source n { hidden := r.frames.flatMap (·.params) }).sites)).toList else []) r
        (r.readConstant n) := by
  subst hsource
  unfold Reader.readConstant
  rw [hf]
  cases hc : n.child? .name with
  | none =>
    split
    · exact .nil r
    · exact .nil r
  | some c =>
    dsimp only
    split
    · unfold Reader.walk
      rw [List.append_nil]
      exact adds_declaration r (segment_name hn hk hc) _ rfl n _ _
    · exact .nil r

/-- A part that is no type adds members, or hands its use sites up. -/
theorem readMember_part (hsource : r.source = source) (hn : Tidy source n)
    (hk : n.kind ≠ .enumMembers) (hkind : typeKind? n.kind = none) (hf : r.owner? = some f) :
    (Adds f.id (n.plainMembers source f.kind (r.frames.flatMap (·.params))) r (readMember n r) ∧
        n.looseUses source (r.frames.flatMap (·.params)) = []) ∨
      (n.plainMembers source f.kind (r.frames.flatMap (·.params)) = [] ∧
        readMember n r = r.propagate (n.looseUses source (r.frames.flatMap (·.params)))) := by
  have hloose : r.readInitializer n =
      r.propagate (visit source n { hidden := r.frames.flatMap (·.params) }).sites := by
    unfold Reader.readInitializer Reader.walk
    rw [List.append_nil, hsource]
  obtain ⟨k, role, e, cs⟩ := n
  unfold Reader.readMember
  dsimp only
  split
  · exact .inl ⟨adds_readMethod hsource hn (by simp [Node.kind]) hf, rfl⟩
  · exact .inl ⟨adds_readMethod hsource hn (by simp [Node.kind]) hf, rfl⟩
  · exact .inl ⟨adds_readCtor hsource _ hf, rfl⟩
  · exact .inl ⟨adds_readCtor hsource _ hf, rfl⟩
  · exact .inl ⟨adds_readField hsource hn hf, rfl⟩
  · exact .inl ⟨adds_readConstant hsource hn (by simp [Node.kind]) hf, rfl⟩
  · exact absurd rfl hk
  · exact .inr ⟨rfl, hloose⟩
  · exact .inr ⟨rfl, hloose⟩
  · have hkind : typeKind? k = none := hkind
    rw [hkind]
    unfold Node.plainMembers Node.looseUses
    dsimp only [Node.kind]
    split
    all_goals first
      | contradiction
      | exact .inl ⟨.nil r, by split <;> first | contradiction | rfl⟩

end

/-! ### Types -/

structure Enters (s : SourceTree) (kind : Declaration.Kind) (n c : Node) (r inner : Reader) :
    Prop where
  steady : Steady s inner
  grows : Grows r inner
  frames : inner.frames = r.frames ++ [⟨r.typeId (r.text c), r.entries.length, kind,
    r.headerSites n, r.typeParameterNames n⟩]
  free : ∀ b, ¬ Has r.decls (r.typeId (r.text c)) b
  inside : ∀ q b, Has inner.decls q b →
    Has r.decls q b ∨ (q = r.typeId (r.text c) ∧ b = true)
  declared : ∃ e, inner.entries[r.entries.length]? = some e ∧ e.decl = r.typeDeclaration kind n c
  carries : Carries inner (r.headerSites n)

theorem Steady.openType? (h : Steady s r) (hn : Tidy s.text.toList n)
    (hkind : typeKind? n.kind = some kind) (hc : n.child? .name = some c) {inner : Reader}
    (hopen : r.openType? kind n = some inner) : Enters s kind n c r inner := by
  obtain ⟨htype, hk⟩ := typeKind?_isType hkind
  obtain ⟨c', ho⟩ := openType?_opens hopen
  obtain rfl := Option.some.inj (hc.symm.trans ho.name)
  have hplain : ')' ∉ (r.text c).toList := by
    rw [Reader.text, h.source_eq]
    exact (segment_name hn hk hc).2
  have hunique : Unique inner.decls := by
    rw [ho.decls]
    exact h.unique.append ho.free fun p hp => absurd hp (typeId_ne_alias r hplain p)
  unfold Reader.openType? at hopen
  rw [hc, Option.bind_eq_bind, Option.bind_some] at hopen
  dsimp only at hopen
  split at hopen
  · cases hopen
  have haligned := aligned_propagate r (r.headerSites n)
  obtain rfl := Option.some.inj hopen
  have hgrows : Grows r _ := ⟨fun i e he => by
      obtain ⟨e', he', hbetter⟩ := haligned.entry i e he
      exact ⟨e', getElem?_concat_old he', hbetter⟩,
    fun q hq => ho.decls ▸ hq.append (r.typeDeclaration kind n c)⟩
  have hlast : ∀ e, ((r.propagate (r.headerSites n)).entries ++ [e])[r.entries.length]? =
      some e := by
    intro e
    rw [← haligned.length, List.getElem?_concat_length]
  refine ⟨⟨h.source_eq, h.path_eq, h.package_eq, hunique, ?_⟩, hgrows, rfl, ?_, ?_,
    ⟨_, hlast _, rfl⟩, ?_⟩
  · intro f hf
    rcases List.mem_append.mp hf with hold | hnew
    · obtain ⟨e, he, hid, hetype⟩ := h.framed f hold
      obtain ⟨e', he', hbetter⟩ := hgrows.entries f.index e he
      exact ⟨e', he', hbetter.type hetype ▸ hid, hbetter.kind ▸ hetype⟩
    · obtain rfl := List.mem_singleton.mp hnew
      exact ⟨_, hlast _, rfl, htype⟩
  · rintro b ⟨d, hd, hid, -⟩
    exact ho.free d hd hid
  · intro q b hq
    rw [ho.decls] at hq
    refine (has_concat.mp hq).imp_right ?_
    rintro ⟨rfl, rfl⟩
    exact ⟨rfl, htype⟩
  · intro f hf e he
    rcases List.mem_append.mp hf with hold | hnew
    · obtain ⟨e₀, he₀, -⟩ := h.framed f hold
      obtain ⟨e₁, he₁, -⟩ := haligned.entry f.index e₀ he₀
      obtain rfl := Option.some.inj (he.symm.trans (getElem?_concat_old he₁))
      exact carries_propagate r _ f hold e he₁
    · obtain rfl := List.mem_singleton.mp hnew
      obtain rfl := Option.some.inj ((hlast _).symm.trans he)
      exact List.subset_append_right _ _

/-- A type is passed over only if its name is taken. -/
theorem openType?_isSome (hc : n.child? .name = some c)
    (hfree : ∀ b, ¬ Has r.decls (r.typeId (r.text c)) b) : (r.openType? kind n).isSome := by
  have hnone : r.indexOf? (r.typeId (r.text c)) = none := by
    refine List.findIdx?_eq_none_iff.mpr fun e he => beq_eq_false_iff_ne.mpr fun hid => ?_
    exact hfree _ ⟨e.decl, List.mem_map_of_mem he, hid, rfl⟩
  unfold Reader.openType?
  rw [hc, Option.bind_eq_bind, Option.bind_some]
  dsimp only
  rw [hnone]
  rfl

def TypeNames (source : List Char) (r : Reader) (n : Node) (q : QName) (b : Bool) : Prop :=
  ∃ x, n.typeName? source = some x ∧ Segment x ∧
    (q = r.typeId x ∧ b = true ∨ isWithin q (r.typeId x) = true)

theorem Enters.closes {inner r' : Reader} (he : Enters s kind n c r inner)
    (hbody : Passes s (fun q _ => isWithin q (r.typeId (r.text c)) = true) inner r') :
    Passes s (fun q b => q = r.typeId (r.text c) ∧ b = true ∨
      isWithin q (r.typeId (r.text c)) = true) r r'.closeType := by
  have hframes : r'.frames.dropLast = r.frames := by
    rw [hbody.frames, he.frames, List.dropLast_concat]
  have hsteady := hbody.steady
  refine ⟨⟨hsteady.source_eq, hsteady.path_eq, hsteady.package_eq, hsteady.unique,
    fun f hf => hsteady.framed f ((List.dropLast_sublist _).subset hf)⟩, hframes,
    he.grows.trans ⟨hbody.grows.entries, hbody.grows.taken⟩, fun q b hq hhas => ?_⟩
  rcases hbody.inside q b hq hhas with hold | hwithin
  · exact (he.inside q b hold).imp_right .inl
  · exact .inr (.inr hwithin)

theorem Steady.readType (h : Steady s r) (hn : Tidy s.text.toList n)
    (hkind : typeKind? n.kind = some kind)
    (hread : ∀ {inner : Reader} {f : TypeFrame}, Steady s inner → inner.owner? = some f →
      Passes s (fun q _ => isWithin q f.id = true) inner (inner.readParts n.bodyParts)) :
    Passes s (TypeNames s.text.toList r n) r (readMember n r) := by
  rw [readMember_type hkind]
  split
  · rename_i inner hopen
    obtain ⟨c, ho⟩ := openType?_opens hopen
    have he := h.openType? hn hkind ho.name hopen
    have howner : inner.owner? = some ⟨r.typeId (r.text c), r.entries.length, kind,
        r.headerSites n, r.typeParameterNames n⟩ := by
      rw [Reader.owner?, he.frames, List.getLast?_concat]
    have htext : c.text s.text.toList = r.text c := by rw [Reader.text, h.source_eq]
    refine (he.closes (hread he.steady howner)).mono fun q b hnew => ⟨r.text c, ?_, ?_, hnew⟩
    · simp [Node.typeName?, hkind, ho.name, htext]
    · exact htext ▸ segment_name hn (typeKind?_isType hkind).2 ho.name
  · exact h.stay

mutual
/-- In the body of a type no names are taken but those inside of the type. -/
theorem Steady.readMember : ∀ {n : Node} {r : Reader} {f : TypeFrame}, Tidy s.text.toList n →
    Steady s r → r.owner? = some f →
    Passes s (fun q _ => isWithin q f.id = true) r (Reader.readMember n r)
  | .mk k role e cs, r, f, hn, h, hf => by
    cases hkind : typeKind? k with
    | some kind =>
      have htype : Passes s (TypeNames s.text.toList r (.mk k role e cs)) r
          (Reader.readMember (.mk k role e cs) r) := by
        refine h.readType hn hkind fun hinner hf' => ?_
        rw [readBody_eq]
        exact Steady.readBody hn.children hinner hf'
      refine htype.mono ?_
      rintro q b ⟨x, -, -, hq⟩
      rw [typeId_of_owner hf] at hq
      rcases hq with ⟨rfl, -⟩ | hwithin
      · exact isWithin_member f.id x
      · exact isWithin_trans hwithin (isWithin_member f.id x)
    | none =>
      by_cases hk : k = .enumMembers
      · subst hk
        unfold Reader.readMember
        exact Steady.readMembers hn.children h hf
      · rcases readMember_part h.source_eq hn hk hkind hf with ⟨hadds, -⟩ | ⟨-, hread⟩
        · refine (hadds.passes h).mono ?_
          rintro q b ⟨-, x, -, -, rfl⟩
          exact isWithin_member f.id x.1
        · rw [hread]
          exact h.propagate _

theorem Steady.readMembers : ∀ {ns : List Node} {r : Reader} {f : TypeFrame},
    (∀ n ∈ ns, Tidy s.text.toList n) → Steady s r → r.owner? = some f →
    Passes s (fun q _ => isWithin q f.id = true) r (Reader.readMembers ns r)
  | [], r, f, _, h, _ => by
    unfold Reader.readMembers
    exact h.stay
  | n :: ns, r, f, hns, h, hf => by
    unfold Reader.readMembers
    have hfirst := Steady.readMember (hns n List.mem_cons_self) h hf
    exact hfirst.trans (Steady.readMembers (fun m hm => hns m (List.mem_cons_of_mem _ hm))
      hfirst.steady (hfirst.owner?.trans hf))

theorem Steady.readBody : ∀ {ns : List Node} {r : Reader} {f : TypeFrame},
    (∀ n ∈ ns, Tidy s.text.toList n) → Steady s r → r.owner? = some f →
    Passes s (fun q _ => isWithin q f.id = true) r (Reader.readBody ns r)
  | [], r, f, _, h, _ => by
    unfold Reader.readBody
    exact h.stay
  | .mk k role e inner :: ns, r, f, hns, h, hf => by
    unfold Reader.readBody
    split
    · exact Steady.readMembers (hns _ List.mem_cons_self).children h hf
    · exact Steady.readBody (fun m hm => hns m (List.mem_cons_of_mem _ hm)) h hf
end

end Reader

end Carve.Java
