import Carve.Proofs.Java.Keeping

/-!
# Types inside of types

A type takes one name with all that it declares. A member type is read if none of its name comes
before it: a field, a constant or a method of that name that comes later leaves it alone, one that
comes earlier takes its place, and nothing inside of a type that is passed over is read. Where no
body declares two types of one name, that is the only way to lose a type.
-/

namespace Carve.Java

open QName

namespace Node

/-- The use sites that a part of a body brings by itself. -/
def uses (source : List Char) (owner : Declaration.Kind) (hidden : List String) (n : Node) :
    List UseSite :=
  (n.plainMembers source owner hidden).flatMap (·.2) ++ n.looseUses source hidden

mutual
theorem mem_parts : ∀ {n m : Node}, m ∈ n.parts → m ∈ n.nodes ∧ m.kind ≠ .enumMembers
  | .mk k role e cs, m, hm => by
    unfold parts at hm
    unfold nodes
    split at hm
    · exact (mem_partsIn hm).imp_left (List.mem_cons_of_mem _)
    · rename_i hk
      obtain rfl := List.mem_singleton.mp hm
      exact ⟨List.mem_cons_self, hk⟩

theorem mem_partsIn : ∀ {ns : List Node} {m : Node}, m ∈ partsIn ns →
    m ∈ nodesIn ns ∧ m.kind ≠ .enumMembers
  | [], m, hm => by cases hm
  | n :: ns, m, hm => by
    unfold partsIn at hm
    unfold nodesIn
    rcases List.mem_append.mp hm with hm | hm
    · exact (mem_parts hm).imp_left (List.mem_append_left _)
    · exact (mem_partsIn hm).imp_left (List.mem_append_right _)
end

theorem mem_bodyParts {n m : Node} (hm : m ∈ n.bodyParts) :
    ∃ b ∈ n.children, m ∈ nodesIn b.children ∧ m.kind ≠ .enumMembers := by
  unfold bodyParts at hm
  split at hm
  · rename_i b hb
    exact ⟨b, List.mem_of_find?_eq_some hb, mem_partsIn hm⟩
  · cases hm

theorem plainMembers_type (source : List Char) (owner : Declaration.Kind) (hidden : List String)
    {n : Node} (h : (typeKind? n.kind).isSome) :
    n.plainMembers source owner hidden = [] ∧ n.looseUses source hidden = [] := by
  unfold plainMembers looseUses
  generalize n.kind = k at h
  cases k
  all_goals first | exact ⟨rfl, rfl⟩ | cases h

theorem typeName?_some {source : List Char} {n : Node} {x : String}
    (h : n.typeName? source = some x) :
    ∃ kind c, typeKind? n.kind = some kind ∧ n.child? .name = some c ∧ c.text source = x := by
  unfold typeName? at h
  split at h
  · rename_i hkind
    obtain ⟨kind, hkind⟩ := Option.isSome_iff_exists.mp hkind
    obtain ⟨c, hc, hx⟩ := Option.map_eq_some_iff.mp h
    exact ⟨kind, c, hkind, hc, hx⟩
  · cases h

end Node

theorem InTree.bodyPart {source : List Char} {t : Tree source} {n m : Node} (h : InTree t n)
    (hm : m ∈ n.bodyParts) : InTree t m := by
  have hdown : ∀ n, InTree t n → ∀ c ∈ n.children, InTree t c := fun _ hn =>
    Node.nodesIn_closed hn
  obtain ⟨b, hb, hm, -⟩ := Node.mem_bodyParts hm
  exact Node.of_mem_nodesIn hdown (hdown b (hdown n h b hb)) hm

namespace Reader

variable {s : SourceTree} {source : List Char} {new : QName → Bool → Prop} {r r' : Reader}
  {q : QName} {f : TypeFrame} {n m c : Node} {ms before after : List Node}
  {kind : Declaration.Kind} {x y : String} {b : Bool}

/-! ### Names side by side -/

/-- The name, or one inside of it. -/
def Under (q outer : QName) : Prop := q = outer ∨ isWithin q outer = true

def Vacant (ds : List Declaration) (outer : QName) : Prop :=
  ∀ q b, IsPlain q → Under q outer → ¬ Has ds q b

/-- The last segment of a name is what stands up to the next dot in all names under it. -/
theorem Under.segment {outer : QName} {front : List Char} (h : Under q outer)
    (houter : outer.text.toList = front ++ x.toList) (hx : Segment x) :
    (q.text.toList.drop front.length).takeWhile (· != '.') = x.toList := by
  have hall : ∀ c ∈ x.toList, (c != '.') = true := by
    intro c hc
    rw [bne_iff_ne]
    rintro rfl
    exact hx.1 hc
  have hrest : ∃ rest, q.text.toList = front ++ (x.toList ++ rest) ∧
      rest.takeWhile (· != '.') = [] := by
    rcases h with rfl | hwithin
    · exact ⟨[], by rw [houter, List.append_nil], rfl⟩
    · obtain ⟨rest, hrest⟩ := isWithin_iff.mp hwithin
      exact ⟨'.' :: rest, by rw [hrest, houter, List.append_assoc], rfl⟩
  obtain ⟨rest, hrest, hstop⟩ := hrest
  rw [hrest, List.drop_left, List.takeWhile_append_of_pos hall, hstop, List.append_nil]

theorem typeId_text (r : Reader) :
    ∃ front : List Char, ∀ x, (r.typeId x).text.toList = front ++ x.toList := by
  unfold typeId
  split
  · rename_i o _
    exact ⟨o.id.text.toList ++ ['.'], fun x => by simp [member_toList]⟩
  · rename_i p _ _
    exact ⟨p.toList ++ ['.'], fun x => by simp [member_toList]⟩
  · exact ⟨[], fun x => rfl⟩

/-- Names that are declared side by side have nothing under them in common. -/
theorem under_typeId (hx : Segment x) (hy : Segment y) (h : Under q (r.typeId x))
    (k : Under q (r.typeId y)) : x = y := by
  obtain ⟨front, hfront⟩ := r.typeId_text
  exact String.toList_inj.mp ((h.segment (hfront x) hx).symm.trans (k.segment (hfront y) hy))

theorem Passes.typeId (hp : Passes s new r r') (h : Steady s r) : r'.typeId = r.typeId := by
  funext x
  unfold Reader.typeId
  rw [hp.owner?, hp.steady.package_eq, h.package_eq]

/-! ### The parts of a body -/

/-- A part of the body that the reader is in, or a type at the top. -/
structure Fits (s : SourceTree) (r : Reader) (n : Node) : Prop where
  tidy : Tidy s.text.toList n
  kind : n.kind ≠ .enumMembers
  placed : r.owner? = none → (typeKind? n.kind).isSome

theorem Fits.passes (hn : Fits s r n) (hp : Passes s new r r') : Fits s r' n :=
  ⟨hn.tidy, hn.kind, fun hnone => hn.placed (hp.owner?.symm.trans hnone)⟩

/-- The names that come with a part: its types and what is inside of them, or its members. -/
def Brings (source : List Char) (r : Reader) (n : Node) (q : QName) (b : Bool) : Prop :=
  TypeNames source r n q b ∨ (b = false ∧ ∃ f, r.owner? = some f ∧
    ∃ x ∈ n.plainNames source f.kind, Segment x ∧ q = r.typeId x)

theorem Passes.brings (hp : Passes s new r r') (h : Steady s r) :
    Brings source r' = Brings source r := by
  unfold Brings TypeNames
  rw [hp.typeId h, hp.owner?]

theorem Brings.not_under (h : Brings source r n q b) (hx : Segment x)
    (htype : n.typeName? source ≠ some x)
    (hplain : ∀ f, r.owner? = some f → x ∉ n.plainNames source f.kind) :
    ¬ Under q (r.typeId x) := by
  intro hunder
  rcases h with ⟨y, hname, hy, hq⟩ | ⟨-, f, hf, y, hmem, hy, rfl⟩
  · obtain rfl := under_typeId hx hy hunder (hq.imp_left And.left)
    exact htype hname
  · obtain rfl := under_typeId hx hy hunder (.inl rfl)
    exact hplain f hf hmem

theorem Carries.flatMap {items : List (String × List UseSite)}
    (h : ∀ x ∈ items, Carries r x.2) : Carries r (items.flatMap (·.2)) := by
  intro f hf e he site hsite
  obtain ⟨x, hx, hsite⟩ := List.mem_flatMap.mp hsite
  exact h x hx f hf e he hsite

theorem carries_nil (r : Reader) : Carries r [] := fun _ _ _ _ => List.nil_subset _

theorem Steady.readPart (h : Steady s r) (hn : Fits s r n) :
    Passes s (Brings s.text.toList r n) r (Reader.readMember n r) := by
  cases hkind : typeKind? n.kind with
  | some kind =>
    refine Passes.mono (h.readType hn.tidy hkind fun hinner hf => ?_) fun _ _ => .inl
    obtain ⟨k, role, e, cs⟩ := n
    rw [readBody_eq]
    exact Steady.readBody hn.tidy.children hinner hf
  | none =>
    have howner : r.owner? ≠ none := by
      intro hnone
      have hsome := hn.placed hnone
      rw [hkind] at hsome
      cases hsome
    obtain ⟨f, hf⟩ := Option.ne_none_iff_exists'.mp howner
    rcases readMember_part h.source_eq hn.tidy hn.kind hkind hf with ⟨hadds, -⟩ | ⟨-, hread⟩
    · refine (hadds.passes h).mono ?_
      rintro q b ⟨rfl, ⟨x, own⟩, hmem, hx, rfl⟩
      refine .inr ⟨rfl, f, hf, x, ?_, hx, (typeId_of_owner hf x).symm⟩
      rw [← Node.names_plainMembers]
      exact List.mem_map_of_mem (f := (·.1)) hmem
    · rw [hread]
      exact h.propagate _

theorem Steady.takesPart (h : Steady s r) (hn : Fits s r n) (hf : r.owner? = some f)
    (hx : x ∈ n.plainNames s.text.toList f.kind) :
    Has r.decls (r.typeId x) true ∨ Has (Reader.readMember n r).decls (r.typeId x) false := by
  rw [typeId_of_owner hf]
  rw [← Node.names_plainMembers _ _ (r.frames.flatMap (·.params))] at hx
  cases hkind : typeKind? n.kind with
  | some kind =>
    rw [(Node.plainMembers_type _ _ _ (by rw [hkind]; rfl)).1] at hx
    cases hx
  | none =>
    rcases readMember_part h.source_eq hn.tidy hn.kind hkind hf with ⟨hadds, -⟩ | ⟨hnil, -⟩
    · obtain ⟨item, hitem, rfl⟩ := List.mem_map.mp hx
      exact hadds.takes h item hitem
    · rw [hnil] at hx
      cases hx

theorem Steady.carriesPart (h : Steady s r) (hn : Fits s r n) (hf : r.owner? = some f) :
    Carries (Reader.readMember n r)
      (n.uses s.text.toList f.kind (r.frames.flatMap (·.params))) := by
  unfold Node.uses
  cases hkind : typeKind? n.kind with
  | some kind =>
    have htype : (typeKind? n.kind).isSome := by rw [hkind]; rfl
    obtain ⟨hplain, hloose⟩ := Node.plainMembers_type s.text.toList f.kind
      (r.frames.flatMap (·.params)) htype
    rw [hplain, hloose]
    exact carries_nil _
  | none =>
    rcases readMember_part h.source_eq hn.tidy hn.kind hkind hf with
      ⟨hadds, hloose⟩ | ⟨hplain, hread⟩
    · rw [hloose, List.append_nil]
      exact .flatMap (hadds.carries h)
    · rw [hplain, hread]
      exact carries_propagate r _

theorem Steady.readParts : ∀ (ms : List Node) {r : Reader}, Steady s r →
    (∀ m ∈ ms, Fits s r m) →
    Passes s (fun q b => ∃ m ∈ ms, Brings s.text.toList r m q b) r (r.readParts ms)
  | [], _, h, _ => h.stay
  | m :: ms, r, h, hms => by
    have hfirst := h.readPart (hms m List.mem_cons_self)
    have hrest := Steady.readParts ms hfirst.steady fun m' hm' =>
      (hms m' (List.mem_cons_of_mem _ hm')).passes hfirst
    rw [hfirst.brings h] at hrest
    exact (hfirst.mono fun _ _ hq => ⟨m, List.mem_cons_self, hq⟩).trans
      (hrest.mono fun _ _ ⟨m', hm', hq⟩ => ⟨m', List.mem_cons_of_mem _ hm', hq⟩)

theorem Steady.partway (h : Steady s r) (hms : ∀ m ∈ before ++ n :: after, Fits s r m) :
    Fits s (r.readParts before) n ∧ Steady s (r.readParts before) ∧
      (r.readParts before).frames = r.frames ∧ (r.readParts before).typeId = r.typeId ∧
      ∃ new, Passes s new (Reader.readMember n (r.readParts before))
        (r.readParts (before ++ n :: after)) := by
  have hbefore := h.readParts before fun m hm => hms m (List.mem_append_left _ hm)
  have hn := (hms n (by simp)).passes hbefore
  have hpart := hbefore.steady.readPart hn
  have hafter := Steady.readParts after hpart.steady fun m hm =>
    ((hms m (by simp [hm])).passes hbefore).passes hpart
  rw [readParts_append]
  exact ⟨hn, hbefore.steady, hbefore.frames, hbefore.typeId h, _, hafter⟩

theorem Steady.carriesParts (h : Steady s r) (hms : ∀ m ∈ ms, Fits s r m) (hf : r.owner? = some f)
    (hm : m ∈ ms) :
    Carries (r.readParts ms) (m.uses s.text.toList f.kind (r.frames.flatMap (·.params))) := by
  obtain ⟨before, after, rfl⟩ := List.append_of_mem hm
  obtain ⟨hfits, hsteady, hframes, -, _, hafter⟩ := h.partway hms
  have hpart := hsteady.readPart hfits
  have hcarries := hsteady.carriesPart hfits (f := f) (by rw [Reader.owner?, hframes]; exact hf)
  rw [hframes] at hcarries
  exact hcarries.grows hpart.steady hafter.frames hafter.grows

section

variable (hx : Segment x) (hfree : Vacant r.decls (r.typeId x))
include hx hfree

theorem Steady.stays_vacant (h : Steady s r) (hms : ∀ m ∈ ms, Fits s r m)
    (htypes : ∀ m ∈ ms, m.typeName? s.text.toList ≠ some x)
    (hplain : ∀ f, r.owner? = some f → ∀ m ∈ ms, x ∉ m.plainNames s.text.toList f.kind) :
    Vacant (r.readParts ms).decls (r.typeId x) := by
  intro q b hq hunder hhas
  rcases (h.readParts ms hms).inside q b hq hhas with hold | ⟨m, hm, hbrings⟩
  · exact hfree q b hq hunder hold
  · exact hbrings.not_under hx (htypes m hm) (fun f hf => hplain f hf m hm) hunder

theorem Steady.taken (h : Steady s r) (hms : ∀ m ∈ ms, Fits s r m)
    (htypes : ∀ m ∈ ms, m.typeName? s.text.toList ≠ some x) (hf : r.owner? = some f)
    (hm : m ∈ ms) (hmem : x ∈ m.plainNames s.text.toList f.kind) :
    Has (r.readParts ms).decls (r.typeId x) false := by
  obtain ⟨before, after, rfl⟩ := List.append_of_mem hm
  obtain ⟨hfits, hsteady, hframes, htypeId, _, hafter⟩ := h.partway hms
  have htakes := hsteady.takesPart hfits (f := f) (by rw [Reader.owner?, hframes]; exact hf) hmem
  rw [htypeId] at htakes
  rcases htakes with htype | hmember
  · have hbefore := h.readParts before fun m hm => hms m (List.mem_append_left _ hm)
    have hq : IsPlain (r.typeId x) := typeId_ne_alias r hx.2
    rcases hbefore.inside _ _ hq htype with hold | ⟨m', hm', hname | ⟨hb, -⟩⟩
    · exact absurd hold (hfree _ _ hq (.inl rfl))
    · obtain ⟨y, hname, hy, hunder⟩ := hname
      obtain rfl := under_typeId hx hy (.inl rfl) (hunder.imp_left And.left)
      exact absurd hname (htypes m' (List.mem_append_left _ hm'))
    · cases hb
  · exact hafter.grows.taken _ hmember

theorem Steady.enter (h : Steady s r) (hms : ∀ m ∈ before ++ n :: after, Fits s r m)
    (hkind : typeKind? n.kind = some kind) (hc : n.child? .name = some c)
    (hname : c.text s.text.toList = x)
    (htypes : ∀ m ∈ before, m.typeName? s.text.toList ≠ some x)
    (hplain : ∀ f, r.owner? = some f → ∀ m ∈ before, x ∉ m.plainNames s.text.toList f.kind) :
    ∃ inner, Enters s kind n c (r.readParts before) inner ∧
      (∀ q b, IsPlain q → isWithin q (r.typeId x) = true → ¬ Has inner.decls q b) ∧
      Grows (inner.readParts n.bodyParts) (r.readParts (before ++ n :: after)) := by
  obtain ⟨hfits, hsteady, -, htypeId, _, hafter⟩ := h.partway hms
  have hstill := h.stays_vacant hx hfree (fun m hm => hms m (List.mem_append_left _ hm)) htypes
    hplain
  have hid : (r.readParts before).typeId ((r.readParts before).text c) = r.typeId x := by
    rw [Reader.text, hsteady.source_eq, hname, htypeId]
  have hopens : ((r.readParts before).openType? kind n).isSome := by
    refine openType?_isSome hc fun b => ?_
    rw [hid]
    exact hstill _ b (typeId_ne_alias r hx.2) (.inl rfl)
  obtain ⟨inner, hopen⟩ := Option.isSome_iff_exists.mp hopens
  have henters := hsteady.openType? hfits.tidy hkind hc hopen
  have hread : Reader.readMember n (r.readParts before) =
      (inner.readParts n.bodyParts).closeType := by
    rw [readMember_type hkind, hopen]
  refine ⟨inner, henters, fun q b hq hwithin hhas => ?_, ?_⟩
  · rcases henters.inside q b hhas with hold | ⟨rfl, -⟩
    · exact hstill q b hq (.inr hwithin) hold
    · rw [hid, not_isWithin_self] at hwithin
      cases hwithin
  · rw [hread] at hafter
    exact ⟨hafter.grows.entries, hafter.grows.taken⟩

end

end Reader

/-! ### The types of a file -/

/-- A type at the top of a file, or one in the body of another. -/
structure TypeSpot where
  node : Node
  kind : Declaration.Kind
  id : QName
  top : QName
  outer : List String
  overtaken : Bool

namespace TypeSpot

def hidden (source : List Char) (t : TypeSpot) : List String :=
  t.outer ++ t.node.parameterNames source

/-- The use sites in the header of the type and in its body, but for the types in it. -/
def uses (source : List Char) (t : TypeSpot) : List UseSite :=
  (headerWalk source t.node { hidden := t.hidden source }).sites ++
    t.node.bodyParts.flatMap (·.uses source t.kind (t.hidden source))

end TypeSpot

def topId (package : Option String) (x : String) : QName :=
  match package with
  | some p => QName.member ⟨p⟩ x
  | none => ⟨x⟩

/-- The types at the top of a file and the member types at any depth. -/
inductive TypeAt (s : SourceTree) : TypeSpot → Prop
  | top {n : Node} {kind : Declaration.Kind} {x : String} :
      n ∈ s.tree.root.children → typeKind? n.kind = some kind →
      n.typeName? s.text.toList = some x →
      TypeAt s ⟨n, kind, topId s.read.imports.package x, topId s.read.imports.package x, [], false⟩
  | member {t : TypeSpot} {before after : List Node} {n : Node} {kind : Declaration.Kind}
      {x : String} : TypeAt s t → t.node.bodyParts = before ++ n :: after →
      typeKind? n.kind = some kind → n.typeName? s.text.toList = some x →
      TypeAt s ⟨n, kind, t.id.member x, t.top, t.hidden s.text.toList,
        t.overtaken || before.any fun m => (m.plainNames s.text.toList t.kind).contains x⟩

/-- No two types at the top of a file share a name, and no two types in one body. -/
structure TypesApart {source : List Char} (tree : Tree source) : Prop where
  top : (tree.root.children.filterMap (·.typeName? source)).Nodup
  inside : ∀ n ∈ Node.nodesIn tree.root.children, (typeKind? n.kind).isSome →
    (n.bodyParts.filterMap (·.typeName? source)).Nodup

def finalReader (s : SourceTree) : Reader := s.start.readParts s.tree.root.topTypes

section

variable {s : SourceTree} {t : TypeSpot} {x : String}

theorem entries_finalReader (s : SourceTree) : (finalReader s).entries = s.read.entries := by
  have hreads : ∀ (ns : List Node) (r : Reader), r.readParts ns = Reader.readMembers ns r := by
    intro ns
    induction ns with
    | nil =>
      intro r
      unfold Reader.readMembers
      rfl
    | cons n ns ih =>
      intro r
      unfold Reader.readMembers
      exact ih _
  unfold finalReader
  rw [hreads]
  rfl

theorem steady_start (s : SourceTree) : Reader.Steady s s.start where
  source_eq := rfl
  path_eq := rfl
  package_eq := rfl
  unique := .start s
  framed f hf := by cases hf

theorem typeId_start (s : SourceTree) (x : String) :
    s.start.typeId x = topId s.read.imports.package x := by
  have howner : s.start.owner? = none := rfl
  have hpackage : s.start.package = s.read.imports.package := rfl
  unfold Reader.typeId topId
  rw [howner, hpackage]
  cases s.read.imports.package <;> rfl

theorem fits_start {n : Node} (hn : n ∈ s.tree.root.topTypes) : Reader.Fits s s.start n := by
  obtain ⟨hmem, hkind⟩ := List.mem_filter.mp hn
  refine ⟨s.tree.tidy.children n hmem, fun hk => ?_, fun _ => hkind⟩
  rw [hk] at hkind
  cases hkind

theorem TypeAt.inTree (h : TypeAt s t) : InTree s.tree t.node := by
  induction h with
  | top hn => exact Node.mem_nodesIn.mpr ⟨_, hn, Node.self_mem_nodes _⟩
  | member _ hbody _ _ ih => exact ih.bodyPart (hbody ▸ by simp)

theorem TypeAt.kind_eq (h : TypeAt s t) : typeKind? t.node.kind = some t.kind := by
  cases h with
  | top _ hkind => exact hkind
  | member _ _ hkind => exact hkind

theorem TypeAt.package_lt (h : TypeAt s t) {p : String}
    (hpackage : s.read.imports.package = some p) : p.length < t.id.text.length := by
  induction h with
  | top =>
    rw [hpackage]
    exact length_lt_member ⟨p⟩ _
  | member _ _ _ _ ih => exact Nat.lt_trans ih (length_lt_member _ _)

theorem no_type_before {source : List Char} {before after : List Node} {n : Node}
    (hnodup : ((before ++ n :: after).filterMap (·.typeName? source)).Nodup)
    (hname : n.typeName? source = some x) : ∀ m ∈ before, m.typeName? source ≠ some x := by
  intro m hm hsame
  rw [List.filterMap_append, List.filterMap_cons_some hname] at hnodup
  have hapart := (List.nodup_append.mp hnodup).2.2
  exact hapart x (List.mem_filterMap.mpr ⟨m, hm, hsame⟩) x List.mem_cons_self rfl

/-! ### Types that are read -/

/-- The reader goes into the body of the type, which it reads up to its end later on. -/
structure Entered (s : SourceTree) (t : TypeSpot) (inner : Reader) : Prop where
  steady : Reader.Steady s inner
  owner : ∃ f, inner.owner? = some f ∧ f.id = t.id ∧ f.kind = t.kind
  params : inner.frames.flatMap (·.params) = t.hidden s.text.toList
  header : Reader.Carries inner
    (headerWalk s.text.toList t.node { hidden := t.hidden s.text.toList }).sites
  declared : ∃ (i : Nat) (e : Entry), inner.entries[i]? = some e ∧ e.decl.id = t.id ∧
    ReadFrom s.text.toList s.path e.decl t.node
  outermost : ∃ f ∈ inner.frames, ∃ e : Entry, inner.entries[f.index]? = some e ∧
    e.decl.id = t.top ∧ e.decl.kind.isType = true ∧ e.decl.parent = none
  empty : ∀ q b, Reader.IsPlain q → isWithin q t.id = true → ¬ Reader.Has inner.decls q b
  later : Reader.Grows (inner.readParts t.node.bodyParts) (finalReader s)

theorem Entered.of_enters {r inner : Reader} {c : Node} (hr : Reader.Steady s r)
    (h : Reader.Enters s t.kind t.node c r inner) (hkind : typeKind? t.node.kind = some t.kind)
    (hc : t.node.child? .name = some c) (hid : r.typeId (r.text c) = t.id)
    (houter : r.frames.flatMap (·.params) = t.outer)
    (htop : r.frames = [] ∧ t.top = t.id ∨ ∃ f ∈ r.frames, ∃ e : Entry,
      r.entries[f.index]? = some e ∧ e.decl.id = t.top ∧ e.decl.kind.isType = true ∧
        e.decl.parent = none)
    (hempty : ∀ q b, Reader.IsPlain q → isWithin q t.id = true → ¬ Reader.Has inner.decls q b)
    (hlater : Reader.Grows (inner.readParts t.node.bodyParts) (finalReader s)) :
    Entered s t inner := by
  have hparams : r.typeParameterNames t.node = t.node.parameterNames s.text.toList :=
    hr.source_eq ▸ rfl
  have hheader : r.headerSites t.node =
      (headerWalk s.text.toList t.node { hidden := t.hidden s.text.toList }).sites := by
    unfold TypeSpot.hidden
    rw [← houter, ← hparams, ← hr.source_eq]
    rfl
  obtain ⟨e, he, hdecl⟩ := h.declared
  have hread := Reader.readFrom_typeDeclaration hr.source_eq hr.path_eq hkind hc
  refine ⟨h.steady, ⟨_, by rw [Reader.owner?, h.frames, List.getLast?_concat], hid, rfl⟩, ?_,
    hheader ▸ h.carries, ⟨_, e, he, hdecl ▸ hid, hdecl ▸ hread⟩, ?_, hempty, hlater⟩
  · rw [h.frames, List.flatMap_append, List.flatMap_singleton, houter, hparams]
    rfl
  · rcases htop with ⟨hnil, htop⟩ | ⟨f, hf, e₀, he₀, hid₀, htype, hparent⟩
    · refine ⟨_, h.frames ▸ List.mem_concat_self, e, he, ?_, ?_, ?_⟩
      · rw [hdecl, htop]
        exact hid
      · rw [hdecl]
        exact (Reader.typeKind?_isType hkind).1
      · rw [hdecl]
        simp [Reader.typeDeclaration, Reader.declaration, Reader.owner?, hnil]
    · obtain ⟨e', he', hbetter⟩ := h.grows.entries _ e₀ he₀
      have hsame := hbetter.type htype
      exact ⟨f, h.frames ▸ List.mem_append_left _ hf, e', he', hsame ▸ hid₀, hsame ▸ htype,
        hsame ▸ hparent⟩

theorem Entered.fits {inner : Reader} (h : Entered s t inner) (ht : TypeAt s t) :
    ∀ m ∈ t.node.bodyParts, Reader.Fits s inner m := by
  intro m hm
  obtain ⟨-, -, -, hk⟩ := Node.mem_bodyParts hm
  obtain ⟨f, hf, -⟩ := h.owner
  exact ⟨(ht.inTree.bodyPart hm).tidy, hk, fun hnone => by rw [hf] at hnone; cases hnone⟩

theorem Entered.typeId {inner : Reader} (h : Entered s t inner) (x : String) :
    inner.typeId x = t.id.member x := by
  obtain ⟨f, hf, hid, -⟩ := h.owner
  rw [Reader.typeId_of_owner hf, hid]

theorem Entered.vacant {inner : Reader} (h : Entered s t inner) (x : String) :
    Reader.Vacant inner.decls (inner.typeId x) := by
  intro q b hq hunder
  rw [h.typeId] at hunder
  refine h.empty q b hq ?_
  rcases hunder with rfl | hwithin
  · exact isWithin_member t.id x
  · exact isWithin_trans hwithin (isWithin_member t.id x)

theorem TypeAt.segment (h : TypeAt s t) {c : Node} (hc : t.node.child? .name = some c) :
    Reader.Segment (c.text s.text.toList) :=
  Reader.segment_name h.inTree.tidy (Reader.typeKind?_isType h.kind_eq).2 hc

theorem TypeAt.entered (hapart : TypesApart s.tree) (h : TypeAt s t)
    (hkept : t.overtaken = false) : ∃ inner, Entered s t inner := by
  induction h with
  | @top n kind x hn hkind hname =>
    obtain ⟨-, c, -, hc, hx⟩ := Node.typeName?_some hname
    have htype : TypeAt s _ := .top hn hkind hname
    have hmem : n ∈ s.tree.root.topTypes := List.mem_filter.mpr ⟨hn, by rw [hkind]; rfl⟩
    have hnodup : (s.tree.root.topTypes.filterMap (·.typeName? s.text.toList)).Nodup :=
      hapart.top.sublist (List.filter_sublist.filterMap _)
    obtain ⟨before, after, hsplit⟩ := List.append_of_mem hmem
    have hfits : ∀ m ∈ before ++ n :: after, Reader.Fits s s.start m := fun m hm =>
      fits_start (hsplit ▸ hm)
    have hempty : ∀ q b, ¬ Reader.Has s.start.decls q b := by
      rintro q b ⟨d, hd, -⟩
      cases hd
    obtain ⟨inner, henters, hclosed, hlater⟩ := (steady_start s).enter (hx ▸ htype.segment hc)
      (fun q b _ _ => hempty q b) hfits hkind hc hx (no_type_before (hsplit ▸ hnodup) hname)
      (fun f hf => by cases hf)
    obtain ⟨-, hsteady, hframes, htypeId, -⟩ := (steady_start s).partway hfits
    refine ⟨inner, .of_enters hsteady henters hkind hc ?_ ?_ (.inl ⟨hframes, rfl⟩) ?_ ?_⟩
    · rw [htypeId, typeId_start, Reader.text, hsteady.source_eq, hx]
    · rw [hframes]
      rfl
    · rwa [typeId_start] at hclosed
    · rwa [finalReader, hsplit]
  | @member t before after n kind x ht hbody hkind hname ih =>
    obtain ⟨hkept, hplain⟩ := Bool.or_eq_false_iff.mp hkept
    obtain ⟨outer, houter⟩ := ih hkept
    obtain ⟨-, c, -, hc, hx⟩ := Node.typeName?_some hname
    have htype : TypeAt s _ := .member ht hbody hkind hname
    have hnodup := hapart.inside t.node ht.inTree (by rw [ht.kind_eq]; rfl)
    have hfits := hbody ▸ houter.fits ht
    have hplain : ∀ f, outer.owner? = some f → ∀ m ∈ before,
        x ∉ m.plainNames s.text.toList f.kind := by
      intro f hf m hm hmem
      obtain ⟨f', hf', -, hfkind⟩ := houter.owner
      obtain rfl := Option.some.inj (hf'.symm.trans hf)
      rw [hfkind] at hmem
      exact List.any_eq_false.mp hplain m hm (List.contains_iff_mem.mpr hmem)
    obtain ⟨inner, henters, hclosed, hlater⟩ := houter.steady.enter (hx ▸ htype.segment hc)
      (houter.vacant x) hfits hkind hc hx (no_type_before (hbody ▸ hnodup) hname) hplain
    obtain ⟨-, hsteady, hframes, htypeId, -⟩ := houter.steady.partway hfits
    refine ⟨inner, .of_enters hsteady henters hkind hc ?_ ?_ (.inr ?_) ?_ ?_⟩
    · rw [htypeId, houter.typeId, Reader.text, hsteady.source_eq, hx]
    · rw [hframes]
      exact houter.params
    · obtain ⟨f, hf, e, he, hid, hetype, hparent⟩ := houter.outermost
      have hgrows := (houter.steady.readParts before fun m hm =>
        hfits m (List.mem_append_left _ hm)).grows
      obtain ⟨e', he', hbetter⟩ := hgrows.entries _ e he
      have hsame := hbetter.type hetype
      exact ⟨f, hframes ▸ hf, e', he', hsame ▸ hid, hsame ▸ hetype, hsame ▸ hparent⟩
    · rwa [houter.typeId] at hclosed
    · exact hlater.trans (hbody ▸ houter.later)

/-- All that is read of a type that the reader enters is there in the end. -/
theorem Entered.kept {inner : Reader} (h : Entered s t inner) (ht : TypeAt s t) :
    (∃ T ∈ s.read.entries, T.decl.id = t.id ∧
      ReadFrom s.text.toList s.path T.decl t.node) ∧
    ∃ O ∈ s.read.entries, O.decl.id = t.top ∧ O.decl.kind.isType = true ∧
      O.decl.parent = none ∧ t.uses s.text.toList ⊆ O.sites := by
  have hfits := h.fits ht
  have hbody := h.steady.readParts _ hfits
  rw [← entries_finalReader]
  constructor
  · obtain ⟨i, e, he, hid, hread⟩ := h.declared
    obtain ⟨e', he', hbetter⟩ := (hbody.grows.trans h.later).entries i e he
    have hsame := hbetter.type (Reader.typeKind?_isType hread.kind).1
    exact ⟨e', List.mem_of_getElem? he', hsame ▸ hid, hsame ▸ hread⟩
  · obtain ⟨f, hf, e, he, hid, htype, hparent⟩ := h.outermost
    obtain ⟨e', he', hbetter⟩ := hbody.grows.entries _ e he
    obtain ⟨O, hO, hlater⟩ := h.later.entries _ e' he'
    have hsame := (hbetter.trans hlater).type htype
    refine ⟨O, List.mem_of_getElem? hO, hsame ▸ hid, hsame ▸ htype, hsame ▸ hparent, ?_⟩
    unfold TypeSpot.uses
    refine List.append_subset.mpr ⟨?_, fun site hsite => ?_⟩
    · exact List.Subset.trans (h.header f hf e he) (hbetter.trans hlater).sites
    · obtain ⟨m, hm, hsite⟩ := List.mem_flatMap.mp hsite
      obtain ⟨o, ho, -, hkind⟩ := h.owner
      have hcarries := h.steady.carriesParts hfits ho hm
      rw [hkind, h.params] at hcarries
      exact hlater.sites (hcarries f (hbody.frames ▸ hf) e' he' hsite)

/-- A field, a constant or a method keeps its name to the end. -/
theorem Entered.overtaken {inner : Reader} (h : Entered s t inner) (ht : TypeAt s t)
    (hapart : TypesApart s.tree) {before after : List Node} {n m : Node}
    (hbody : t.node.bodyParts = before ++ n :: after) (hname : n.typeName? s.text.toList = some x)
    (hx : Reader.Segment x) (hm : m ∈ before) (hmem : x ∈ m.plainNames s.text.toList t.kind) :
    Reader.Has (finalReader s).decls (t.id.member x) false := by
  have hnodup := hapart.inside t.node ht.inTree (by rw [ht.kind_eq]; rfl)
  have hfits := h.fits ht
  have hbefore : ∀ m ∈ before, Reader.Fits s inner m := fun m hm => hfits m (by simp [hbody, hm])
  obtain ⟨f, hf, -, hkind⟩ := h.owner
  have htaken := h.steady.taken hx (h.vacant x) hbefore (no_type_before (hbody ▸ hnodup) hname) hf
    hm (hkind ▸ hmem)
  have hpasses := h.steady.readParts before hbefore
  have hrest := Reader.Steady.readParts (n :: after) hpasses.steady fun m hm =>
    (hfits m (hbody ▸ List.mem_append_right _ hm)).passes hpasses
  rw [← Reader.readParts_append, ← hbody] at hrest
  rw [h.typeId] at htaken
  exact h.later.taken _ (hrest.grows.taken _ htaken)

theorem unique_finalReader (s : SourceTree) : Reader.Unique (finalReader s).decls :=
  ((steady_start s).readParts _ fun _ hm => fits_start hm).steady.unique

theorem TypeAt.parent_eq (h : TypeAt s t) {T : Entry} (hT : T ∈ s.read.entries)
    (hx : '.' ∉ x.toList) (hid : T.decl.id = t.id.member x) : T.decl.parent = some t.id := by
  have hbelow : Below t.id T.decl.id := ⟨x, hx, hid⟩
  cases hparent : T.decl.parent with
  | some p =>
    have hconsistent := s.consistent
    rw [(hconsistent.named T hT p hparent).owner_eq hbelow]
  | none =>
    have hplaced := s.placed
    have htop := hplaced.top T.decl (List.mem_map_of_mem hT) hparent
    obtain ⟨p, hpackage, hp⟩ := (s.topNames _ htop).of_below hbelow
    have hlt := h.package_lt hpackage
    rw [hp] at hlt
    exact absurd hlt (Nat.lt_irrefl _)

/-- Nothing has the name of a type that is passed over, or of one inside of it. -/
theorem TypeAt.gone (hapart : TypesApart s.tree) (h : TypeAt s t)
    (hgone : t.overtaken = true) :
    ∀ T ∈ s.read.entries, T.decl.kind.isType = true → T.decl.id ≠ t.id := by
  induction h with
  | top => cases hgone
  | @member t before after n kind x ht hbody hkind hname ih =>
    intro T hT htype hid
    obtain ⟨-, c, -, hc, rfl⟩ := Node.typeName?_some hname
    have hspot : TypeAt s _ := .member ht hbody hkind hname
    have hx := hspot.segment hc
    cases houter : t.overtaken with
    | true =>
      have hconsistent := s.consistent
      obtain ⟨P, hP, hPtype, hPid⟩ := hconsistent.parents T hT _ (ht.parent_eq hT hx.1 hid)
      exact ih houter P hP hPtype hPid
    | false =>
      obtain ⟨inner, hentered⟩ := ht.entered hapart houter
      have hbefore := (Bool.or_eq_true_iff.mp hgone).resolve_left (by rw [houter]; simp)
      obtain ⟨m, hm, hmem⟩ := List.any_eq_true.mp hbefore
      have htaken := hentered.overtaken ht hapart hbody hname hx hm (List.contains_iff_mem.mp hmem)
      have hthere : Reader.Has (finalReader s).decls (t.id.member (c.text s.text.toList)) true := by
        refine ⟨T.decl, ?_, hid, htype⟩
        rw [Reader.decls, entries_finalReader]
        exact List.mem_map_of_mem hT
      exact (unique_finalReader s).has_one hthere htaken

/-- A type of a file in which no body declares two types of one name is read if and only if no
field, constant or method comes before it that has its name, nor before a type around it. What it
uses then counts for the type at the top. -/
theorem types_are_kept (s : SourceTree) (hapart : TypesApart s.tree) {t : TypeSpot}
    (ht : TypeAt s t) :
    ((∃ T ∈ s.read.entries, T.decl.kind.isType = true ∧ T.decl.id = t.id) ↔
      t.overtaken = false) ∧
    (t.overtaken = false →
      (∃ T ∈ s.read.entries, T.decl.id = t.id ∧
        ReadFrom s.text.toList s.path T.decl t.node) ∧
      ∃ O ∈ s.read.entries, O.decl.id = t.top ∧ O.decl.kind.isType = true ∧
        O.decl.parent = none ∧ t.uses s.text.toList ⊆ O.sites) := by
  have hkept : t.overtaken = false → _ := fun hfree =>
    (ht.entered hapart hfree).elim fun _ hentered => hentered.kept ht
  refine ⟨⟨fun ⟨T, hT, htype, hid⟩ => ?_, fun hfree => ?_⟩, hkept⟩
  · cases hgone : t.overtaken with
    | false => rfl
    | true => exact absurd hid (ht.gone hapart hgone T hT htype)
  · obtain ⟨⟨T, hT, hid, hread⟩, -⟩ := hkept hfree
    exact ⟨T, hT, (Reader.typeKind?_isType hread.kind).1, hid⟩

end

def chest : SourceText :=
  { path := ⟨"p/Chest.java"⟩
    text := "package p; class Chest<E> \x7b " ++
      "class Box<F> extends Crate \x7b F f; E e; Label l() \x7b return cut(); \x7d \x7d " ++
      "int Box; void Lid() \x7b\x7d class Lid \x7b Hinge h; \x7d \x7d"
    provenance := { module := "m" } }

theorem chest_types_are_kept :
    TypesApart chest.parsed.tree ∧
    (∃ t, TypeAt chest.parsed t ∧ t.id = ⟨"p.Chest.Box"⟩ ∧ t.overtaken = false ∧
      (t.uses chest.text.toList).map (·.kind) = [.supertype, .typeUse, .call] ∧
      ∃ O ∈ chest.read.entries, O.decl.id = ⟨"p.Chest"⟩ ∧ t.uses chest.text.toList ⊆ O.sites) ∧
    ∃ t, TypeAt chest.parsed t ∧ t.id = ⟨"p.Chest.Lid"⟩ ∧ t.overtaken = true ∧
      ¬ ∃ T ∈ chest.read.entries, T.decl.kind.isType = true ∧ T.decl.id = t.id := by
  have hapart : TypesApart chest.parsed.tree := ⟨by decide +kernel, by decide +kernel⟩
  have hpackage : chest.parsed.read.imports.package = some "p" := by decide +kernel
  have hnodes : ∃ n ∈ chest.parsed.tree.root.children, typeKind? n.kind = some .classType ∧
      n.typeName? chest.text.toList = some "Chest" ∧
      (∃ m ∈ n.bodyParts[1]?, typeKind? m.kind = some .classType ∧
        m.typeName? chest.text.toList = some "Box" ∧
        (n.bodyParts.take 1).any (fun p =>
          (p.plainNames chest.text.toList .classType).contains "Box") = false ∧
        (TypeSpot.uses chest.text.toList ⟨m, .classType, ⟨"p.Chest.Box"⟩, ⟨"p.Chest"⟩,
          n.parameterNames chest.text.toList, false⟩).map (·.kind) =
            [.supertype, .typeUse, .call]) ∧
      ∃ m ∈ n.bodyParts[4]?, typeKind? m.kind = some .classType ∧
        m.typeName? chest.text.toList = some "Lid" ∧
        (n.bodyParts.take 4).any (fun p =>
          (p.plainNames chest.text.toList .classType).contains "Lid") = true := by
    decide +kernel
  obtain ⟨n, hn, hkind, hname, ⟨box, hbox, hboxKind, hboxName, hbefore, huses⟩, lid, hlid, hlidKind,
    hlidName, hbehind⟩ := hnodes
  have htop := TypeAt.top hn hkind hname
  have hsplit : ∀ {i : Nat} {m : Node}, m ∈ n.bodyParts[i]? →
      n.bodyParts = n.bodyParts.take i ++ m :: n.bodyParts.drop (i + 1) := by
    intro i m hm
    obtain ⟨hlt, rfl⟩ := List.getElem?_eq_some_iff.mp hm
    rw [← List.drop_eq_getElem_cons hlt, List.take_append_drop]
  have hboxAt := TypeAt.member htop (hsplit hbox) hboxKind hboxName
  have hlidAt := TypeAt.member htop (hsplit hlid) hlidKind hlidName
  rw [hpackage] at hboxAt hlidAt
  obtain ⟨-, hkept⟩ := types_are_kept chest.parsed hapart hboxAt
  obtain ⟨-, O, hO, hid, -, -, hsites⟩ := hkept hbefore
  refine ⟨hapart, ⟨_, hboxAt, rfl, hbefore, ?_, O, hO, hid, hsites⟩, _, hlidAt, rfl, hbehind,
    fun hthere => ?_⟩
  · exact huses
  · have hfree := (types_are_kept chest.parsed hapart hlidAt).1.mp hthere
    exact Bool.false_ne_true (hfree.symm.trans hbehind)

end Carve.Java
