import Carve.Proofs.Index.Lookup
import Carve.Proofs.Java.Enclosure
import Carve.Proofs.Java.Layout.Tree
import Carve.Proofs.Java.Places

/-!
# Reading declarations in their places

The reader goes through a body from left to right. Everything it has read ends before what it reads
next, except for the types it is inside of, and what it reads next lies in the body of the
innermost type. So whatever it adds has its place among what is there.
-/

namespace Carve

namespace Java

namespace Reader

open QName

variable {source : List Char} {path : Path} {r r' : Reader} {lo hi : Nat} {n : Node}
  {ns : List Node} {P Q : Declaration.Kind → Outline → Prop}

theorem Coherent.frame_within (h : Coherent source r) {k : Nat} {f : TypeFrame}
    (hf : r.frames[k + 1]? = some f) :
    ∃ g, r.frames[k]? = some g ∧ g.id.text.length < f.id.text.length := by
  obtain ⟨e, he, hid, -, hparent⟩ := h.framed (k + 1) f hf
  have hlt : k + 1 < r.frames.length := (List.getElem?_eq_some_iff.mp hf).1
  have hlast : (r.frames.take (k + 1)).getLast? = r.frames[k]? := by
    rw [List.getLast?_eq_getElem?, List.length_take, Nat.min_eq_left (by omega),
      List.getElem?_take_of_lt (by omega), Nat.add_sub_cancel]
  rw [hlast, List.getElem?_eq_getElem (by omega)] at hparent
  refine ⟨_, List.getElem?_eq_getElem (by omega), ?_⟩
  rw [← hid]
  exact length_of_below (h.named e (List.mem_of_getElem? he) _ hparent)

theorem Coherent.frames_grow (h : Coherent source r) (k : Nat) :
    ∀ (j : Nat) (f g : TypeFrame), r.frames[j]? = some f → r.frames[k]? = some g → j < k →
      f.id.text.length < g.id.text.length := by
  induction k with
  | zero => exact fun _ _ _ _ _ hlt => absurd hlt (Nat.not_lt_zero _)
  | succ k ih =>
    intro j f g hf hg hlt
    obtain ⟨m, hm, hwithin⟩ := h.frame_within hg
    by_cases hjk : j = k
    · obtain rfl := hjk
      obtain rfl := Option.some.inj (hf.symm.trans hm)
      exact hwithin
    · have := ih j f m hf hm (by omega)
      omega

theorem Coherent.closed (h : Coherent source r) {i : Nat} {d : Declaration}
    (hd : r.decls[i]? = some d) (hparent : d.parent = r.owner?.map (·.id)) :
    ∀ g ∈ r.frames, g.index ≠ i := by
  rintro g hg rfl
  obtain ⟨k, hk⟩ := List.mem_iff_getElem?.mp hg
  obtain ⟨e, he, -, -, hoparent⟩ := h.framed k g hk
  obtain rfl := Option.some.inj (hd.symm.trans (decls_getElem? he))
  have hlt : k < r.frames.length := (List.getElem?_eq_some_iff.mp hk).1
  have hlast : r.owner? = r.frames[r.frames.length - 1]? := List.getLast?_eq_getElem?
  rw [hparent, hlast, List.getElem?_eq_getElem (by omega)] at hoparent
  cases k with
  | zero => simp at hoparent
  | succ k =>
    rw [List.getLast?_eq_getElem?, List.length_take, Nat.min_eq_left (by omega),
      List.getElem?_take_of_lt (by omega), Nat.add_sub_cancel,
      List.getElem?_eq_getElem (by omega)] at hoparent
    have hid : r.frames[r.frames.length - 1].id = r.frames[k].id := Option.some.inj hoparent
    have hgrow := h.frames_grow (r.frames.length - 1) k _ _ (List.getElem?_eq_getElem (by omega))
      (List.getElem?_eq_getElem (by omega)) (by omega)
    rw [hid] at hgrow
    exact absurd hgrow (Nat.lt_irrefl _)

def Around (r : Reader) (P : Outline → Prop) : Prop :=
  ∀ f, r.owner? = some f → ∃ T t, r.decls[f.index]? = some T ∧ T.kind.isType = true ∧
    T.id = f.id ∧ T.outlines = [t] ∧ P t

theorem Around.imp {P Q : Outline → Prop} (h : Around r P) (hPQ : ∀ t, P t → Q t) : Around r Q := by
  intro f hf
  obtain ⟨T, t, hT, htype, hid, hout, ht⟩ := h f hf
  exact ⟨T, t, hT, htype, hid, hout, hPQ t ht⟩

theorem Around.keeps {P : Outline → Prop} (h : Around r P) (hframes : r'.frames = r.frames)
    (hkeeps : Keeps r.decls r'.decls) : Around r' P := by
  intro f hf
  unfold owner? at hf
  rw [hframes] at hf
  obtain ⟨T, t, hT, htype, hrest⟩ := h f hf
  exact ⟨T, t, hkeeps _ T hT htype, htype, hrest⟩

theorem Around.apply {P : Outline → Prop} (h : Around r P) (hu : Unique r.decls) {f : TypeFrame}
    (hf : r.owner? = some f) {T : Declaration} (hT : T ∈ r.decls) (hid : T.id = f.id) :
    ∀ t ∈ T.outlines, P t := by
  intro t ht
  obtain ⟨T', t', hT', -, hid', hout, hP⟩ := h f hf
  obtain ⟨j, hj⟩ := List.mem_iff_getElem?.mp hT
  obtain rfl := hu.ids f.index j T' T hT' hj (hid'.trans hid.symm)
  obtain rfl := Option.some.inj (hT'.symm.trans hj)
  rw [hout] at ht
  exact List.mem_singleton.mp ht ▸ hP

/-- Parts of a body that bring no member, or a constant. -/
def Idle (n : Node) : Prop := n.kind = .token ∨ n.kind = .comment ∨ n.kind = .enumConstant

structure Roomy (lo hi : Nat) (ns : List Node) (t : Outline) : Prop where
  body : ∃ b, t.body = some b ∧ b.start ≤ lo ∧ hi ≤ b.stop
  constants : ∀ c, t.constants = some c → ∀ n ∈ ns, Idle n ∨ c.stop ≤ n.span.start

def Ended (hi : Nat) (_ : Declaration.Kind) (o : Outline) : Prop := o.span.stop ≤ hi

/-- What is read next stands behind everything that has ended. -/
theorem Ended.beside {k kind : Declaration.Kind} {o o' : Outline} (h : Ended lo k o')
    (hlo : lo ≤ n.span.start) (hspan : o.span = n.span) : Beside kind o k o' := by
  refine Or.inl (Or.inr ?_)
  rw [hspan]
  exact Nat.le_trans h hlo

/-- Everything that was read is in its place and before what is read next. -/
structure Ready (source : List Char) (path : Path) (r : Reader) (lo : Nat) (ns : List Node)
    (hi : Nat) : Prop where
  path_eq : r.path = path
  placed : Placed source path r.topLevel r.decls
  passed : Passed r.frames r.decls (Ended lo)
  stands : Stands source lo ns hi
  around : Around r (Roomy lo hi ns)

/-- What reading leaves behind. -/
structure After (source : List Char) (path : Path) (r r' : Reader)
    (P : Declaration.Kind → Outline → Prop) : Prop where
  path_eq : r'.path = r.path
  placed : Placed source path r'.topLevel r'.decls
  passed : Passed r'.frames r'.decls P
  frames : r'.frames = r.frames
  types : Keeps r.decls r'.decls

theorem Ready.head (h : Ready source path r lo (n :: ns) hi) :
    Ready source path r lo [n] n.span.stop := by
  obtain ⟨hstart, hlt, hrest⟩ := h.stands.head
  refine ⟨h.path_eq, h.placed, h.passed, ⟨.cons hstart (.nil (Nat.le_refl _)), ?_⟩, ?_⟩
  · simpa using h.stands.laid n List.mem_cons_self
  · refine h.around.imp fun t ht => ⟨?_, fun c hc m hm => ?_⟩
    · obtain ⟨b, hb, hlo, hhi⟩ := ht.body
      have := hrest.le
      exact ⟨b, hb, hlo, by omega⟩
    · exact ht.constants c hc m (by simpa using Or.inl (List.mem_singleton.mp hm))

theorem Ready.tail (h : Ready source path r lo (n :: ns) hi)
    (k : After source path r r' (Ended n.span.stop)) :
    Ready source path r' n.span.stop ns hi := by
  obtain ⟨hstart, hlt, hrest⟩ := h.stands.head
  refine ⟨k.path_eq.trans h.path_eq, k.placed, k.passed, hrest, ?_⟩
  refine (h.around.keeps k.frames k.types).imp fun t ht => ⟨?_, fun c hc m hm => ?_⟩
  · obtain ⟨b, hb, hlo, hhi⟩ := ht.body
    exact ⟨b, hb, by omega, hhi⟩
  · exact ht.constants c hc m (List.mem_cons_of_mem _ hm)

theorem After.refl (h : Ready source path r lo ns hi) : After source path r r (Ended hi) where
  path_eq := rfl
  placed := h.placed
  passed i d hd hopen o ho := Nat.le_trans (h.passed i d hd hopen o ho) h.stands.le
  frames := rfl
  types _ _ hd _ := hd

theorem After.trans {r'' : Reader} (h : After source path r r' P) (k : After source path r' r'' Q) :
    After source path r r'' Q where
  path_eq := k.path_eq.trans h.path_eq
  placed := k.placed
  passed := k.passed
  frames := k.frames.trans h.frames
  types i d hd htype := k.types i d (h.types i d hd htype) htype

theorem passed_mono {frames : List TypeFrame} {ds : List Declaration}
    (h : Passed frames ds (Ended lo)) (hle : lo ≤ hi) : Passed frames ds (Ended hi) :=
  fun i d hd hopen o ho => Nat.le_trans (h i d hd hopen o ho) hle

theorem After.mono {hi' : Nat} (h : After source path r r' (Ended hi)) (hle : hi ≤ hi') :
    After source path r r' (Ended hi') :=
  ⟨h.path_eq, h.placed, passed_mono h.passed hle, h.frames, h.types⟩

theorem Ready.inner (h : Ready source path r lo [n] hi) (hidle : ¬ Idle n) :
    Ready source path r n.span.start n.children n.span.stop := by
  obtain ⟨hstart, hlt, hrest⟩ := h.stands.head
  have hstands := Stands.children (h.stands.laid n (by simp))
  refine ⟨h.path_eq, h.placed, passed_mono h.passed hstart, hstands,
    h.around.imp fun t ht => ⟨?_, ?_⟩⟩
  · obtain ⟨b, hb, hlo, hhi⟩ := ht.body
    have := hrest.le
    exact ⟨b, hb, by omega, by omega⟩
  · intro c hc m hm
    rcases ht.constants c hc n (by simp) with hcon | hle
    · exact absurd hcon hidle
    · exact Or.inr (Nat.le_trans hle (hstands.bounds m hm).1)

theorem After.propagate (h : Ready source path r lo ns hi) (sites : List UseSite) :
    After source path r (r.propagate sites) (Ended hi) := by
  have hrefl := After.refl h
  refine ⟨rfl, ?_, ?_, rfl, ?_⟩
  · rw [decls_propagate]
    exact hrefl.placed
  · rw [decls_propagate]
    exact hrefl.passed
  · rw [decls_propagate]
    exact hrefl.types

theorem addMember_rest (r : Reader) (d : Declaration) (own : List UseSite) :
    (r.addMember d own).path = r.path ∧ (r.addMember d own).topLevel = r.topLevel := by
  obtain ⟨es, hes⟩ := addMember_eq r d own
  rw [hes]
  exact ⟨rfl, rfl⟩

theorem newcomer_declaration (hc : Coherent source r) (hu : Unique r.decls) (hpath : r.path = path)
    (hpassed : Passed r.frames r.decls P) {f : TypeFrame} (hf : r.owner? = some f) (id : QName)
    (name : String) {kind : Declaration.Kind} (hmember : kind.isType = false) {outline : Outline}
    (ho : Outlined source outline) (hholds : Around r fun t => Holds t kind outline)
    (hbeside : ∀ k o, P k o → Beside kind outline k o) :
    Newcomer source path r.topLevel r.decls (r.declaration id name kind n outline) outline := by
  have hparent : (r.declaration id name kind n outline).parent = some f.id := by
    simp [declaration, hf]
  refine ⟨rfl, congrArg some hpath, rfl, ho, ?_, ?_, ?_, ?_⟩
  · rw [hparent]
    intro hnone
    cases hnone
  · exact fun htype => absurd htype (by simp [declaration, hmember])
  · intro T hT _ hwithin
    exact hholds.apply hu hf hT (Option.some.inj (hwithin.symm.trans hparent))
  · intro e he hsame o' ho'
    obtain ⟨j, hj⟩ := List.mem_iff_getElem?.mp he
    have hopen := hc.closed hj (by rw [hsame, hparent, hf]; rfl)
    exact hbeside e.kind o' (hpassed j e hj hopen o' ho')

theorem Coherent.parent_eq (hc : Coherent source r) {d : Declaration} {p : QName}
    (hparent : d.parent = some p) (hbelow : Below p d.id) :
    ∀ e ∈ r.decls, e.kind.isType = false → e.id = d.id ∨ e.id = d.id.methodAlias →
      e.parent = d.parent := by
  intro e he hetype hid
  obtain ⟨entry, hentry, rfl⟩ := List.mem_map.mp he
  cases hp : entry.decl.parent with
  | none => exact absurd hp (hc.members entry hentry hetype)
  | some q =>
    have hbelow' : Below p entry.decl.id := by
      rcases hid with hid | hid
      · exact hid ▸ hbelow
      · exact hid ▸ below_alias hbelow
    rw [hparent, (hc.named entry hentry q hp).owner_eq hbelow']

/-- A member that is read has its place, and so has everything else afterwards. -/
theorem After.addMember (hc : Coherent source r) (hu : Unique r.decls) (hpath : r.path = path)
    (hplaced : Placed source path r.topLevel r.decls) (hpassed : Passed r.frames r.decls P)
    {f : TypeFrame} (hf : r.owner? = some f) {id : QName} (hbelow : Below f.id id) (name : String)
    {kind : Declaration.Kind} (hmember : kind.isType = false) {outline : Outline}
    (ho : Outlined source outline) (hholds : Around r fun t => Holds t kind outline)
    (hbeside : ∀ k o, P k o → Beside kind outline k o) (hPQ : ∀ k o, P k o → Q k o)
    (hQ : Q kind outline) (own : List UseSite) :
    After source path r (r.addMember (r.declaration id name kind n outline) own) Q := by
  have hparent : (r.declaration id name kind n outline).parent = some f.id := by
    simp [declaration, hf]
  have hnew := newcomer_declaration (n := n) hc hu hpath hpassed hf id name hmember ho hholds
    hbeside
  have hadded := addMember_added r (r.declaration id name kind n outline) own hu
  obtain ⟨hrest, htops⟩ := addMember_rest r (r.declaration id name kind n outline) own
  refine ⟨hrest, ?_, ?_, addMember_frames _ _, keeps_added hmember hadded⟩
  · rw [htops]
    refine hplaced.added hnew hmember ?_ (hc.parent_eq hparent hbelow) hadded
    rw [hparent]
    simp
  · rw [addMember_frames]
    have hpassed' : Passed r.frames r.decls Q := fun i d hd hopen o ho =>
      hPQ _ o (hpassed i d hd hopen o ho)
    exact hpassed'.added hplaced.located rfl hQ hadded

theorem outlined_of_laid (h : Laid (.ofText source) n) {o : Outline}
    (hspan : o.span = n.span) (hbody : ∀ b, o.body = some b → n.span.Encloses b)
    (hconstants : o.constants = none) : Outlined source o := by
  refine ⟨hspan ▸ h.cuts.1, hspan ▸ h.cuts.2, hspan ▸ h.nonempty, fun b hb => ?_, fun c hc => ?_⟩
  · rw [hspan]
    exact hbody b hb
  · rw [hconstants] at hc
    cases hc

theorem Ready.holds (h : Ready source path r lo [n] hi) {kind : Declaration.Kind} {o : Outline}
    (hspan : o.span = n.span)
    (hidle : (kind = .field ∧ o.hasModifier "static" = true) ∨ ¬ Idle n) :
    Around r fun t => Holds t kind o := by
  obtain ⟨hstart, -, hrest⟩ := h.stands.head
  refine h.around.imp fun t ht => ⟨?_, fun c hc hk => ?_⟩
  · obtain ⟨b, hb, hlo, hhi⟩ := ht.body
    have := hrest.le
    exact ⟨b, hb, by rw [hspan]; exact ⟨by omega, by omega⟩⟩
  · rw [hspan]
    rcases hidle with ⟨hfield, hstatic⟩ | hidle
    · rw [hk hfield] at hstatic
      cases hstatic
    · rcases ht.constants c hc n (by simp) with hcon | hle
      · exact absurd hcon hidle
      · exact hle

theorem Ready.addMember (h : Ready source path r lo [n] hi) (hc : Coherent source r)
    (hu : Unique r.decls) {f : TypeFrame} (hf : r.owner? = some f) {id : QName}
    (hbelow : Below f.id id) (name : String) {kind : Declaration.Kind}
    (hmember : kind.isType = false) {outline : Outline}
    (hidle : (kind = .field ∧ outline.hasModifier "static" = true) ∨ ¬ Idle n)
    (hspan : outline.span = n.span) (hbody : ∀ b, outline.body = some b → n.span.Encloses b)
    (hconstants : outline.constants = none) (own : List UseSite) :
    After source path r (r.addMember (r.declaration id name kind n outline) own) (Ended hi) := by
  obtain ⟨hstart, hlt, hrest⟩ := h.stands.head
  have hle := hrest.le
  refine After.addMember hc hu h.path_eq h.placed h.passed hf hbelow name hmember
    (outlined_of_laid (h.stands.laid n (by simp)) hspan hbody hconstants) (h.holds hspan hidle)
    (fun k o ho => ho.beside hstart hspan) (fun k o ho => ?_) ?_ own
  · exact Nat.le_trans ho (by omega)
  · show outline.span.stop ≤ hi
    rw [hspan]
    exact hle

theorem child?_mem {n c : Node} {role : Role} (h : n.child? role = some c) : c ∈ n.children :=
  List.mem_of_find?_eq_some h

theorem encloses_child (h : Laid (.ofText source) n) {role : Role} {b : Span}
    (hb : (n.child? role).map (·.span) = some b) : n.span.Encloses b := by
  obtain ⟨c, hc, rfl⟩ := Option.map_eq_some_iff.mp hb
  exact (Stands.children h).bounds c (child?_mem hc)

theorem Ready.readCallable (h : Ready source path r lo [n] hi) (hc : Coherent source r)
    (hu : Unique r.decls) {kind : Declaration.Kind} (hmember : kind.isType = false)
    (hn : Tidy source n) (hk : n.kind ≠ .annotationMark) (hidle : ¬ Idle n) :
    After source path r (r.readCallable kind n) (Ended hi) := by
  unfold Reader.readCallable
  split
  · exact .refl h
  rename_i f hf
  dsimp only
  split
  · exact .refl h
  rename_i id name hidentity
  have hlaid := h.stands.laid n (by simp)
  obtain ⟨s, ⟨hdotless, -⟩, rfl⟩ := hc.identity hn hk hidentity
  exact h.addMember hc hu hf ⟨s, hdotless, rfl⟩ name hmember (Or.inr hidle) rfl
    (fun b hb => encloses_child hlaid hb) rfl _

theorem Ready.readConstant (h : Ready source path r lo [n] hi) (hc : Coherent source r)
    (hu : Unique r.decls) (hn : Tidy source n) (hk : n.kind ≠ .annotationMark) :
    After source path r (r.readConstant n) (Ended hi) := by
  unfold Reader.readConstant
  split
  · rename_i f nameNode hf hname
    split
    · refine h.addMember hc hu hf ⟨_, hc.dotless hn hk hname, rfl⟩ _ rfl
        (Or.inl ⟨rfl, by simp [Outline.hasModifier]⟩) rfl ?_ rfl _
      intro b hb
      cases hb
    · exact .refl h
  · exact .refl h

def Sharing (lo count : Nat) (n : Node) (k : Declaration.Kind) (o : Outline) : Prop :=
  o.span.stop ≤ lo ∨ (k = .field ∧ o.span = n.span ∧ o.declarators = count)

theorem After.readDeclarator (hc : Coherent source r) (hu : Unique r.decls) (hpath : r.path = path)
    (hplaced : Placed source path r.topLevel r.decls) (hpassed : Passed r.frames r.decls P)
    {f : TypeFrame} (hf : r.owner? = some f) {d : Node} {count : Nat} (hd : Tidy source d)
    (hk : d.kind = .variableDeclarator) (hlaid : Laid (.ofText source) n)
    (hroom : Around r fun t => ∀ o, o.span = n.span → Holds t .field o)
    (hbeside : ∀ k o o', P k o' → o.span = n.span → o.declarators = count →
      Beside .field o k o')
    (hPQ : ∀ k o, P k o → Q k o)
    (hQ : ∀ o, o.span = n.span → o.declarators = count → Q .field o) :
    After source path r (Reader.readDeclarator n count f.id r d) Q := by
  unfold Reader.readDeclarator
  split
  · exact ⟨rfl, hplaced, fun i e he hopen o ho => hPQ _ o (hpassed i e he hopen o ho), rfl,
      fun _ _ he _ => he⟩
  rename_i nameNode hname
  refine After.addMember hc hu hpath hplaced hpassed hf
    ⟨_, hc.dotless hd (by simp [hk]) hname, rfl⟩ _ rfl (outlined_of_laid hlaid rfl ?_ rfl)
    (hroom.imp fun t ht => ht _ rfl) (fun k o ho => hbeside k _ o ho rfl rfl) hPQ (hQ _ rfl rfl) _
  intro b hb
  cases hb

theorem Sharing.beside {count : Nat} (hcount : count ≠ 1) (hlo : lo ≤ n.span.start)
    {k : Declaration.Kind} {o o' : Outline} (h : Sharing lo count n k o') (hspan : o.span = n.span)
    (hdeclarators : o.declarators = count) : Beside .field o k o' := by
  rcases h with hbefore | ⟨rfl, hspan', hcount'⟩
  · exact Or.inl (Or.inr (by rw [hspan]; omega))
  · exact Or.inr ⟨rfl, rfl, hspan.trans hspan'.symm, hdeclarators ▸ hcount, hcount' ▸ hcount⟩

theorem After.readShared {count : Nat} (hcount : count ≠ 1) (hlo : lo ≤ n.span.start)
    (hlaid : Laid (.ofText source) n) (hc : Coherent source r) (hu : Unique r.decls)
    (hpath : r.path = path) (hplaced : Placed source path r.topLevel r.decls)
    (hpassed : Passed r.frames r.decls (Sharing lo count n)) {f : TypeFrame}
    (hf : r.owner? = some f) {d : Node} (hd : Tidy source d) (hk : d.kind = .variableDeclarator)
    (hroom : Around r fun t => ∀ o, o.span = n.span → Holds t .field o) :
    After source path r (Reader.readDeclarator n count f.id r d) (Sharing lo count n) :=
  After.readDeclarator hc hu hpath hplaced hpassed hf hd hk hlaid hroom
    (fun _ _ _ ho => ho.beside hcount hlo) (fun _ _ ho => ho)
    fun _ hspan hdeclarators => Or.inr ⟨rfl, hspan, hdeclarators⟩

theorem After.readDeclarators {count : Nat} (hcount : count ≠ 1) (hlo : lo ≤ n.span.start)
    (hlaid : Laid (.ofText source) n) {f : TypeFrame} (ds : List Node) :
    ∀ {r : Reader}, Coherent source r → Unique r.decls → r.path = path →
      Placed source path r.topLevel r.decls → Passed r.frames r.decls (Sharing lo count n) →
      r.owner? = some f → (∀ d ∈ ds, Tidy source d ∧ d.kind = .variableDeclarator) →
      Around r (fun t => ∀ o, o.span = n.span → Holds t .field o) →
      After source path r (ds.foldl (Reader.readDeclarator n count f.id) r)
        (Sharing lo count n) := by
  induction ds with
  | nil => exact fun _ _ _ hplaced hpassed _ _ _ => ⟨rfl, hplaced, hpassed, rfl, fun _ _ he _ => he⟩
  | cons d ds ih =>
    intro r hc hu hpath hplaced hpassed hf hds hroom
    obtain ⟨hd, hk⟩ := hds d List.mem_cons_self
    have hfirst := After.readShared hcount hlo hlaid hc hu hpath hplaced hpassed hf hd hk hroom
    obtain ⟨hnext, hframes⟩ := hc.readDeclarator n count hf hd hk
    have hf' : (Reader.readDeclarator n count f.id r d).owner? = some f := by
      unfold owner?
      rw [hframes]
      exact hf
    have hrest := ih hnext (hu.readDeclarator hc n count f.id hd hk)
      (hfirst.path_eq.trans hpath) hfirst.placed hfirst.passed hf'
      (fun d' hd' => hds d' (List.mem_cons_of_mem _ hd')) (hroom.keeps hframes hfirst.types)
    exact hfirst.trans hrest

theorem Ready.room (h : Ready source path r lo [n] hi) (hk : n.kind = .fieldDeclaration) :
    Around r fun t => ∀ o, o.span = n.span → Holds t .field o := by
  intro g hg
  obtain ⟨T, t, hT, htype, hid, hout, ht⟩ := h.around g hg
  refine ⟨T, t, hT, htype, hid, hout, fun o hspan => ?_⟩
  obtain ⟨T', t', hT', -, -, hout', hholds⟩ := h.holds hspan (Or.inr (by simp [Idle, hk])) g hg
  obtain rfl := Option.some.inj (hT.symm.trans hT')
  rw [hout] at hout'
  obtain ⟨rfl, -⟩ := List.cons.inj hout'
  exact hholds

theorem Ready.readField (h : Ready source path r lo [n] hi) (hc : Coherent source r)
    (hu : Unique r.decls) (hn : Tidy source n) (hk : n.kind = .fieldDeclaration) :
    After source path r (r.readField n) (Ended hi) := by
  unfold Reader.readField
  split
  · exact .refl h
  rename_i f hf
  obtain ⟨hstart, hlt, hrest⟩ := h.stands.head
  have hle := hrest.le
  have hlaid := h.stands.laid n (by simp)
  have hroom := h.room hk
  dsimp only
  have hds : ∀ d ∈ n.childrenIn .declarator, Tidy source d ∧ d.kind = .variableDeclarator :=
    fun d hd => hn.declarator hd
  generalize n.childrenIn .declarator = ds at hds ⊢
  by_cases hone : ds.length = 1
  · obtain ⟨d, rfl⟩ := List.length_eq_one_iff.mp hone
    obtain ⟨hd, hk⟩ := hds d (by simp)
    rw [List.foldl_cons, List.foldl_nil]
    refine After.readDeclarator hc hu h.path_eq h.placed h.passed hf hd hk hlaid hroom
      (fun k o o' hended hspan _ => hended.beside hstart hspan) ?_ ?_
    · exact fun k o hended => Nat.le_trans hended (by omega)
    · intro o hspan _
      show o.span.stop ≤ hi
      rw [hspan]
      exact hle
  · have hall := After.readDeclarators hone hstart hlaid ds hc hu h.path_eq h.placed
      (fun i e he hopen o ho => Or.inl (h.passed i e he hopen o ho)) hf hds hroom
    refine ⟨hall.path_eq, hall.placed, fun i e he hopen o ho => ?_, hall.frames, hall.types⟩
    show o.span.stop ≤ hi
    rcases hall.passed i e he hopen o ho with hbefore | ⟨-, hspan, -⟩
    · omega
    · rw [hspan]
      exact hle

/-- In the body of an enum a constant ends before the other members begin. -/
theorem constant_before_members {a m : Node} (h : Stands source lo ns hi)
    (horder : ns.Pairwise fun a b => a.kind = .enumMembers → b.kind ≠ .enumConstant) (ha : a ∈ ns)
    (hm : m ∈ ns) (hak : a.kind = .enumConstant) (hmk : m.kind = .enumMembers) :
    a.span.stop ≤ m.span.start := by
  induction ns generalizing lo with
  | nil => cases ha
  | cons n ns ih =>
    obtain ⟨-, -, hrest⟩ := h.head
    obtain ⟨hn, hns⟩ := List.pairwise_cons.mp horder
    rcases List.mem_cons.mp ha with rfl | ha'
    · rcases List.mem_cons.mp hm with rfl | hm'
      · rw [hak] at hmk
        cases hmk
      · exact (hrest.bounds m hm').1
    · rcases List.mem_cons.mp hm with rfl | hm'
      · exact absurd hak (hn a ha' hmk)
      · exact ih hrest hns ha' hm'

theorem constantSpan?_places {b : Node} (hb : Laid (.ofText source) b) {c : Span}
    (hc : constantSpan? b = some c) : Text.Cut source c.start ∧ Text.Cut source c.stop ∧
      c.start ≤ c.stop ∧ ∀ m ∈ b.children, Idle m ∨ c.stop ≤ m.span.start := by
  unfold constantSpan? at hc
  split at hc
  · rename_i hk
    have hk : b.kind = .enumBody := by simpa using hk
    have hstands := Stands.children hb
    have hconstants := hstands.filter (·.kind == .enumConstant)
    dsimp only at hc
    split at hc
    · rename_i first last hfirst hlast
      obtain rfl := Option.some.inj hc
      have hmem := List.mem_of_getLast? hlast
      obtain ⟨hlastmem, hlastkind⟩ := List.mem_filter.mp hmem
      have hle : first.span.start ≤ last.span.stop := by
        obtain ⟨rest, hrest⟩ := List.head?_eq_some_iff.mp hfirst
        rw [hrest] at hconstants hmem
        obtain ⟨-, hlt, hbehind⟩ := hconstants.head
        rcases List.mem_cons.mp hmem with rfl | hmem
        · exact Nat.le_of_lt hlt
        · have hbounds := hbehind.bounds last hmem
          have hnonempty := (hstands.laid last hlastmem).nonempty
          omega
      refine ⟨?_, (hstands.laid last hlastmem).cuts.2, hle, fun m hm => ?_⟩
      · exact (hstands.laid first (List.mem_filter.mp (List.mem_of_head? hfirst)).1).cuts.1
      · have hparts := hb.enumParts hk
        rcases hparts.kinds m hm with hkind | hkind | hkind | hkind
        · exact Or.inl (Or.inl hkind)
        · exact Or.inl (Or.inr (Or.inl hkind))
        · exact Or.inl (Or.inr (Or.inr hkind))
        · exact Or.inr (constant_before_members hstands hparts.order hlastmem hm
            (by simpa using hlastkind) hkind)
    · cases hc
  · cases hc

structure Opened (source : List Char) (path : Path) (r inner : Reader) (n : Node) (lo : Nat) :
    Prop where
  path_eq : inner.path = r.path
  placed : Placed source path inner.topLevel inner.decls
  passed : Passed inner.frames inner.decls (Ended lo)
  frames : ∃ f, inner.frames = r.frames ++ [f] ∧ f.index = r.decls.length
  type : ∃ d t, inner.decls = r.decls ++ [d] ∧ d.kind.isType = true ∧ d.outlines = [t] ∧
    t.span = n.span
  body : ∀ b, n.child? .body = some b →
    Ready source path inner b.span.start b.children b.span.stop

theorem outlined_typeOutline (h : Laid (.ofText source) n) :
    Outlined source (r.typeOutline n) where
  start := h.cuts.1
  stop := h.cuts.2
  nonempty := h.nonempty
  body b hb := encloses_child h hb
  constants c hc := by
    obtain ⟨b, hb, hspan⟩ := Option.bind_eq_some_iff.mp hc
    obtain ⟨hfirst, hlast, hle, -⟩ := constantSpan?_places (h.children b (child?_mem hb)) hspan
    exact ⟨hfirst, hlast, hle⟩

theorem Ready.newcomer (h : Ready source path r lo [n] hi) (hc : Coherent source r)
    (hu : Unique r.decls) {kind : Declaration.Kind} (hn : Tidy source n)
    (hk : n.kind ≠ .annotationMark) (hidle : ¬ Idle n) {c : Node} {inner : Reader}
    (ho : Opens kind n c r inner) :
    Newcomer source path inner.topLevel r.decls (r.typeDeclaration kind n c) (r.typeOutline n) := by
  obtain ⟨hstart, -, -⟩ := h.stands.head
  have hparent : (r.typeDeclaration kind n c).parent = r.owner?.map (·.id) := rfl
  refine ⟨rfl, congrArg some h.path_eq, rfl, outlined_typeOutline (h.stands.laid n (by simp)),
    fun hnone => ?_, fun _ => ⟨?_, ?_⟩, ?_, ?_⟩
  · have hempty : r.frames = [] := by
      rw [hparent] at hnone
      simpa [owner?] using hnone
    have hid : (r.typeDeclaration kind n c).id = r.typeId (r.text c) := rfl
    rw [ho.topLevel, hid]
    simp [hempty]
  · rw [hparent]
    intro howner
    obtain ⟨f, hf, hsame⟩ := Option.map_eq_some_iff.mp howner
    have hbelow : Below f.id (r.typeId (r.text c)) :=
      ⟨_, hc.dotless hn hk ho.name, by simp [typeId, hf]⟩
    have hgrow := length_of_below hbelow
    rw [hsame] at hgrow
    exact absurd hgrow (Nat.lt_irrefl _)
  · intro e he hwithin
    obtain ⟨entry, hentry, rfl⟩ := List.mem_map.mp he
    obtain ⟨T, hT, -, hsame⟩ := hc.parents entry hentry _ hwithin
    exact ho.free _ (List.mem_map_of_mem hT) hsame
  · intro T hT _ howner
    rw [hparent] at howner
    obtain ⟨f, hf, hsame⟩ := Option.map_eq_some_iff.mp howner
    exact (h.holds rfl (Or.inr hidle)).apply hu hf hT hsame.symm
  · intro e he hsame o ho
    obtain ⟨j, hj⟩ := List.mem_iff_getElem?.mp he
    exact Or.inl (Or.inr
      (Nat.le_trans (h.passed j e hj (hc.closed hj (hsame.trans hparent)) o ho) hstart))

theorem Ready.openType? (h : Ready source path r lo [n] hi) (hc : Coherent source r)
    (hu : Unique r.decls) {kind : Declaration.Kind} (htype : kind.isType = true)
    (hn : Tidy source n) (hk : n.kind ≠ .annotationMark) (hidle : ¬ Idle n) {inner : Reader}
    (hopen : r.openType? kind n = some inner) : Opened source path r inner n lo := by
  obtain ⟨c, ho⟩ := openType?_opens hopen
  obtain ⟨f, hframes, hindex, hid⟩ := ho.frames
  have hlaid := h.stands.laid n (by simp)
  have hstart := h.stands.head.1
  have hplaced : Placed source path inner.topLevel inner.decls := by
    rw [ho.decls]
    refine (h.placed.mono ?_).append (h.newcomer hc hu hn hk hidle ho)
    rw [ho.topLevel]
    split
    · exact List.subset_append_left _ _
    · exact fun _ ht => ht
  have hpassed : Passed inner.frames inner.decls (Ended lo) := by
    rw [hframes, ho.decls]
    intro i e he hopen o ho
    rcases getElem?_concat_cases he with hold | ⟨hi, -⟩
    · exact h.passed i e hold (fun g hg => hopen g (List.mem_append_left _ hg)) o ho
    · exact absurd (hindex.trans hi.symm) (hopen f (by simp))
  refine ⟨ho.path, hplaced, hpassed, ⟨f, hframes, hindex⟩,
    ⟨_, _, ho.decls, htype, rfl, rfl⟩, fun b hb => ?_⟩
  have hbmem := child?_mem hb
  have hblaid := hlaid.children b hbmem
  refine ⟨ho.path.trans h.path_eq, hplaced, fun i e he hopen o ho => ?_, Stands.children hblaid,
    fun g hg => ?_⟩
  · have hinside := (Stands.children hlaid).bounds b hbmem
    exact Nat.le_trans (hpassed i e he hopen o ho) (by omega)
  · unfold owner? at hg
    rw [hframes, List.getLast?_concat] at hg
    obtain rfl := Option.some.inj hg
    refine ⟨_, r.typeOutline n, by rw [ho.decls, hindex, List.getElem?_concat_length], htype,
      hid.symm, rfl, ⟨b.span, ?_, Nat.le_refl _, Nat.le_refl _⟩, fun c hconstants => ?_⟩
    · simp [typeOutline, hb]
    · simp only [typeOutline, hb, Option.bind_some] at hconstants
      exact (constantSpan?_places hblaid hconstants).2.2.2

theorem Opened.close {inner r'' : Reader} (h : Opened source path r inner n lo)
    (k : After source path inner r'' (Ended hi)) (hle : n.span.stop ≤ hi) :
    After source path r r''.closeType (Ended hi) := by
  obtain ⟨f, hframes, hindex⟩ := h.frames
  obtain ⟨d, t, hdecls, htype, houtlines, hspan⟩ := h.type
  have hclosed : r''.closeType.frames = r.frames := by
    unfold closeType
    rw [k.frames, hframes, List.dropLast_concat]
  have hstay : r''.decls[r.decls.length]? = some d :=
    k.types _ d (by rw [hdecls, List.getElem?_concat_length]) htype
  refine ⟨k.path_eq.trans h.path_eq, k.placed, fun i e he hopen o ho => ?_, hclosed, ?_⟩
  · by_cases hi : i = r.decls.length
    · subst hi
      obtain rfl := Option.some.inj (hstay.symm.trans he)
      rw [houtlines] at ho
      rw [List.mem_singleton.mp ho]
      show t.span.stop ≤ _
      rwa [hspan]
    · refine k.passed i e he (fun g hg => ?_) o ho
      rw [k.frames, hframes] at hg
      rcases List.mem_append.mp hg with hg | hg
      · exact hopen g (hclosed ▸ hg)
      · rw [List.mem_singleton.mp hg, hindex]
        exact Ne.symm hi
  · intro i e he hetype
    refine k.types i e ?_ hetype
    rw [hdecls]
    exact getElem?_concat_old he

theorem typeKind?_idle {k : Kind} {kind : Declaration.Kind} (h : typeKind? k = some kind) :
    k ≠ .token ∧ k ≠ .comment ∧ k ≠ .enumConstant := by
  unfold typeKind? at h
  split at h <;> simp_all

mutual
theorem Ready.readMember : ∀ {n : Node} {r : Reader} {lo hi : Nat}, Tidy source n →
    Coherent source r → Unique r.decls → Ready source path r lo [n] hi →
    After source path r (Reader.readMember n r) (Ended hi)
  | .mk k role e cs, r, lo, hi, hn, hc, hu, h => by
    unfold Reader.readMember
    dsimp only
    obtain ⟨hstart, hlt, hrest⟩ := h.stands.head
    split
    · exact h.readCallable hc hu rfl hn (by simp [Node.kind]) (by simp [Idle, Node.kind])
    · exact h.readCallable hc hu rfl hn (by simp [Node.kind]) (by simp [Idle, Node.kind])
    · exact h.readCallable hc hu rfl hn (by simp [Node.kind]) (by simp [Idle, Node.kind])
    · exact h.readCallable hc hu rfl hn (by simp [Node.kind]) (by simp [Idle, Node.kind])
    · exact h.readField hc hu hn rfl
    · exact h.readConstant hc hu hn (by simp [Node.kind])
    · have hinner := h.inner (by simp [Idle, Node.kind])
      exact (Ready.readMembers hn.children hc hu hinner).mono hrest.le
    · exact .propagate h _
    · exact .propagate h _
    · split
      · rename_i kind hkind
        obtain ⟨htype, hk⟩ := typeKind?_isType hkind
        split
        · rename_i inner hopen
          have hidle : ¬ Idle (.mk k role e cs) := by
            have := typeKind?_idle hkind
            simpa [Idle, Node.kind] using this
          have hopened := h.openType? hc hu htype hn hk hidle hopen
          have hlaid := h.stands.laid _ (List.mem_singleton_self _)
          have hread := Ready.readBody hn.children (hc.openType? htype hn hk hopen)
            (hu.openType? hc hn hk hopen) hopened.placed
            (passed_mono hopened.passed h.stands.le)
            fun b hb => ⟨?_, hopened.body b hb⟩
          · exact hopened.close hread hrest.le
          · exact Nat.le_trans ((Stands.children hlaid).bounds b (child?_mem hb)).2 hrest.le
        · exact .refl h
      · exact .refl h

theorem Ready.readMembers : ∀ {ns : List Node} {r : Reader} {lo hi : Nat},
    (∀ n ∈ ns, Tidy source n) → Coherent source r → Unique r.decls →
    Ready source path r lo ns hi → After source path r (Reader.readMembers ns r) (Ended hi)
  | [], r, lo, hi, _, _, _, h => by
    unfold Reader.readMembers
    exact .refl h
  | n :: ns, r, lo, hi, hns, hc, hu, h => by
    unfold Reader.readMembers
    have hn := hns n List.mem_cons_self
    have hfirst := Ready.readMember hn hc hu h.head
    exact hfirst.trans (Ready.readMembers (fun m hm => hns m (List.mem_cons_of_mem _ hm))
      (hc.readMember hn) (Unique.readMember hn hc hu) (h.tail hfirst))

theorem Ready.readBody : ∀ {ns : List Node} {r : Reader} {hi : Nat},
    (∀ n ∈ ns, Tidy source n) → Coherent source r → Unique r.decls →
    Placed source path r.topLevel r.decls → Passed r.frames r.decls (Ended hi) →
    (∀ b, ns.find? (·.role == some .body) = some b →
      b.span.stop ≤ hi ∧ Ready source path r b.span.start b.children b.span.stop) →
    After source path r (Reader.readBody ns r) (Ended hi)
  | [], r, hi, _, _, _, hplaced, hpassed, _ => by
    unfold Reader.readBody
    exact ⟨rfl, hplaced, hpassed, rfl, fun _ _ he _ => he⟩
  | .mk k role e inner :: ns, r, hi, hns, hc, hu, hplaced, hpassed, hbody => by
    unfold Reader.readBody
    split
    · rename_i hrole
      obtain ⟨hle, hready⟩ := hbody (.mk k role e inner) (by simp [Node.role, hrole])
      exact (Ready.readMembers (hns _ List.mem_cons_self).children hc hu hready).mono hle
    · rename_i hrole
      refine Ready.readBody (fun m hm => hns m (List.mem_cons_of_mem _ hm)) hc hu hplaced hpassed
        fun b hb => hbody b ?_
      simpa [Node.role, hrole] using hb
end

end Reader

theorem Placed.nil (source : List Char) (path : Path) : Placed source path [] [] := by
  constructor <;> simp

/-- The declarations of a file stand where their outlines say. -/
theorem SourceTree.placed (s : SourceTree) :
    Placed s.text.toList s.path s.read.topLevel (s.read.entries.map (·.decl)) := by
  have hstart : Reader.Ready s.text.toList s.path s.start 0 s.tree.root.topTypes
      (Text.byteLength s.text.toList) := by
    refine ⟨rfl, .nil _ _, fun i d hd => ?_, s.tree.stands.filter _, fun f hf => by cases hf⟩
    simp [Reader.decls_start] at hd
  exact (Reader.Ready.readMembers s.topTypes_tidy (.start s) (.start s) hstart).placed

/-! ### The files of a project -/

section

variable {sources : List SourceText} {f : SourceFile}

theorem mem_readAll (hf : f ∈ Index.readAll sources) : ∃ s : SourceText,
    Index.accepts s.path = true ∧ f = readSource s.text s.path s.provenance := by
  obtain ⟨s, hs, rfl⟩ := List.mem_map.mp hf
  exact ⟨s, (List.mem_filter.mp hs).2, rfl⟩

theorem readAll_consistent (hf : f ∈ Index.readAll sources) : Consistent f := by
  obtain ⟨s, -, rfl⟩ := mem_readAll hf
  exact s.parsed.consistent

theorem readAll_placed (hf : f ∈ Index.readAll sources) :
    Placed f.text.toList f.path f.topLevel (f.entries.map (·.decl)) := by
  obtain ⟨s, -, rfl⟩ := mem_readAll hf
  exact s.parsed.placed

theorem readAll_located (hf : f ∈ Index.readAll sources) :
    ∀ e ∈ f.entries, e.decl.path? = some f.path :=
  fun _ he => (readAll_placed hf).located _ (List.mem_map_of_mem he)

theorem readAll_namedOnce (h : (Index.readAll sources).Pairwise fun f g =>
    ∀ d ∈ f.entries, ∀ e ∈ g.entries, d.decl.id ≠ e.decl.id) :
    Index.NamedOnce (Index.readAll sources) := by
  unfold Index.NamedOnce
  rw [List.map_flatMap, List.nodup_flatMap]
  constructor
  · intro f hf
    obtain ⟨s, -, rfl⟩ := mem_readAll hf
    exact s.parsed.distinct
  · refine h.imp fun hfg => ?_
    intro id hid hid'
    obtain ⟨d, hd, rfl⟩ := List.mem_map.mp hid
    obtain ⟨e, he, heq⟩ := List.mem_map.mp hid'
    exact hfg d hd e he heq.symm

theorem readAll_apart (h : sources.Pairwise fun s s' => ¬ s.path.Same s'.path) :
    (Index.readAll sources).Pairwise fun f g => ¬ f.path.Same g.path :=
  List.pairwise_map.mpr (h.filter _)

end

end Java

end Carve
