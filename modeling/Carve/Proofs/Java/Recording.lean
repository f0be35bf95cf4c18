import Carve.Proofs.Java.Merging
import Mathlib.Logic.Function.Basic

/-!
# Recording what is read

While the reader is in the bodies of some types, it has merged what it has read of their members so
far, and of every other type all members. Each step keeps this: a member counts for the innermost
type only, a type that is opened has no members yet, and one that is closed has all of them.
-/

namespace Carve

namespace Java

open QName

def grow (done : QName → List Written) (owner : QName) (ws : List Written) :
    QName → List Written :=
  Function.update done owner (done owner ++ ws)

section

variable {done : QName → List Written} {owner id : QName} {ws ws' : List Written}

@[simp] theorem grow_self : grow done owner ws owner = done owner ++ ws :=
  Function.update_self ..

theorem grow_of_ne (h : id ≠ owner) : grow done owner ws id = done id :=
  Function.update_of_ne h ..

@[simp] theorem grow_nil : grow done owner [] = done := by
  unfold grow
  rw [List.append_nil, Function.update_eq_self]

@[simp] theorem grow_grow : grow (grow done owner ws) owner ws' = grow done owner (ws ++ ws') := by
  unfold grow
  rw [Function.update_self, Function.update_idem, List.append_assoc]

end

/-- The declarations have all members of a type that was read. -/
def Told (s : SourceTree) (T : Declaration) (ds : List Declaration) : Prop :=
  ∃ n ∈ s.tree.root.nodes, ReadFrom s.text.toList s.path T n ∧
    (Apart (n.members s.text.toList T) → Merged s T.id (n.members s.text.toList T) ds)

theorem Told.congr {s : SourceTree} {T : Declaration} {ds ds' : List Declaration}
    (h : Told s T ds) (hsame : ∀ d, d.parent = some T.id → (d ∈ ds' ↔ d ∈ ds)) : Told s T ds' := by
  obtain ⟨n, hn, hread, hmerged⟩ := h
  exact ⟨n, hn, hread, fun hapart => (hmerged hapart).congr fun d hparent _ => hsame d hparent⟩

namespace Reader

/-- So much of the open types has been read, and all of the others. -/
structure Recorded (s : SourceTree) (done : QName → List Written) (r : Reader) : Prop where
  path_eq : r.path = s.path
  provenance_eq : r.provenance = s.provenance
  coherent : Coherent s.text.toList r
  unique : Unique r.decls
  apt : ∀ d ∈ r.decls, Apt r.package d
  opened : ∀ f ∈ r.frames, Apart (done f.id) → Merged s f.id (done f.id) r.decls
  closed : ∀ T ∈ r.decls, T.kind.isType = true → (∀ f ∈ r.frames, f.id ≠ T.id) → Told s T r.decls

structure Records (s : SourceTree) (done : QName → List Written) (r r' : Reader) : Prop where
  recorded : Recorded s done r'
  frames : r'.frames = r.frames
  types : ∀ T ∈ r.decls, T.kind.isType = true → T ∈ r'.decls

section

variable {s : SourceTree} {done done' : QName → List Written} {r r' r'' : Reader}
  {f : TypeFrame} {T d : Declaration} {own : List UseSite} {ws : List Written} {w : Written}
  {k : MemberKind} {n c : Node}

theorem Recorded.refl (h : Recorded s done r) : Records s done r r := ⟨h, rfl, fun _ hT _ => hT⟩

theorem Records.trans (h : Records s done r r') (k : Records s done' r' r'') :
    Records s done' r r'' :=
  ⟨k.recorded, k.frames.trans h.frames, fun T hT htype => k.types T (h.types T hT htype) htype⟩

theorem Records.owner? (h : Records s done r r') : r'.owner? = r.owner? := by
  unfold Reader.owner?
  rw [h.frames]

theorem mem_decls {d : Declaration} : d ∈ r.decls ↔ ∃ e ∈ r.entries, e.decl = d := List.mem_map

theorem Recorded.frame_type (h : Recorded s done r) (hf : f ∈ r.frames) :
    ∃ T ∈ r.decls, T.kind.isType = true ∧ T.id = f.id := by
  obtain ⟨k, hk⟩ := List.mem_iff_getElem?.mp hf
  obtain ⟨e, he, hid, htype, -⟩ := h.coherent.framed k f hk
  exact ⟨e.decl, mem_decls.mpr ⟨e, List.mem_of_getElem? he, rfl⟩, htype, hid⟩

/-- Only members of a type are called by it, since a type at the top is called by the package. -/
theorem Recorded.reserved (h : Recorded s done r) (hT : T ∈ r.decls)
    (htype : T.kind.isType = true) : Reserved T.id r.decls := by
  intro e he hbelow
  obtain ⟨entry, hentry, rfl⟩ := mem_decls.mp he
  cases hp : entry.decl.parent with
  | some p => rw [(h.coherent.named entry hentry p hp).owner_eq hbelow]
  | none =>
    have hetype : entry.decl.kind.isType = true := by
      by_contra hmember
      exact h.coherent.members entry hentry (Bool.eq_false_iff.mpr hmember) hp
    obtain ⟨p, hpackage, hid⟩ := ((h.apt _ he).top hetype hp).of_below hbelow
    have hwithin := (h.apt T hT).within htype p hpackage
    rw [hid] at hwithin
    exact absurd hwithin (Nat.lt_irrefl _)

theorem Recorded.frame_reserved (h : Recorded s done r) (hf : f ∈ r.frames) :
    Reserved f.id r.decls := by
  obtain ⟨T, hT, htype, hid⟩ := h.frame_type hf
  exact hid ▸ h.reserved hT htype

/-! ### Adding members -/

/-- A member of the innermost type is of no account for any other. -/
theorem Recorded.addMember (h : Recorded s done r) (hf : r.owner? = some f)
    (hparent : d.parent = some f.id) (hbelow : Below f.id d.id) (hmember : d.kind.isType = false)
    (hplain : ∀ p : QName, d.id ≠ p.methodAlias) (hapt : Apt r.package d)
    (hcoherent : Coherent s.text.toList (r.addMember d own))
    (hmerged : ∀ ds', Added r.decls d ds' → Apart (done f.id ++ ws) →
      Merged s f.id (done f.id) r.decls → Merged s f.id (done f.id ++ ws) ds') :
    Records s (grow done f.id ws) r (r.addMember d own) := by
  have hadded := addMember_added r d own h.unique
  have hunique := h.unique.addMember own hplain
  have hfmem : f ∈ r.frames := List.mem_of_getLast? hf
  have hspared : ∀ id, id ≠ f.id → ∀ a, a.parent = some id →
      (a ∈ (r.addMember d own).decls ↔ a ∈ r.decls) := by
    intro id hid a ha
    refine spared_of_added (h.frame_reserved hfmem) hparent hbelow hadded ?_
    rw [ha]
    exact fun heq => hid (Option.some.inj heq)
  obtain ⟨es, hes⟩ := addMember_eq r d own
  have hframes : (r.addMember d own).frames = r.frames := by rw [hes]
  have hpackage : (r.addMember d own).package = r.package := by rw [hes]
  refine ⟨⟨?_, ?_, hcoherent, hunique, ?_, ?_, ?_⟩, hframes, ?_⟩
  · rw [hes]
    exact h.path_eq
  · rw [hes]
    exact h.provenance_eq
  · rw [hpackage]
    exact Apt.added h.apt hapt hadded
  · rw [hframes]
    intro g hg hapart
    by_cases hid : g.id = f.id
    · rw [hid, grow_self] at hapart ⊢
      exact hmerged _ hadded hapart (h.opened f hfmem hapart.left)
    · rw [grow_of_ne hid] at hapart ⊢
      exact (h.opened g hg hapart).congr fun a ha _ => hspared g.id hid a ha
  · rw [hframes]
    intro T hT htype hclosed
    have hold := type_of_added hmember hadded T hT htype
    exact (h.closed T hold htype hclosed).congr fun a ha =>
      hspared T.id (Ne.symm (hclosed f hfmem)) a ha
  · intro T hT htype
    obtain ⟨i, hi⟩ := List.mem_iff_getElem?.mp hT
    exact List.mem_of_getElem? (keeps_added hmember hadded i T hi htype)

theorem Recorded.declaration_eq (h : Recorded s done r) (hf : r.owner? = some f) (name : String)
    (kind : Declaration.Kind) (n : Node) (outline : Outline) :
    r.declaration (f.id.member name) name kind n outline =
      Written.alone s f.id ⟨kind, name, n.range, outline⟩ := by
  simp [declaration, Written.alone, hf, h.path_eq, h.provenance_eq]

theorem Recorded.addWritten (h : Recorded s done r) (hf : r.owner? = some f) (hx : Word w.name)
    (hw : w.kind = k.kind)
    (hcoherent : Coherent s.text.toList (r.addMember (w.alone s f.id) own)) :
    Records s (grow done f.id [w]) r (r.addMember (w.alone s f.id) own) := by
  have hmember : w.kind.isType = false ∧ w.kind ≠ .ctor := by
    rw [hw]
    cases k <;> decide
  have hplain : ∀ p : QName, f.id.member w.name ≠ p.methodAlias := member_ne_alias hx.plain
  have hfmem : f ∈ r.frames := List.mem_of_getLast? hf
  refine h.addMember hf rfl ⟨w.name, hx.dotless, rfl⟩ hmember.1 hplain ?_ hcoherent ?_
  · exact apt_of_member hmember.1 (fun hctor => absurd hctor hmember.2) hplain
  · exact fun ds' hadded hapart hmerged =>
      hmerged.added h.unique h.apt (h.frame_reserved hfmem) hx hw hapart hadded

theorem Recorded.outside (h : Recorded s done r) (hnobody : r.owner? = none) :
    Records s done' r r := by
  have hframes : r.frames = [] := List.getLast?_eq_none_iff.mp hnobody
  refine ⟨⟨h.path_eq, h.provenance_eq, h.coherent, h.unique, h.apt, ?_, h.closed⟩, rfl,
    fun _ hT _ => hT⟩
  simp [hframes]

def Owns (r : Reader) (T : Declaration) : Prop :=
  ∀ f, r.owner? = some f → T.id = f.id ∧ T.kind = f.kind

theorem Owns.of_records (h : Owns r T) (k : Records s done r r') : Owns r' T := by
  intro f hf
  exact h f (k.owner? ▸ hf)

theorem Recorded.readMethod (h : Recorded s done r) (hT : Owns r T) (hn : Tidy s.text.toList n)
    (hk : n.kind ≠ .annotationMark) :
    Records s (grow done T.id (n.writtenMethod? s.text.toList).toList) r
      (r.readCallable .method n) := by
  have hcoherent : Coherent s.text.toList (r.readCallable .method n) :=
    h.coherent.readCallable rfl hn hk
  cases hf : r.owner? with
  | none =>
    have hidle : r.readCallable .method n = r := by simp [Reader.readCallable, hf]
    rw [hidle]
    exact h.outside hf
  | some f =>
    obtain ⟨hid, -⟩ := hT f hf
    cases hc : n.child? .name with
    | none =>
      have hidle : r.readCallable .method n = r := by simp [Reader.readCallable, hf, hc]
      rw [hidle]
      simpa [Node.writtenMethod?, hc] using h.refl
    | some c =>
      have hread : r.readCallable .method n = r.addMember (Written.alone s f.id
          ⟨.method, r.text c, n.range, n.callableOutline s.text.toList⟩) (r.callableSites n) := by
        rw [← h.declaration_eq hf, ← h.coherent.source_eq]
        simp only [Reader.readCallable, hf, hc]
        rfl
      rw [hread] at hcoherent ⊢
      have hx : Word (r.text c) := h.coherent.wordChars hn hk hc
      have htext : c.text s.text.toList = r.text c := by rw [Reader.text, h.coherent.source_eq]
      simpa [Node.writtenMethod?, hc, hid, htext] using
        h.addWritten (k := .method) hf hx rfl hcoherent

theorem Recorded.readCtor (h : Recorded s done r) (hn : Tidy s.text.toList n)
    (hk : n.kind ≠ .annotationMark) : Records s done r (r.readCallable .ctor n) := by
  have hcoherent : Coherent s.text.toList (r.readCallable .ctor n) :=
    h.coherent.readCallable rfl hn hk
  cases hf : r.owner? with
  | none =>
    have hidle : r.readCallable .ctor n = r := by simp [Reader.readCallable, hf]
    rw [hidle]
    exact h.refl
  | some f =>
    have hread : r.readCallable .ctor n = r.addMember
        (r.declaration f.id.ctor f.id.simple .ctor n (n.callableOutline s.text.toList))
        (r.callableSites n) := by
      rw [← h.coherent.source_eq]
      simp only [Reader.readCallable, hf]
      rfl
    rw [hread] at hcoherent ⊢
    have hplain : ∀ p : QName, f.id.ctor ≠ p.methodAlias := member_ne_alias (by decide)
    have hadd : Records s (grow done f.id []) r _ := h.addMember hf (by simp [declaration, hf])
      ⟨ctorName, by decide, rfl⟩ rfl hplain
      (apt_of_member rfl (fun _ => ⟨f.id, rfl⟩) hplain) hcoherent fun ds' hadded _ hmerged => by
          rw [List.append_nil]
          exact hmerged.added_ctor (h.frame_reserved (List.mem_of_getLast? hf)) rfl rfl hadded
    rwa [grow_nil] at hadd

theorem Recorded.readDeclarator (h : Recorded s done r) (hf : r.owner? = some f) (n : Node)
    (count : Nat) {d : Node} (hd : Tidy s.text.toList d) (hk : d.kind = .variableDeclarator) :
    Records s (grow done f.id (n.writtenField? s.text.toList count d).toList) r
      (Reader.readDeclarator n count f.id r d) := by
  obtain ⟨hcoherent, -⟩ := h.coherent.readDeclarator n count hf hd hk
  cases hc : d.child? .name with
  | none =>
    have hidle : Reader.readDeclarator n count f.id r d = r := by
      simp [Reader.readDeclarator, hc]
    rw [hidle]
    simpa [Node.writtenField?, hc] using h.refl
  | some c =>
    have hread : ∃ own, Reader.readDeclarator n count f.id r d = r.addMember (Written.alone s f.id
        ⟨.field, r.text c, n.range, n.fieldOutline s.text.toList d c count⟩) own := by
      rw [← h.declaration_eq hf, ← h.coherent.source_eq]
      simp only [Reader.readDeclarator, hc]
      exact ⟨_, rfl⟩
    obtain ⟨own, hread⟩ := hread
    rw [hread] at hcoherent ⊢
    have hx : Word (r.text c) := h.coherent.wordChars hd (by simp [hk]) hc
    have htext : c.text s.text.toList = r.text c := by rw [Reader.text, h.coherent.source_eq]
    simpa [Node.writtenField?, hc, htext] using h.addWritten (k := .field) hf hx rfl hcoherent

theorem Recorded.readDeclarators (n : Node) (count : Nat) (ds : List Node) :
    ∀ {r : Reader} {done : QName → List Written}, Recorded s done r → r.owner? = some f →
      (∀ d ∈ ds, Tidy s.text.toList d ∧ d.kind = .variableDeclarator) →
      Records s (grow done f.id (ds.filterMap (n.writtenField? s.text.toList count))) r
        (ds.foldl (Reader.readDeclarator n count f.id) r) := by
  induction ds with
  | nil =>
    intro r done h _ _
    simpa using h.refl
  | cons d ds ih =>
    intro r done h hf hds
    obtain ⟨hd, hk⟩ := hds d List.mem_cons_self
    have hfirst := h.readDeclarator hf n count hd hk
    have hrest := ih hfirst.recorded (hfirst.owner?.trans hf)
      fun d' hd' => hds d' (List.mem_cons_of_mem _ hd')
    have hboth := hfirst.trans hrest
    rw [grow_grow] at hboth
    rwa [List.filterMap_eq_flatMap_toList, List.flatMap_cons, ← List.filterMap_eq_flatMap_toList]

theorem Recorded.readField (h : Recorded s done r) (hT : Owns r T) (hn : Tidy s.text.toList n) :
    Records s (grow done T.id (n.writtenFields s.text.toList)) r (r.readField n) := by
  unfold Reader.readField
  split
  · rename_i hf
    exact h.outside hf
  · rename_i f hf
    rw [(hT f hf).1]
    exact h.readDeclarators n _ _ hf fun d hd => hn.declarator hd

theorem Recorded.readConstant (h : Recorded s done r) (hT : Owns r T)
    (hn : Tidy s.text.toList n) (hk : n.kind ≠ .annotationMark) :
    Records s (grow done T.id (if T.kind == .enumType then
      (n.writtenConstant? s.text.toList T.id).toList else [])) r (r.readConstant n) := by
  have hcoherent := h.coherent.readConstant hn hk
  cases hf : r.owner? with
  | none =>
    have hidle : r.readConstant n = r := by simp [Reader.readConstant, hf]
    rw [hidle]
    exact h.outside hf
  | some f =>
    obtain ⟨hid, hkind⟩ := hT f hf
    by_cases henum : f.kind == .enumType
    · rw [hkind, if_pos henum, hid]
      cases hc : n.child? .name with
      | none =>
        have hidle : r.readConstant n = r := by simp [Reader.readConstant, hf, hc]
        rw [hidle]
        simpa [Node.writtenConstant?, hc] using h.refl
      | some c =>
        have hread : ∃ own, r.readConstant n = r.addMember (Written.alone s f.id
            ⟨.field, r.text c, n.range, n.constantOutline f.id⟩) own := by
          rw [← h.declaration_eq hf]
          simp only [Reader.readConstant, hf, hc, henum, if_true]
          exact ⟨_, rfl⟩
        obtain ⟨own, hread⟩ := hread
        rw [hread] at hcoherent ⊢
        have hx : Word (r.text c) := h.coherent.wordChars hn hk hc
        have htext : c.text s.text.toList = r.text c := by rw [Reader.text, h.coherent.source_eq]
        simpa [Node.writtenConstant?, hc, htext] using
          h.addWritten (k := .field) hf hx rfl hcoherent
    · have hidle : r.readConstant n = r := by
        unfold Reader.readConstant
        rw [hf]
        split
        · rename_i f' c hf' hc
          obtain rfl := Option.some.inj hf'
          rw [if_neg henum]
        · rfl
      rw [hidle, hkind, if_neg henum, grow_nil]
      exact h.refl

theorem Recorded.readInitializer (h : Recorded s done r) (n : Node) :
    Records s done r (r.readInitializer n) := by
  have hcoherent : Coherent s.text.toList (r.readInitializer n) :=
    h.coherent.propagate ((leads_visit _ _ _).proper rfl)
  have hdecls : (r.readInitializer n).decls = r.decls := decls_propagate r _
  refine ⟨⟨h.path_eq, h.provenance_eq, hcoherent, ?_, ?_, ?_, ?_⟩, rfl, ?_⟩
  · rw [hdecls]
    exact h.unique
  · rw [hdecls]
    exact h.apt
  · rw [hdecls]
    exact h.opened
  · rw [hdecls]
    exact h.closed
  · rw [hdecls]
    exact fun _ hT _ => hT

end

end Reader

end Java

end Carve
