import Carve.Proofs.Java.SourceTree
import Carve.Proofs.Java.Walking
import Carve.Proofs.QName

/-!
# Reading declarations

The reader keeps the types whose bodies it is in on a stack. The invariant ties this stack to the
entries: a declaration is called by its type and one more segment, types are not repeated, and
whatever use site a declaration has, the type around it has as well. At the end of the file the
use sites of everything in a type are therefore among its own.
-/

namespace Carve

namespace Java.Reader

open QName

variable {source : List Char} {r : Reader}

structure Coherent (source : List Char) (r : Reader) : Prop where
  source_eq : r.source = source
  /-- A frame stands for a type among the entries, inside the frame before it. -/
  framed : ∀ k f, r.frames[k]? = some f → ∃ e, r.entries[f.index]? = some e ∧ e.decl.id = f.id ∧
    e.decl.kind.isType = true ∧ e.decl.parent = (r.frames.take k).getLast?.map (·.id)
  types : ∀ (i j : Nat) (e e' : Entry), r.entries[i]? = some e → r.entries[j]? = some e' →
    e.decl.kind.isType = true → e'.decl.kind.isType = true → e.decl.id = e'.decl.id → i = j
  parents : ∀ e ∈ r.entries, ∀ p, e.decl.parent = some p →
    ∃ T ∈ r.entries, T.decl.kind.isType = true ∧ T.decl.id = p
  named : ∀ e ∈ r.entries, ∀ p, e.decl.parent = some p → Below p e.decl.id
  members : ∀ e ∈ r.entries, e.decl.kind.isType = false → e.decl.parent ≠ none
  headers : ∀ f ∈ r.frames, ∀ g ∈ r.frames, ∀ e, r.entries[g.index]? = some e → f.header ⊆ e.sites
  covers : ∀ e ∈ r.entries, ∀ T ∈ r.entries, T.decl.kind.isType = true →
    e.decl.parent = some T.decl.id → e.sites ⊆ T.sites
  proper : ∀ e ∈ r.entries, Proper e.sites

/-- An entry takes the place of another. Only a member may take a new name, and not that of a
member of another type. -/
structure Replaces (e e' : Entry) : Prop where
  kind : e'.decl.kind = e.decl.kind
  parent : e'.decl.parent = e.decl.parent
  id : e.decl.kind.isType = true → e'.decl.id = e.decl.id
  below : ∀ o, Below o e.decl.id → Below o e'.decl.id

theorem Replaces.of_decl {e e' : Entry} (hid : e'.decl.id = e.decl.id)
    (hkind : e'.decl.kind = e.decl.kind) (hparent : e'.decl.parent = e.decl.parent) :
    Replaces e e' :=
  ⟨hkind, hparent, fun _ => hid, fun _ h => hid ▸ h⟩

theorem Replaces.trans {e e' e'' : Entry} (h : Replaces e e') (k : Replaces e' e'') :
    Replaces e e'' :=
  ⟨k.kind.trans h.kind, k.parent.trans h.parent,
    fun ht => (k.id (h.kind ▸ ht)).trans (h.id ht), fun o hb => k.below o (h.below o hb)⟩

structure Touched (es es' : List Entry) (extra : Nat → UseSite → Prop) : Prop where
  length : es'.length = es.length
  entry : ∀ (i : Nat) (e' : Entry), es'[i]? = some e' → ∃ e, es[i]? = some e ∧
    Replaces e e' ∧ ∀ s, s ∈ e'.sites ↔ s ∈ e.sites ∨ extra i s

theorem Touched.forward {es es' : List Entry} {extra : Nat → UseSite → Prop}
    (h : Touched es es' extra) {i : Nat} {e : Entry} (he : es[i]? = some e) :
    ∃ e', es'[i]? = some e' ∧ Replaces e e' ∧ ∀ s, s ∈ e'.sites ↔ s ∈ e.sites ∨ extra i s := by
  have hlt : i < es'.length := h.length ▸ (List.getElem?_eq_some_iff.mp he).1
  obtain ⟨e₀, he₀, hrest⟩ := h.entry i es'[i] (List.getElem?_eq_getElem hlt)
  obtain rfl := Option.some.inj (he.symm.trans he₀)
  exact ⟨_, List.getElem?_eq_getElem hlt, hrest⟩

theorem Touched.trans {es es' es'' : List Entry} {extra extra' : Nat → UseSite → Prop}
    (h : Touched es es' extra) (k : Touched es' es'' extra') :
    Touched es es'' fun i s => extra i s ∨ extra' i s := by
  refine ⟨k.length.trans h.length, fun i e'' he'' => ?_⟩
  obtain ⟨e', he', hlike', hsites'⟩ := k.entry i e'' he''
  obtain ⟨e, he, hlike, hsites⟩ := h.entry i e' he'
  refine ⟨e, he, hlike.trans hlike', fun s => ?_⟩
  rw [hsites', hsites, or_assoc]

theorem touched_modify (es : List Entry) (i : Nat) {g : Entry → Entry} {sites : List UseSite}
    (hg : ∀ e, es[i]? = some e → Replaces e (g e) ∧ (g e).sites = e.sites ++ sites) :
    Touched es (es.modify i g) fun j s => j = i ∧ s ∈ sites := by
  refine ⟨by simp, fun j e' he' => ?_⟩
  rw [List.getElem?_modify] at he'
  obtain ⟨e, he, rfl⟩ := Option.map_eq_some_iff.mp he'
  refine ⟨e, he, ?_⟩
  split
  · rename_i hij
    obtain ⟨hlike, hsites⟩ := hg e (hij ▸ he)
    exact ⟨hlike, fun s => by simp [hsites, hij]⟩
  · rename_i hij
    exact ⟨.of_decl rfl rfl rfl, fun s => by simp [Ne.symm hij]⟩

theorem touched_propagate (r : Reader) (sites : List UseSite) :
    Touched r.entries (r.propagate sites).entries
      fun i s => s ∈ sites ∧ ∃ f ∈ r.frames, f.index = i := by
  unfold propagate
  dsimp only
  generalize r.frames = fs
  generalize r.entries = es
  induction fs generalizing es with
  | nil => exact ⟨rfl, fun i e' he' => ⟨e', he', .of_decl rfl rfl rfl, fun s => by simp⟩⟩
  | cons f fs ih =>
    have hfirst := touched_modify es f.index (g := addSites sites)
      fun e _ => ⟨.of_decl rfl rfl rfl, rfl⟩
    have hrest := hfirst.trans (ih (es.modify f.index (addSites sites)))
    refine ⟨hrest.length, fun i e' he' => ?_⟩
    obtain ⟨e, he, hlike, hsites⟩ := hrest.entry i e' he'
    refine ⟨e, he, hlike, fun s => ?_⟩
    rw [hsites]
    refine or_congr_right ⟨?_, ?_⟩
    · rintro (⟨hi, hs⟩ | ⟨hs, f', hf', hi⟩)
      · exact ⟨hs, f, by simp, hi.symm⟩
      · exact ⟨hs, f', by simp [hf'], hi⟩
    · rintro ⟨hs, f', hf', hi⟩
      rcases List.mem_cons.mp hf' with rfl | hf'
      · exact Or.inl ⟨hi.symm, hs⟩
      · exact Or.inr ⟨hs, f', hf', hi⟩

theorem Coherent.touched (h : Coherent source r) {es : List Entry} {extra : Nat → UseSite → Prop}
    (ht : Touched r.entries es extra)
    (hup : ∀ (i j : Nat) (e T : Entry), r.entries[i]? = some e → r.entries[j]? = some T →
      T.decl.kind.isType = true → e.decl.parent = some T.decl.id → ∀ s, extra i s →
        s ∈ T.sites ∨ extra j s)
    (hproper : ∀ i s, extra i s → s.kind ≠ .unresolved) :
    Coherent source { r with entries := es } where
  source_eq := h.source_eq
  framed k f hf := by
    obtain ⟨e, he, hid, htype, hparent⟩ := h.framed k f hf
    obtain ⟨e', he', hlike, -⟩ := ht.forward he
    exact ⟨e', he', (hlike.id htype).trans hid, hlike.kind ▸ htype, hlike.parent.trans hparent⟩
  types i j e e' he he' htype htype' hid := by
    obtain ⟨e₀, he₀, hlike₀, -⟩ := ht.entry i e he
    obtain ⟨e₁, he₁, hlike₁, -⟩ := ht.entry j e' he'
    rw [hlike₀.kind] at htype
    rw [hlike₁.kind] at htype'
    rw [hlike₀.id htype, hlike₁.id htype'] at hid
    exact h.types i j e₀ e₁ he₀ he₁ htype htype' hid
  parents e he p hp := by
    obtain ⟨i, hi⟩ := List.mem_iff_getElem?.mp he
    obtain ⟨e₀, he₀, hlike, -⟩ := ht.entry i e hi
    obtain ⟨T, hT, htype, hid⟩ := h.parents e₀ (List.mem_of_getElem? he₀) p (hlike.parent ▸ hp)
    obtain ⟨j, hj⟩ := List.mem_iff_getElem?.mp hT
    obtain ⟨T', hT', hlike', -⟩ := ht.forward hj
    exact ⟨T', List.mem_of_getElem? hT', hlike'.kind ▸ htype, (hlike'.id htype).trans hid⟩
  named e he p hp := by
    obtain ⟨i, hi⟩ := List.mem_iff_getElem?.mp he
    obtain ⟨e₀, he₀, hlike, -⟩ := ht.entry i e hi
    exact hlike.below p (h.named e₀ (List.mem_of_getElem? he₀) p (hlike.parent ▸ hp))
  members e he hmember := by
    obtain ⟨i, hi⟩ := List.mem_iff_getElem?.mp he
    obtain ⟨e₀, he₀, hlike, -⟩ := ht.entry i e hi
    exact hlike.parent ▸ h.members e₀ (List.mem_of_getElem? he₀) (hlike.kind ▸ hmember)
  headers f hf g hg e he := by
    obtain ⟨e₀, he₀, -, hsites⟩ := ht.entry g.index e he
    exact fun s hs => (hsites s).mpr (Or.inl (h.headers f hf g hg e₀ he₀ hs))
  covers e he T hT htype hparent := by
    obtain ⟨i, hi⟩ := List.mem_iff_getElem?.mp he
    obtain ⟨j, hj⟩ := List.mem_iff_getElem?.mp hT
    obtain ⟨e₀, he₀, hlike₀, hsites₀⟩ := ht.entry i e hi
    obtain ⟨T₀, hT₀, hlike₁, hsites₁⟩ := ht.entry j T hj
    rw [hlike₁.kind] at htype
    have hpair : e₀.decl.parent = some T₀.decl.id := by
      rw [← hlike₀.parent, hparent, hlike₁.id htype]
    intro s hs
    rw [hsites₁]
    rcases (hsites₀ s).mp hs with hs | hs
    · exact Or.inl (h.covers e₀ (List.mem_of_getElem? he₀) T₀ (List.mem_of_getElem? hT₀) htype
        hpair hs)
    · exact hup i j e₀ T₀ he₀ hT₀ htype hpair s hs
  proper e he s hs := by
    obtain ⟨i, hi⟩ := List.mem_iff_getElem?.mp he
    obtain ⟨e₀, he₀, -, hsites⟩ := ht.entry i e hi
    exact ((hsites s).mp hs).elim (h.proper e₀ (List.mem_of_getElem? he₀) s) (hproper i s)

theorem Coherent.outer (h : Coherent source r) {f : TypeFrame} (hf : f ∈ r.frames) {e : Entry}
    (he : r.entries[f.index]? = some e) {p : QName} (hp : e.decl.parent = some p) :
    ∃ g ∈ r.frames, g.id = p := by
  obtain ⟨k, hk⟩ := List.mem_iff_getElem?.mp hf
  obtain ⟨e', he', -, -, hparent⟩ := h.framed k f hk
  obtain rfl := Option.some.inj (he.symm.trans he')
  obtain ⟨g, hg, hid⟩ := Option.map_eq_some_iff.mp (hparent.symm.trans hp)
  exact ⟨g, List.mem_of_mem_take (List.mem_of_getLast? hg), hid⟩

theorem Coherent.index_eq (h : Coherent source r) {f : TypeFrame} (hf : f ∈ r.frames) {j : Nat}
    {T : Entry} (hT : r.entries[j]? = some T) (htype : T.decl.kind.isType = true)
    (hid : T.decl.id = f.id) : f.index = j := by
  obtain ⟨k, hk⟩ := List.mem_iff_getElem?.mp hf
  obtain ⟨e, he, hide, htypee, -⟩ := h.framed k f hk
  exact h.types f.index j e T he hT htypee htype (hide.trans hid.symm)

theorem Coherent.propagate (h : Coherent source r) {sites : List UseSite} (hs : Proper sites) :
    Coherent source (r.propagate sites) := by
  refine h.touched (touched_propagate r sites) ?_ fun i s hextra => hs s hextra.1
  rintro i j e T he hT htype hparent s ⟨hs, f, hf, rfl⟩
  obtain ⟨g, hg, hid⟩ := h.outer hf he hparent
  exact Or.inr ⟨hs, g, hg, h.index_eq hg hT htype hid.symm⟩

def Carries (r : Reader) (sites : List UseSite) : Prop :=
  ∀ f ∈ r.frames, ∀ e, r.entries[f.index]? = some e → sites ⊆ e.sites

theorem carries_propagate (r : Reader) (sites : List UseSite) :
    Carries (r.propagate sites) sites := by
  intro f hf e he s hs
  obtain ⟨e₀, -, -, hsites⟩ := (touched_propagate r sites).entry f.index e he
  exact (hsites s).mpr (Or.inr ⟨hs, f, hf, rfl⟩)

theorem Carries.touched {sites : List UseSite} (h : Carries r sites) {es : List Entry}
    {extra : Nat → UseSite → Prop} (ht : Touched r.entries es extra) :
    Carries { r with entries := es } sites := by
  intro f hf e he s hs
  obtain ⟨e₀, he₀, -, hsites⟩ := ht.entry f.index e he
  exact (hsites s).mpr (Or.inl (h f hf e₀ he₀ hs))

theorem indexOf?_some {id : QName} {i : Nat} (h : r.indexOf? id = some i) :
    ∃ e, r.entries[i]? = some e ∧ e.decl.id = id := by
  obtain ⟨hlt, hid, -⟩ := List.findIdx?_eq_some_iff_getElem.mp h
  exact ⟨_, List.getElem?_eq_getElem hlt, by simpa using hid⟩

theorem indexOf?_none {id : QName} (h : r.indexOf? id = none) :
    ∀ e ∈ r.entries, e.decl.id ≠ id := by
  simpa [indexOf?, List.findIdx?_eq_none_iff] using h

/-- Settling on a name moves a method out of the way or gives the newcomer another name. -/
theorem Coherent.settleName (h : Coherent source r) {own : List UseSite} (hown : Carries r own)
    {d : Declaration} {o : QName} (hparent : d.parent = some o) (hbelow : Below o d.id) :
    Coherent source (r.settleName d).1 ∧ Carries (r.settleName d).1 own ∧
      (r.settleName d).1.frames = r.frames ∧ (r.settleName d).2.parent = some o ∧
      Below o (r.settleName d).2.id ∧ (r.settleName d).2.kind = d.kind := by
  have hstay : Coherent source r ∧ Carries r own ∧ r.frames = r.frames ∧ d.parent = some o ∧
      Below o d.id ∧ d.kind = d.kind := ⟨h, hown, rfl, hparent, hbelow, rfl⟩
  unfold Reader.settleName
  split
  · exact hstay
  rename_i i hi
  obtain ⟨e, he, hid⟩ := indexOf?_some hi
  simp only [he, Option.map_some]
  split
  · exact ⟨h, hown, rfl, hparent, below_alias hbelow, rfl⟩
  split
  · rename_i hmethod
    simp only [Bool.and_eq_true, beq_iff_eq] at hmethod
    have ht : Touched r.entries (r.entries.modify i (rename d.id.methodAlias))
        fun j s => j = i ∧ s ∈ ([] : List UseSite) := by
      refine touched_modify r.entries i fun e' he' => ⟨⟨rfl, rfl, fun htype => ?_, ?_⟩, ?_⟩
      · obtain rfl := Option.some.inj (he.symm.trans he')
        rw [hmethod.2] at htype
        cases htype
      · obtain rfl := Option.some.inj (he.symm.trans he')
        exact fun o' ho' => by simpa [rename, ← hid] using below_alias ho'
      · simp [rename]
    have hnone : ∀ j s, ¬ (j = i ∧ s ∈ ([] : List UseSite)) := by simp
    exact ⟨h.touched ht (fun j _ _ _ _ _ _ _ s hs => absurd hs (hnone j s))
      (fun j s hs => absurd hs (hnone j s)), hown.touched ht, rfl, hparent, hbelow, rfl⟩
  · exact hstay

theorem Coherent.inherited (h : Coherent source r) {f : TypeFrame} (hf : f ∈ r.frames) {e : Entry}
    (he : r.entries[f.index]? = some e) : r.inherited ⊆ e.sites := by
  intro s hs
  obtain ⟨g, hg, hsg⟩ := List.mem_flatMap.mp hs
  exact h.headers g hg f hf e he hsg

theorem Coherent.proper_inherited (h : Coherent source r) : Proper r.inherited := by
  intro s hs
  obtain ⟨f, hf, hsf⟩ := List.mem_flatMap.mp hs
  obtain ⟨k, hk⟩ := List.mem_iff_getElem?.mp hf
  obtain ⟨e, he, -⟩ := h.framed k f hk
  exact h.proper e (List.mem_of_getElem? he) s (h.headers f hf f hf e he hsf)

theorem proper_append {sites more : List UseSite} (h : Proper sites) (k : Proper more) :
    Proper (sites ++ more) :=
  fun s hs => (List.mem_append.mp hs).elim (h s) (k s)

theorem getElem?_concat_old {α : Type} {l : List α} {a x : α} {i : Nat} (h : l[i]? = some x) :
    (l ++ [a])[i]? = some x := by
  rw [List.getElem?_append_left (List.getElem?_eq_some_iff.mp h).1]
  exact h

theorem getElem?_concat_cases {α : Type} {l : List α} {a x : α} {i : Nat}
    (h : (l ++ [a])[i]? = some x) : l[i]? = some x ∨ (i = l.length ∧ x = a) := by
  have hlt : i < (l ++ [a]).length := (List.getElem?_eq_some_iff.mp h).1
  rw [List.length_append, List.length_singleton] at hlt
  by_cases hi : i < l.length
  · rw [List.getElem?_append_left hi] at h
    exact Or.inl h
  · obtain rfl : i = l.length := by omega
    rw [List.getElem?_concat_length] at h
    exact Or.inr ⟨rfl, (Option.some.inj h).symm⟩

theorem Coherent.frame_entry (h : Coherent source r) {f : TypeFrame} (hf : f ∈ r.frames)
    {new e : Entry} (he : (r.entries ++ [new])[f.index]? = some e) :
    r.entries[f.index]? = some e := by
  obtain ⟨k, hk⟩ := List.mem_iff_getElem?.mp hf
  obtain ⟨e₀, he₀, -⟩ := h.framed k f hk
  rw [he₀, ← getElem?_concat_old he₀, he]

theorem Coherent.append (h : Coherent source r) {own : List UseSite} (hown : Carries r own)
    (hproper : Proper own) (d : Declaration) (supertypes : List String)
    (hparent : d.parent = r.owner?.map (·.id)) (hbelow : ∀ p, d.parent = some p → Below p d.id)
    (hmember : d.kind.isType = false → d.parent ≠ none)
    (hfree : d.kind.isType = true → ∀ e ∈ r.entries, e.decl.kind.isType = true →
      e.decl.id ≠ d.id) :
    Coherent source
      { r with
        entries := r.entries ++ [{ decl := d, supertypes, sites := r.inherited ++ own }] } where
  source_eq := h.source_eq
  framed k f hf := by
    obtain ⟨e, he, hrest⟩ := h.framed k f hf
    exact ⟨e, getElem?_concat_old he, hrest⟩
  types i j e e' he he' hte hte' hid := by
    rcases getElem?_concat_cases he with he | ⟨rfl, rfl⟩ <;>
      rcases getElem?_concat_cases he' with he' | ⟨rfl, rfl⟩
    · exact h.types i j e e' he he' hte hte' hid
    · exact absurd hid (hfree hte' e (List.mem_of_getElem? he) hte)
    · exact absurd hid.symm (hfree hte e' (List.mem_of_getElem? he') hte')
    · rfl
  parents e he p hp := by
    rcases List.mem_append.mp he with he | he
    · obtain ⟨T, hT, hrest⟩ := h.parents e he p hp
      exact ⟨T, by simp [hT], hrest⟩
    · obtain rfl := List.mem_singleton.mp he
      obtain ⟨f, hf, rfl⟩ := Option.map_eq_some_iff.mp (hparent.symm.trans hp)
      obtain ⟨k, hk⟩ := List.mem_iff_getElem?.mp (List.mem_of_getLast? hf)
      obtain ⟨owner, howner, hid, htype, -⟩ := h.framed k f hk
      exact ⟨owner, by simp [List.mem_of_getElem? howner], htype, hid⟩
  named e he p hp := by
    rcases List.mem_append.mp he with he | he
    · exact h.named e he p hp
    · obtain rfl := List.mem_singleton.mp he
      exact hbelow p hp
  members e he hkind := by
    rcases List.mem_append.mp he with he | he
    · exact h.members e he hkind
    · obtain rfl := List.mem_singleton.mp he
      exact hmember hkind
  headers f hf g hg e he := h.headers f hf g hg e (h.frame_entry hg he)
  covers e he T hT htype hpair := by
    rcases List.mem_append.mp hT with hT | hT
    · rcases List.mem_append.mp he with he | he
      · exact h.covers e he T hT htype hpair
      · obtain rfl := List.mem_singleton.mp he
        obtain ⟨f, hf, hid⟩ := Option.map_eq_some_iff.mp (hparent.symm.trans hpair)
        have hfmem : f ∈ r.frames := List.mem_of_getLast? hf
        obtain ⟨j, hj⟩ := List.mem_iff_getElem?.mp hT
        obtain rfl := h.index_eq hfmem hj htype hid.symm
        intro s hs
        exact (List.mem_append.mp hs).elim (fun hs => h.inherited hfmem hj hs)
          (fun hs => hown f hfmem T hj hs)
    · obtain rfl := List.mem_singleton.mp hT
      rcases List.mem_append.mp he with he | he
      · obtain ⟨T', hT', htype', hid⟩ := h.parents e he _ hpair
        exact absurd hid (hfree htype T' hT' htype')
      · obtain rfl := List.mem_singleton.mp he
        exact fun s hs => hs
  proper e he := by
    rcases List.mem_append.mp he with he | he
    · exact h.proper e he
    · obtain rfl := List.mem_singleton.mp he
      exact proper_append h.proper_inherited hproper

/-- A member that the innermost type gains, whether it is new or one more overload. -/
theorem Coherent.addMember (h : Coherent source r) {d : Declaration} {own : List UseSite}
    (hproper : Proper own) {f : TypeFrame} (hf : r.owner? = some f)
    (hparent : d.parent = some f.id) (hbelow : Below f.id d.id)
    (hmember : d.kind.isType = false) : Coherent source (r.addMember d own) := by
  obtain ⟨h, hown, hframes, hparent, hbelow, hkind⟩ :=
    (h.propagate hproper).settleName (carries_propagate r own) hparent hbelow
  unfold Reader.addMember
  dsimp only
  generalize (r.propagate own).settleName d = settled at h hown hframes hparent hbelow hkind
  obtain ⟨r', d'⟩ := settled
  dsimp only at h hown hframes hparent hbelow hkind ⊢
  have hf' : r'.owner? = some f := by unfold owner?; rw [hframes]; exact hf
  rw [← hkind] at hmember
  have hup : ∀ i, r'.indexOf? d'.id = some i → ∀ (j k : Nat) (e T : Entry),
      r'.entries[j]? = some e → r'.entries[k]? = some T → T.decl.kind.isType = true →
      e.decl.parent = some T.decl.id → ∀ s, j = i ∧ s ∈ own → s ∈ T.sites ∨ k = i ∧ s ∈ own := by
    rintro i hi j k e T he hT htype hpair s ⟨rfl, hs⟩
    obtain ⟨e', he', hid⟩ := indexOf?_some hi
    obtain rfl := Option.some.inj (he.symm.trans he')
    have hsame : T.decl.id = f.id :=
      (h.named e (List.mem_of_getElem? he) _ hpair).owner_eq (hid ▸ hbelow)
    have hfmem : f ∈ r'.frames := List.mem_of_getLast? hf'
    obtain rfl := h.index_eq hfmem hT htype hsame
    exact Or.inl (hown f hfmem T hT hs)
  split
  · rename_i i hi
    split
    · split
      · exact h.touched (touched_modify _ i fun e _ => ⟨.of_decl rfl rfl rfl, rfl⟩) (hup i hi)
          fun _ s hs => hproper s hs.2
      · exact h.touched (touched_modify _ i fun e _ => ⟨.of_decl rfl rfl rfl, rfl⟩) (hup i hi)
          fun _ s hs => hproper s hs.2
    · exact h
  · refine h.append hown hproper d' [] (by rw [hparent, hf']; rfl) (fun p hp => ?_) ?_ ?_
    · obtain rfl := Option.some.inj (hparent.symm.trans hp)
      exact hbelow
    · rw [hparent]
      simp
    · rw [hmember]
      simp

theorem Coherent.push (h : Coherent source r) {header : List UseSite} (hown : Carries r header)
    (hproper : Proper header) (d : Declaration) {supertypes params : List String}
    {topLevel : List QName} {kind : Declaration.Kind} (htype : d.kind.isType = true)
    (hparent : d.parent = r.owner?.map (·.id))
    (hbelow : ∀ p, d.parent = some p → Below p d.id)
    (hfree : ∀ e ∈ r.entries, e.decl.kind.isType = true → e.decl.id ≠ d.id) :
    Coherent source
      { r with
        entries := r.entries ++ [{ decl := d, supertypes, sites := r.inherited ++ header }]
        topLevel
        frames := r.frames ++ [⟨d.id, r.entries.length, kind, header, params⟩] } := by
  have hnew := h.append hown hproper d supertypes hparent hbelow (by simp [htype]) fun _ => hfree
  refine ⟨hnew.source_eq, ?_, hnew.types, hnew.parents, hnew.named, hnew.members, ?_, hnew.covers,
    hnew.proper⟩
  · intro k f hf
    rcases getElem?_concat_cases hf with hf | ⟨rfl, rfl⟩
    · obtain ⟨e, he, hid, htype, hparent⟩ := hnew.framed k f hf
      have hlt : k < r.frames.length := (List.getElem?_eq_some_iff.mp hf).1
      refine ⟨e, he, hid, htype, ?_⟩
      rw [hparent, List.take_append_of_le_length (Nat.le_of_lt hlt)]
    · refine ⟨{ decl := d, supertypes, sites := r.inherited ++ header }, by simp, rfl, htype, ?_⟩
      rw [List.take_left]
      exact hparent
  · intro f hf g hg e he
    rcases List.mem_append.mp hg with hg | hg
    · have he := h.frame_entry hg he
      rcases List.mem_append.mp hf with hf | hf
      · exact h.headers f hf g hg e he
      · obtain rfl := List.mem_singleton.mp hf
        exact hown g hg e he
    · obtain rfl := List.mem_singleton.mp hg
      simp only [List.getElem?_concat_length, Option.some.injEq] at he
      subst he
      intro s hs
      rcases List.mem_append.mp hf with hf | hf
      · exact List.mem_append.mpr (Or.inl (List.mem_flatMap.mpr ⟨f, hf, hs⟩))
      · obtain rfl := List.mem_singleton.mp hf
        exact List.mem_append.mpr (Or.inr hs)

theorem proper_headerSites (r : Reader) (n : Node) : Proper (r.headerSites n) := by
  have hwalk := (respects_leads r.source).headerWalk (n := n) (fun _ _ => trivial)
    (r.walk (r.typeParameterNames n))
  exact hwalk.proper rfl

theorem proper_callableSites (r : Reader) (n : Node) : Proper (r.callableSites n) := by
  have hwalk := (respects_leads r.source).callableWalk (n := n) (fun _ _ => trivial)
    (r.walk (r.typeParameterNames n))
  exact hwalk.proper rfl

theorem Coherent.wordChars (h : Coherent source r) {n c : Node} (hn : Tidy source n)
    (hk : n.kind ≠ .annotationMark) (hc : n.child? .name = some c) :
    ∀ d ∈ (r.text c).toList, Token.IsWordChar d := by
  unfold Reader.text
  rw [h.source_eq]
  exact hn.plain hk hc

theorem Coherent.dotless (h : Coherent source r) {n c : Node} (hn : Tidy source n)
    (hk : n.kind ≠ .annotationMark) (hc : n.child? .name = some c) :
    '.' ∉ (r.text c).toList :=
  fun hdot => absurd (h.wordChars hn hk hc '.' hdot) (by decide)

theorem Coherent.plain (h : Coherent source r) {n c : Node} (hn : Tidy source n)
    (hk : n.kind ≠ .annotationMark) (hc : n.child? .name = some c) :
    ')' ∉ (r.text c).toList :=
  fun hparen => absurd (h.wordChars hn hk hc ')' hparen) (by decide)

theorem Coherent.identity (h : Coherent source r) {n : Node} (hn : Tidy source n)
    (hk : n.kind ≠ .annotationMark) {kind : Declaration.Kind} {owner id : QName} {name : String}
    (hid : (if kind == .ctor then some (owner.ctor, owner.simple)
      else (n.child? .name).map fun c => (owner.member (r.text c), r.text c)) = some (id, name)) :
    ∃ s : String, ('.' ∉ s.toList ∧ ')' ∉ s.toList) ∧ id = owner.member s := by
  split at hid
  · obtain ⟨rfl, -⟩ := Prod.mk.inj (Option.some.inj hid)
    exact ⟨ctorName, by decide, rfl⟩
  · obtain ⟨c, hc, hpair⟩ := Option.map_eq_some_iff.mp hid
    obtain ⟨rfl, -⟩ := Prod.mk.inj hpair
    exact ⟨_, ⟨h.dotless hn hk hc, h.plain hn hk hc⟩, rfl⟩

theorem Coherent.openType? (h : Coherent source r) {kind : Declaration.Kind}
    (htype : kind.isType = true) {n : Node} (hn : Tidy source n) (hk : n.kind ≠ .annotationMark)
    {r' : Reader} (hopen : r.openType? kind n = some r') : Coherent source r' := by
  unfold Reader.openType? at hopen
  obtain ⟨nameNode, hname, hopen⟩ := Option.bind_eq_some_iff.mp hopen
  dsimp only at hopen
  split at hopen
  · cases hopen
  rename_i hfree
  have hfree : ∀ e ∈ r.entries, e.decl.id ≠ r.typeId (r.text nameNode) :=
    indexOf?_none (by simpa using hfree)
  obtain rfl := Option.some.inj hopen
  have hp := h.propagate (proper_headerSites r n)
  have hlength := (touched_propagate r (r.headerSites n)).length
  rw [← hlength]
  refine hp.push (carries_propagate r _) (proper_headerSites r n)
    (r.declaration _ _ kind n _) htype rfl
    (fun p hparent => ?_) fun e he hte => ?_
  · obtain ⟨f, hf, rfl⟩ := Option.map_eq_some_iff.mp hparent
    refine ⟨_, h.dotless hn hk hname, ?_⟩
    simp only [declaration, hf]
  · obtain ⟨i, hi⟩ := List.mem_iff_getElem?.mp he
    obtain ⟨e₀, he₀, hlike, -⟩ := (touched_propagate r (r.headerSites n)).entry i e hi
    rw [hlike.id (hlike.kind ▸ hte)]
    exact hfree e₀ (List.mem_of_getElem? he₀)

theorem Coherent.closeType (h : Coherent source r) : Coherent source r.closeType where
  source_eq := h.source_eq
  framed k f hf := by
    simp only [Reader.closeType, List.dropLast_eq_take] at hf ⊢
    rw [List.getElem?_take] at hf
    split at hf
    · rename_i hlt
      obtain ⟨e, he, hid, htype, hparent⟩ := h.framed k f hf
      refine ⟨e, he, hid, htype, ?_⟩
      rw [hparent, List.take_take, Nat.min_eq_left (Nat.le_of_lt hlt)]
    · cases hf
  types := h.types
  parents := h.parents
  named := h.named
  members := h.members
  headers f hf g hg :=
    h.headers f ((List.dropLast_sublist _).subset hf) g ((List.dropLast_sublist _).subset hg)
  covers := h.covers
  proper := h.proper

theorem Coherent.addDeclaration (h : Coherent source r) {f : TypeFrame} (hf : r.owner? = some f)
    {id : QName} (hbelow : Below f.id id) (name : String) {kind : Declaration.Kind}
    (hmember : kind.isType = false) (n : Node) (outline : Outline) {own : List UseSite}
    (hproper : Proper own) :
    Coherent source (r.addMember (r.declaration id name kind n outline) own) :=
  h.addMember hproper hf (by simp [declaration, hf]) hbelow hmember

theorem Coherent.readCallable (h : Coherent source r) {kind : Declaration.Kind}
    (hmember : kind.isType = false) {n : Node} (hn : Tidy source n)
    (hk : n.kind ≠ .annotationMark) : Coherent source (r.readCallable kind n) := by
  unfold Reader.readCallable
  split
  · exact h
  rename_i f hf
  dsimp only
  split
  · exact h
  rename_i id name hidentity
  obtain ⟨s, ⟨hdotless, -⟩, rfl⟩ := h.identity hn hk hidentity
  exact h.addDeclaration hf ⟨s, hdotless, rfl⟩ name hmember n _ (proper_callableSites r n)

theorem settleName_eq (r : Reader) (d : Declaration) :
    ∃ es, (r.settleName d).1 = { r with entries := es } := by
  unfold Reader.settleName
  split
  · exact ⟨_, rfl⟩
  · split
    · exact ⟨_, rfl⟩
    · split
      · exact ⟨_, rfl⟩
      · split <;> exact ⟨_, rfl⟩

theorem addMember_eq (r : Reader) (d : Declaration) (own : List UseSite) :
    ∃ es, r.addMember d own = { r with entries := es } := by
  have hsettle : ∃ es, ((r.propagate own).settleName d).1 = { r with entries := es } :=
    settleName_eq (r.propagate own) d
  obtain ⟨es, hes⟩ := hsettle
  unfold Reader.addMember
  dsimp only
  rw [hes]
  split
  · split
    · split <;> exact ⟨_, rfl⟩
    · exact ⟨_, rfl⟩
  · exact ⟨_, rfl⟩

theorem addMember_frames (d : Declaration) (own : List UseSite) :
    (r.addMember d own).frames = r.frames := by
  obtain ⟨es, hes⟩ := addMember_eq r d own
  rw [hes]

theorem Coherent.readDeclarator (h : Coherent source r) (n : Node) {d : Node} (count : Nat)
    {f : TypeFrame} (hf : r.owner? = some f) (hd : Tidy source d)
    (hk : d.kind = .variableDeclarator) :
    Coherent source (readDeclarator n count f.id r d) ∧
      (Reader.readDeclarator n count f.id r d).frames = r.frames := by
  unfold Reader.readDeclarator
  split
  · exact ⟨h, rfl⟩
  rename_i nameNode hname
  have hwalk := (respects_leads r.source).fieldWalk (n := n) (d := d) (fun _ _ => trivial)
    (r.walk [])
  exact ⟨h.addDeclaration hf ⟨_, h.dotless hd (by simp [hk]) hname, rfl⟩ _ rfl n _
    (hwalk.proper rfl), addMember_frames _ _⟩

theorem Coherent.readDeclarators {n : Node} {count : Nat} {f : TypeFrame} (ds : List Node) :
    ∀ {r : Reader}, Coherent source r → r.owner? = some f →
      (∀ d ∈ ds, Tidy source d ∧ d.kind = .variableDeclarator) →
      Coherent source (ds.foldl (Reader.readDeclarator n count f.id) r) := by
  induction ds with
  | nil => exact fun h _ _ => h
  | cons d ds ih =>
    intro r h hf hds
    obtain ⟨hd, hk⟩ := hds d List.mem_cons_self
    obtain ⟨hnext, hframes⟩ := h.readDeclarator n count hf hd hk
    refine ih hnext ?_ fun d' hd' => hds d' (List.mem_cons_of_mem _ hd')
    unfold owner?
    rw [hframes]
    exact hf

theorem Coherent.readField (h : Coherent source r) {n : Node} (hn : Tidy source n) :
    Coherent source (r.readField n) := by
  unfold Reader.readField
  split
  · exact h
  · rename_i f hf
    exact h.readDeclarators _ hf fun d hd => hn.declarator hd

theorem Coherent.readConstant (h : Coherent source r) {n : Node} (hn : Tidy source n)
    (hk : n.kind ≠ .annotationMark) : Coherent source (r.readConstant n) := by
  unfold Reader.readConstant
  split
  · rename_i f nameNode hf hname
    split
    · have hwalk := (respects_leads r.source).constantWalk (n := n) (fun _ _ => trivial)
        (r.walk [])
      exact h.addDeclaration hf ⟨_, h.dotless hn hk hname, rfl⟩ _ rfl n _ (hwalk.proper rfl)
    · exact h
  · exact h

theorem typeKind?_isType {k : Kind} {kind : Declaration.Kind} (h : typeKind? k = some kind) :
    kind.isType = true ∧ k ≠ .annotationMark := by
  unfold typeKind? at h
  split at h <;> simp only [Option.some.injEq, reduceCtorEq] at h <;> subst h <;>
    exact ⟨rfl, by decide⟩

mutual
/-- Reading a member preserves the invariant, by the cases that the reader tells apart. -/
theorem Coherent.readMember : ∀ {n : Node} {r : Reader}, Tidy source n → Coherent source r →
    Coherent source (Reader.readMember n r)
  | .mk k role e cs, r, hn, h => by
    unfold Reader.readMember
    dsimp only
    split
    · exact h.readCallable rfl hn (by simp [Node.kind])
    · exact h.readCallable rfl hn (by simp [Node.kind])
    · exact h.readCallable rfl hn (by simp [Node.kind])
    · exact h.readCallable rfl hn (by simp [Node.kind])
    · exact h.readField hn
    · exact h.readConstant hn (by simp [Node.kind])
    · exact readMembers hn.children h
    · exact h.propagate ((leads_visit _ _ _).proper rfl)
    · exact h.propagate ((leads_visit _ _ _).proper rfl)
    · split
      · rename_i kind hkind
        obtain ⟨htype, hk⟩ := typeKind?_isType hkind
        split
        · rename_i inner hopen
          exact (readBody hn.children (h.openType? htype hn hk hopen)).closeType
        · exact h
      · exact h

theorem Coherent.readMembers : ∀ {ns : List Node} {r : Reader}, (∀ n ∈ ns, Tidy source n) →
    Coherent source r → Coherent source (Reader.readMembers ns r)
  | [], r, _, h => by unfold Reader.readMembers; exact h
  | n :: ns, r, hns, h => by
    unfold Reader.readMembers
    exact readMembers (fun m hm => hns m (List.mem_cons_of_mem _ hm))
      (readMember (hns n List.mem_cons_self) h)

theorem Coherent.readBody : ∀ {ns : List Node} {r : Reader}, (∀ n ∈ ns, Tidy source n) →
    Coherent source r → Coherent source (Reader.readBody ns r)
  | [], r, _, h => by unfold Reader.readBody; exact h
  | .mk k role e inner :: ns, r, hns, h => by
    unfold Reader.readBody
    split
    · exact readMembers (hns _ List.mem_cons_self).children h
    · exact readBody (fun m hm => hns m (List.mem_cons_of_mem _ hm)) h
end

theorem Coherent.start (s : SourceTree) : Coherent s.text.toList s.start where
  source_eq := rfl
  framed k f hf := by simp [SourceTree.start, Reader.start] at hf
  types i j e e' he := by simp [SourceTree.start, Reader.start] at he
  parents e he := by cases he
  named e he := by cases he
  members e he := by cases he
  headers f hf := by cases hf
  covers e he := by cases he
  proper e he := by cases he

end Java.Reader

namespace Java

open QName

/-- What the entries of a file have to do with each other. -/
structure Consistent (f : SourceFile) : Prop where
  types : ∀ T ∈ f.entries, ∀ T' ∈ f.entries, T.decl.kind.isType = true →
    T'.decl.kind.isType = true → T.decl.id = T'.decl.id → T = T'
  parents : ∀ e ∈ f.entries, ∀ p, e.decl.parent = some p →
    ∃ T ∈ f.entries, T.decl.kind.isType = true ∧ T.decl.id = p
  named : ∀ e ∈ f.entries, ∀ p, e.decl.parent = some p → Below p e.decl.id
  members : ∀ e ∈ f.entries, e.decl.kind.isType = false → e.decl.parent ≠ none
  covers : ∀ e ∈ f.entries, ∀ T ∈ f.entries, T.decl.kind.isType = true →
    e.decl.parent = some T.decl.id → e.sites ⊆ T.sites
  proper : ∀ e ∈ f.entries, Proper e.sites

theorem SourceTree.consistent (s : SourceTree) : Consistent s.read := by
  have h := Reader.Coherent.readMembers s.topTypes_tidy (.start s)
  refine ⟨fun T hT T' hT' htype htype' hid => ?_, h.parents, h.named, h.members, h.covers,
    h.proper⟩
  obtain ⟨i, hi⟩ := List.mem_iff_getElem?.mp hT
  obtain ⟨j, hj⟩ := List.mem_iff_getElem?.mp hT'
  obtain rfl := h.types i j T T' hi hj htype htype' hid
  exact Option.some.inj (hi.symm.trans hj)

end Java

end Carve
