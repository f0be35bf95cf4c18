import Carve.Proofs.Java.Reading

/-!
# Names in a file

A member whose name is taken becomes an overload, is passed over, or one of the two steps aside
and takes the alias of a method. No source text contains the parentheses of an alias, so that a
method has its alias only while something else has its plain name, and no name is given twice.
-/

namespace Carve

def Declaration.withOverload (layout : Layout) (d : Declaration) : Declaration :=
  { d with
    location := d.location.map fun place =>
      { place with
        layout := { place.layout with overloads := place.layout.overloads ++ [layout] } } }

namespace QName

theorem methodAlias_inj {a b : QName} (h : a.methodAlias = b.methodAlias) : a = b := by
  have hlist := congrArg (fun q : QName => q.text.toList) h
  simp only [methodAlias, String.toList_append] at hlist
  cases a; cases b
  simpa using String.toList_inj.mp (List.append_cancel_right hlist)

theorem methodAlias_ne (a : QName) : a.methodAlias ≠ a := by
  intro h
  have hlist := congrArg (fun q : QName => q.text.toList.length) h
  simp [methodAlias, String.toList_append] at hlist

theorem ne_alias_of_getLast {id : QName} (h : id.text.toList.getLast? ≠ some ')') (p : QName) :
    id ≠ p.methodAlias := by
  rintro rfl
  apply h
  simp [methodAlias, String.toList_append]

theorem member_ne_alias {owner : QName} {s : String} (h : ')' ∉ s.toList) (p : QName) :
    owner.member s ≠ p.methodAlias := by
  refine ne_alias_of_getLast (fun hlast => ?_) p
  rw [member_toList, List.getLast?_append, List.getLast?_cons, Option.some_or] at hlast
  cases hs : s.toList.getLast? with
  | none => simp [hs] at hlast
  | some c =>
    rw [hs, Option.getD_some] at hlast
    exact h (Option.some.inj hlast ▸ List.mem_of_getLast? hs)

end QName

namespace Java.Reader

open QName

variable {source : List Char} {r : Reader}

def decls (r : Reader) : List Declaration := r.entries.map (·.decl)

theorem map_modify_decl {es : List Entry} {i : Nat} {g : Entry → Entry}
    {f : Declaration → Declaration} (h : ∀ e, (g e).decl = f e.decl) :
    (es.modify i g).map (·.decl) = (es.map (·.decl)).modify i f := by
  apply List.ext_getElem?
  intro j
  rw [List.getElem?_map, List.getElem?_modify, List.getElem?_modify, List.getElem?_map]
  cases es[j]? with
  | none => rfl
  | some e =>
    by_cases hij : i = j
    · simp [hij, h]
    · simp [hij]

theorem map_addSites (es : List Entry) (i : Nat) (sites : List UseSite) :
    (es.modify i (addSites sites)).map (·.decl) = es.map (·.decl) := by
  rw [map_modify_decl (g := addSites sites) (f := id) fun _ => rfl, List.modify_id]

theorem decls_propagate (r : Reader) (sites : List UseSite) :
    (r.propagate sites).decls = r.decls := by
  unfold propagate decls
  dsimp only
  generalize r.frames = fs
  generalize r.entries = es
  induction fs generalizing es with
  | nil => rfl
  | cons f fs ih => rw [List.foldl_cons, ih, map_addSites]

/-- What becomes of the declarations of a file when a member is added. -/
inductive Added (ds : List Declaration) (d : Declaration) : List Declaration → Prop where
  /-- What has the name cannot share it, and neither of the two makes way. -/
  | passedOver {e : Declaration} : e ∈ ds →
      (e.id = d.id ∧ e.kind ≠ .method ∧ d.kind ≠ .method) ∨
        (e.id = d.id.methodAlias ∧ d.kind = .method) →
      e.kind ≠ d.kind → Added ds d ds
  | unplaced : d.location = none → Added ds d ds
  | new : (∀ e ∈ ds, e.id ≠ d.id) → Added ds d (ds ++ [d])
  /-- A method makes way for what has its plain name. -/
  | aside {e : Declaration} : d.kind = .method → e ∈ ds → e.id = d.id → e.kind ≠ .method →
      (∀ e' ∈ ds, e'.id ≠ d.id.methodAlias) →
      Added ds d (ds ++ [{ d with id := d.id.methodAlias }])
  /-- A method of that name makes way. -/
  | ahead {i : Nat} {e : Declaration} : ds[i]? = some e → e.id = d.id → e.kind = .method →
      d.kind ≠ .method →
      Added ds d (ds.modify i (fun m => { m with id := d.id.methodAlias }) ++ [d])
  | overload {i : Nat} {e : Declaration} {place : Location} : ds[i]? = some e →
      e.id = d.id ∨ e.id = d.id.methodAlias → e.kind = d.kind → d.location = some place →
      Added ds d (ds.modify i (.withOverload place.layout))

theorem decls_getElem? {i : Nat} {e : Entry} (h : r.entries[i]? = some e) :
    r.decls[i]? = some e.decl := by
  simp [decls, h]

theorem added_at (r : Reader) {d d' : Declaration} {own : List UseSite} {i : Nat} {e : Entry}
    (he : r.entries[i]? = some e) (hid : e.decl.id = d.id ∨ e.decl.id = d.id.methodAlias)
    (hkind : d'.kind = d.kind) (hplace : d'.location = d.location)
    (hother : e.decl.kind ≠ d.kind →
      (e.decl.id = d.id ∧ e.decl.kind ≠ .method ∧ d.kind ≠ .method) ∨
        (e.decl.id = d.id.methodAlias ∧ d.kind = .method)) :
    Added r.decls d (if r.entries[i]?.map (·.decl.kind) == some d'.kind then
      match d'.location with
      | some place => { r with entries := r.entries.modify i (addOverload place.layout own) }
      | none => { r with entries := r.entries.modify i (addSites own) }
    else r : Reader).decls := by
  split
  · rename_i hsame
    have hsame : e.decl.kind = d.kind := by simpa [he, hkind] using hsame
    split
    · rename_i place hlocation
      have hmodify : (r.entries.modify i (addOverload place.layout own)).map (·.decl) =
          r.decls.modify i (.withOverload place.layout) := map_modify_decl fun _ => rfl
      unfold decls
      dsimp only
      rw [hmodify]
      exact .overload (decls_getElem? he) hid hsame (hplace ▸ hlocation)
    · rename_i hlocation
      unfold decls
      dsimp only
      rw [map_addSites]
      exact .unplaced (hplace ▸ hlocation)
  · rename_i hdiffer
    have hdiffer : e.decl.kind ≠ d.kind := by simpa [he, hkind] using hdiffer
    exact .passedOver (List.mem_of_getElem? (decls_getElem? he)) (hother hdiffer) hdiffer

theorem added_last (r : Reader) {d : Declaration} {sites : List UseSite} :
    ({ r with entries := r.entries ++ [{ decl := d, sites }] } : Reader).decls =
      r.decls ++ [d] := by
  simp [decls]

/-- No name is given twice, and a method under its alias has made way for something else. -/
structure Unique (ds : List Declaration) : Prop where
  ids : ∀ (i j : Nat) (d e : Declaration), ds[i]? = some d → ds[j]? = some e → d.id = e.id → i = j
  aliases : ∀ d ∈ ds, ∀ p, d.id = p.methodAlias → ∃ e ∈ ds, e.id = p ∧ e.kind ≠ .method

/-- As long as no name is given twice, adding a member is a step of `Added`. -/
theorem addMember_added (r : Reader) (d : Declaration) (own : List UseSite)
    (h : Unique r.decls) : Added r.decls d (r.addMember d own).decls := by
  rw [← decls_propagate r own] at h ⊢
  unfold addMember
  dsimp only
  generalize r.propagate own = r at h ⊢
  cases hi : r.indexOf? d.id with
  | none =>
    simp only [settleName, hi, added_last]
    refine .new fun e he => ?_
    obtain ⟨entry, hentry, rfl⟩ := List.mem_map.mp he
    exact indexOf?_none hi entry hentry
  | some i =>
    obtain ⟨e, he, hid⟩ := indexOf?_some hi
    have hdecl := decls_getElem? he
    simp only [settleName, hi, he, Option.map_some]
    by_cases hmethod : (e.decl.kind != d.kind && d.kind == .method) = true
    · rw [if_pos hmethod]
      simp only [Bool.and_eq_true, bne_iff_ne, ne_eq, beq_iff_eq] at hmethod
      dsimp only
      split
      · rename_i j hj
        obtain ⟨e', he', hid'⟩ := indexOf?_some hj
        exact added_at r he' (Or.inr hid') rfl rfl fun _ => Or.inr ⟨hid', hmethod.2⟩
      · rename_i hfree
        rw [added_last]
        refine .aside hmethod.2 (List.mem_of_getElem? hdecl) hid
          (fun hk => hmethod.1 (hk.trans hmethod.2.symm)) fun e' he' => ?_
        obtain ⟨entry, hentry, rfl⟩ := List.mem_map.mp he'
        exact indexOf?_none hfree entry hentry
    · rw [if_neg hmethod]
      by_cases hexisting : (e.decl.kind != d.kind && e.decl.kind == .method) = true
      · rw [if_pos hexisting]
        simp only [Bool.and_eq_true, bne_iff_ne, ne_eq, beq_iff_eq] at hexisting
        dsimp only
        have hfree : indexOf? { r with
            entries := r.entries.modify i (rename d.id.methodAlias) } d.id = none := by
          refine List.findIdx?_eq_none_iff.mpr fun e' he' => beq_eq_false_iff_ne.mpr ?_
          obtain ⟨j, hj⟩ := List.mem_iff_getElem?.mp he'
          rw [List.getElem?_modify] at hj
          obtain ⟨e₀, he₀, rfl⟩ := Option.map_eq_some_iff.mp hj
          split
          · exact methodAlias_ne d.id
          · rename_i hij
            exact fun hid' =>
              hij (h.ids i j _ _ hdecl (decls_getElem? he₀) (hid.trans hid'.symm))
        simp only [hfree]
        have hrename : (r.entries.modify i (rename d.id.methodAlias)).map (·.decl) =
            r.decls.modify i fun m => { m with id := d.id.methodAlias } :=
          map_modify_decl fun _ => rfl
        unfold decls at hdecl hrename ⊢
        dsimp only
        rw [List.map_append, hrename]
        exact .ahead hdecl hid hexisting.2 fun hk => hexisting.1 (hexisting.2.trans hk.symm)
      · rw [if_neg hexisting]
        dsimp only
        rw [hi]
        refine added_at r he (Or.inl hid) rfl rfl fun hdiffer => Or.inl ⟨hid, ?_, ?_⟩
        · simpa [hdiffer] using hexisting
        · simpa [hdiffer] using hmethod

section

variable {ds ds' : List Declaration} {d : Declaration}

theorem Unique.append (h : Unique ds) (hfree : ∀ e ∈ ds, e.id ≠ d.id)
    (halias : ∀ p, d.id = p.methodAlias → ∃ e ∈ ds, e.id = p ∧ e.kind ≠ .method) :
    Unique (ds ++ [d]) where
  ids i j a b ha hb hid := by
    rcases getElem?_concat_cases ha with ha | ⟨hi, rfl⟩ <;>
      rcases getElem?_concat_cases hb with hb | ⟨hj, hbd⟩
    · exact h.ids i j a b ha hb hid
    · exact absurd (hbd ▸ hid) (hfree a (List.mem_of_getElem? ha))
    · exact absurd hid.symm (hfree b (List.mem_of_getElem? hb))
    · exact hi.trans hj.symm
  aliases a ha p hp := by
    rcases List.mem_append.mp ha with ha | ha
    · obtain ⟨e, he, hrest⟩ := h.aliases a ha p hp
      exact ⟨e, List.mem_append_left _ he, hrest⟩
    · obtain rfl := List.mem_singleton.mp ha
      obtain ⟨e, he, hrest⟩ := halias p hp
      exact ⟨e, List.mem_append_left _ he, hrest⟩

theorem getElem?_modify_cases {α : Type} {l : List α} {i j : Nat} {g : α → α} {x : α}
    (h : (l.modify i g)[j]? = some x) :
    ∃ y, l[j]? = some y ∧ ((i = j ∧ x = g y) ∨ (i ≠ j ∧ x = y)) := by
  rw [List.getElem?_modify] at h
  obtain ⟨y, hy, rfl⟩ := Option.map_eq_some_iff.mp h
  refine ⟨y, hy, ?_⟩
  by_cases hij : i = j
  · exact Or.inl ⟨hij, if_pos hij⟩
  · exact Or.inr ⟨hij, if_neg hij⟩

theorem mem_modify_of_mem {α : Type} {l : List α} {i : Nat} {g : α → α} {x : α} (hx : x ∈ l) :
    g x ∈ l.modify i g ∨ x ∈ l.modify i g := by
  obtain ⟨j, hj⟩ := List.mem_iff_getElem?.mp hx
  by_cases hij : i = j
  · exact Or.inl (List.mem_of_getElem? (i := j) (by simp [hj, hij]))
  · exact Or.inr (List.mem_of_getElem? (i := j) (by simp [hj, hij]))

theorem Unique.withOverload (h : Unique ds) (i : Nat) (layout : Layout) :
    Unique (ds.modify i (.withOverload layout)) where
  ids j k a b ha hb hid := by
    obtain ⟨a₀, ha₀, ha⟩ := getElem?_modify_cases ha
    obtain ⟨b₀, hb₀, hb⟩ := getElem?_modify_cases hb
    have hida : a.id = a₀.id := by rcases ha with ⟨-, rfl⟩ | ⟨-, rfl⟩ <;> rfl
    have hidb : b.id = b₀.id := by rcases hb with ⟨-, rfl⟩ | ⟨-, rfl⟩ <;> rfl
    exact h.ids j k a₀ b₀ ha₀ hb₀ (hida.symm.trans (hid.trans hidb))
  aliases a ha p hp := by
    obtain ⟨j, hj⟩ := List.mem_iff_getElem?.mp ha
    obtain ⟨a₀, ha₀, ha⟩ := getElem?_modify_cases hj
    have hida : a.id = a₀.id := by rcases ha with ⟨-, rfl⟩ | ⟨-, rfl⟩ <;> rfl
    obtain ⟨e, he, hid, hkind⟩ := h.aliases a₀ (List.mem_of_getElem? ha₀) p (hida.symm.trans hp)
    rcases mem_modify_of_mem (i := i) (g := .withOverload layout) he with hmem | hmem
    · exact ⟨_, hmem, hid, hkind⟩
    · exact ⟨_, hmem, hid, hkind⟩

theorem Unique.ahead (h : Unique ds) (hplain : ∀ p : QName, d.id ≠ p.methodAlias) {i : Nat}
    {e : Declaration} (he : ds[i]? = some e) (hid : e.id = d.id) (hmethod : e.kind = .method)
    (hkind : d.kind ≠ .method) :
    Unique (ds.modify i (fun m => { m with id := d.id.methodAlias }) ++ [d]) := by
  have hfree : ∀ a ∈ ds, a.id ≠ d.id.methodAlias := by
    intro a ha hname
    obtain ⟨b, hb, hbid, hbkind⟩ := h.aliases a ha d.id hname
    obtain ⟨j, hj⟩ := List.mem_iff_getElem?.mp hb
    obtain rfl := h.ids i j e b he hj (hid.trans hbid.symm)
    obtain rfl := Option.some.inj (he.symm.trans hj)
    exact hbkind hmethod
  have hother : ∀ j a, ds[j]? = some a → i ≠ j → a.id ≠ d.id := fun j a ha hij hname =>
    hij (h.ids i j e a he ha (hid.trans hname.symm))
  constructor
  · intro j k a b ha hb hname
    rcases getElem?_concat_cases ha with ha | ⟨hj, rfl⟩ <;>
      rcases getElem?_concat_cases hb with hb | ⟨hk, hbd⟩
    · obtain ⟨a₀, ha₀, ⟨hij, rfl⟩ | ⟨hij, rfl⟩⟩ := getElem?_modify_cases ha <;>
        obtain ⟨b₀, hb₀, ⟨hik, rfl⟩ | ⟨hik, rfl⟩⟩ := getElem?_modify_cases hb
      · exact hij.symm.trans hik
      · exact absurd hname.symm (hfree b (List.mem_of_getElem? hb₀))
      · exact absurd hname (hfree a (List.mem_of_getElem? ha₀))
      · exact h.ids j k a b ha₀ hb₀ hname
    · subst hbd
      obtain ⟨a₀, ha₀, ⟨hij, rfl⟩ | ⟨hij, rfl⟩⟩ := getElem?_modify_cases ha
      · exact absurd hname (methodAlias_ne _)
      · exact absurd hname (hother j a ha₀ hij)
    · obtain ⟨b₀, hb₀, ⟨hik, rfl⟩ | ⟨hik, rfl⟩⟩ := getElem?_modify_cases hb
      · exact absurd hname.symm (methodAlias_ne _)
      · exact absurd hname.symm (hother k b hb₀ hik)
    · exact hj.trans hk.symm
  · intro a ha p hp
    rcases List.mem_append.mp ha with ha | ha
    · obtain ⟨j, hj⟩ := List.mem_iff_getElem?.mp ha
      obtain ⟨a₀, ha₀, ⟨hij, rfl⟩ | ⟨hij, rfl⟩⟩ := getElem?_modify_cases hj
      · exact ⟨d, by simp, methodAlias_inj hp, hkind⟩
      · obtain ⟨b, hb, hbid, hbkind⟩ := h.aliases a (List.mem_of_getElem? ha₀) p hp
        obtain ⟨k, hk⟩ := List.mem_iff_getElem?.mp hb
        have hik : i ≠ k := by
          rintro rfl
          obtain rfl := Option.some.inj (he.symm.trans hk)
          exact hbkind hmethod
        refine ⟨b, List.mem_append_left _ (List.mem_of_getElem? (i := k) ?_), hbid, hbkind⟩
        simp [hk, hik]
    · obtain rfl := List.mem_singleton.mp ha
      exact absurd hp (hplain p)

theorem Unique.added (h : Unique ds) (hplain : ∀ p : QName, d.id ≠ p.methodAlias)
    (ha : Added ds d ds') : Unique ds' := by
  cases ha with
  | passedOver => exact h
  | unplaced => exact h
  | new hfree => exact h.append hfree fun p hp => absurd hp (hplain p)
  | aside hmethod he hid hkind hfree =>
    exact h.append hfree fun p hp => ⟨_, he, hid.trans (methodAlias_inj hp), hkind⟩
  | ahead he hid hmethod hkind => exact h.ahead hplain he hid hmethod hkind
  | overload => exact h.withOverload _ _

end

theorem Unique.addMember (h : Unique r.decls) {d : Declaration} (own : List UseSite)
    (hplain : ∀ p : QName, d.id ≠ p.methodAlias) : Unique (r.addMember d own).decls :=
  h.added hplain (addMember_added r d own h)

theorem Unique.readCallable (hu : Unique r.decls) (h : Coherent source r)
    {kind : Declaration.Kind} {n : Node} (hn : Tidy source n) (hk : n.kind ≠ .annotationMark) :
    Unique (r.readCallable kind n).decls := by
  unfold Reader.readCallable
  split
  · exact hu
  dsimp only
  split
  · exact hu
  rename_i id name hidentity
  obtain ⟨s, ⟨-, hplain⟩, rfl⟩ := h.identity hn hk hidentity
  exact hu.addMember _ (member_ne_alias hplain)

theorem Unique.readDeclarator (hu : Unique r.decls) (h : Coherent source r) (n : Node) {d : Node}
    (count : Nat) (owner : QName) (hd : Tidy source d) (hk : d.kind = .variableDeclarator) :
    Unique (Reader.readDeclarator n count owner r d).decls := by
  unfold Reader.readDeclarator
  split
  · exact hu
  rename_i nameNode hname
  exact hu.addMember _ (member_ne_alias (h.plain hd (by simp [hk]) hname))

theorem Unique.readDeclarators {n : Node} {count : Nat} {f : TypeFrame} (ds : List Node) :
    ∀ {r : Reader}, Unique r.decls → Coherent source r → r.owner? = some f →
      (∀ d ∈ ds, Tidy source d ∧ d.kind = .variableDeclarator) →
      Unique (ds.foldl (Reader.readDeclarator n count f.id) r).decls := by
  induction ds with
  | nil => exact fun hu _ _ _ => hu
  | cons d ds ih =>
    intro r hu h hf hds
    obtain ⟨hd, hk⟩ := hds d List.mem_cons_self
    obtain ⟨hnext, hframes⟩ := h.readDeclarator n count hf hd hk
    refine ih (hu.readDeclarator h n count f.id hd hk) hnext ?_
      fun d' hd' => hds d' (List.mem_cons_of_mem _ hd')
    unfold owner?
    rw [hframes]
    exact hf

theorem Unique.readField (hu : Unique r.decls) (h : Coherent source r) {n : Node}
    (hn : Tidy source n) : Unique (r.readField n).decls := by
  unfold Reader.readField
  split
  · exact hu
  · rename_i f hf
    exact hu.readDeclarators _ h hf fun d hd => hn.declarator hd

theorem Unique.readConstant (hu : Unique r.decls) (h : Coherent source r) {n : Node}
    (hn : Tidy source n) (hk : n.kind ≠ .annotationMark) : Unique (r.readConstant n).decls := by
  unfold Reader.readConstant
  split
  · rename_i f nameNode hf hname
    split
    · exact hu.addMember _ (member_ne_alias (h.plain hn hk hname))
    · exact hu
  · exact hu

def typeOutline (r : Reader) (n : Node) : Outline :=
  { span := n.span
    body := (n.child? .body).map (·.span)
    constants := (n.child? .body).bind constantSpan?
    modifiers := r.modifierTexts n }

def typeDeclaration (r : Reader) (kind : Declaration.Kind) (n c : Node) : Declaration :=
  r.declaration (r.typeId (r.text c)) (r.text c) kind n (r.typeOutline n)

/-- Reading goes on in the body of a type whose name was free. -/
structure Opens (kind : Declaration.Kind) (n c : Node) (r r' : Reader) : Prop where
  name : n.child? .name = some c
  free : ∀ e ∈ r.decls, e.id ≠ r.typeId (r.text c)
  path : r'.path = r.path
  decls : r'.decls = r.decls ++ [r.typeDeclaration kind n c]
  frames : ∃ f, r'.frames = r.frames ++ [f] ∧ f.index = r.decls.length ∧
    f.id = r.typeId (r.text c)
  kind : r'.owner?.map (·.kind) = some kind
  rest : ∃ es tops fs, r' = { r with entries := es, topLevel := tops, frames := fs }
  topLevel : r'.topLevel =
    if r.frames.isEmpty then r.topLevel ++ [r.typeId (r.text c)] else r.topLevel

theorem openType?_opens {kind : Declaration.Kind} {n : Node} {r r' : Reader}
    (h : r.openType? kind n = some r') : ∃ c, Opens kind n c r r' := by
  unfold Reader.openType? at h
  obtain ⟨c, hname, h⟩ := Option.bind_eq_some_iff.mp h
  dsimp only at h
  split at h
  · cases h
  rename_i hfree
  have hsame := decls_propagate r (r.headerSites n)
  obtain rfl := Option.some.inj h
  refine ⟨c, hname, fun d hd => ?_, rfl, ?_, ⟨_, rfl, by simp [Reader.decls], rfl⟩, ?_,
    ⟨_, _, _, rfl⟩, rfl⟩
  · obtain ⟨e, he, rfl⟩ := List.mem_map.mp hd
    exact indexOf?_none (by simpa using hfree) e he
  · unfold Reader.decls at hsame ⊢
    rw [List.map_append, hsame]
    rfl
  · simp [owner?]

theorem typeId_ne_alias (r : Reader) {name : String} (h : ')' ∉ name.toList) (p : QName) :
    r.typeId name ≠ p.methodAlias := by
  unfold typeId
  split
  · exact member_ne_alias h p
  · exact member_ne_alias h p
  · exact ne_alias_of_getLast (fun hlast => h (List.mem_of_getLast? hlast)) p

theorem Unique.openType? (hu : Unique r.decls) (h : Coherent source r) {kind : Declaration.Kind}
    {n : Node} (hn : Tidy source n) (hk : n.kind ≠ .annotationMark) {r' : Reader}
    (hopen : r.openType? kind n = some r') : Unique r'.decls := by
  obtain ⟨c, ho⟩ := openType?_opens hopen
  rw [ho.decls]
  exact hu.append ho.free fun p hp =>
    absurd hp (typeId_ne_alias r (h.plain hn hk ho.name) p)

mutual
theorem Unique.readMember : ∀ {n : Node} {r : Reader}, Tidy source n → Coherent source r →
    Unique r.decls → Unique (Reader.readMember n r).decls
  | .mk k role e cs, r, hn, h, hu => by
    unfold Reader.readMember
    dsimp only
    split
    · exact hu.readCallable h hn (by simp [Node.kind])
    · exact hu.readCallable h hn (by simp [Node.kind])
    · exact hu.readCallable h hn (by simp [Node.kind])
    · exact hu.readCallable h hn (by simp [Node.kind])
    · exact hu.readField h hn
    · exact hu.readConstant h hn (by simp [Node.kind])
    · exact Unique.readMembers hn.children h hu
    · exact (decls_propagate r _).symm ▸ hu
    · exact (decls_propagate r _).symm ▸ hu
    · split
      · rename_i kind hkind
        obtain ⟨htype, hk⟩ := typeKind?_isType hkind
        split
        · rename_i inner hopen
          exact Unique.readBody hn.children (h.openType? htype hn hk hopen)
            (hu.openType? h hn hk hopen)
        · exact hu
      · exact hu

theorem Unique.readMembers : ∀ {ns : List Node} {r : Reader}, (∀ n ∈ ns, Tidy source n) →
    Coherent source r → Unique r.decls → Unique (Reader.readMembers ns r).decls
  | [], r, _, _, hu => by unfold Reader.readMembers; exact hu
  | n :: ns, r, hns, h, hu => by
    unfold Reader.readMembers
    have hn := hns n List.mem_cons_self
    exact Unique.readMembers (fun m hm => hns m (List.mem_cons_of_mem _ hm)) (h.readMember hn)
      (Unique.readMember hn h hu)

theorem Unique.readBody : ∀ {ns : List Node} {r : Reader}, (∀ n ∈ ns, Tidy source n) →
    Coherent source r → Unique r.decls → Unique (Reader.readBody ns r).decls
  | [], r, _, _, hu => by unfold Reader.readBody; exact hu
  | .mk k role e inner :: ns, r, hns, h, hu => by
    unfold Reader.readBody
    split
    · exact Unique.readMembers (hns _ List.mem_cons_self).children h hu
    · exact Unique.readBody (fun m hm => hns m (List.mem_cons_of_mem _ hm)) h hu
end

theorem decls_start (s : SourceTree) : s.start.decls = [] := rfl

theorem Unique.start (s : SourceTree) : Unique s.start.decls :=
  ⟨by simp [decls_start], by simp [decls_start]⟩

end Java.Reader

namespace Java

/-- The declarations of a file have names of their own. -/
theorem SourceTree.distinct (s : SourceTree) : (s.read.entries.map (·.decl.id)).Nodup := by
  have h := Reader.Unique.readMembers s.topTypes_tidy (.start s) (.start s)
  refine List.pairwise_iff_getElem.mpr fun i j hi hj hlt hid => ?_
  rw [List.length_map] at hi hj
  simp only [List.getElem_map] at hid
  have hsame : i = j := h.ids i j _ _ (Reader.decls_getElem? (List.getElem?_eq_getElem hi))
    (Reader.decls_getElem? (List.getElem?_eq_getElem hj)) hid
  omega

end Java

end Carve
