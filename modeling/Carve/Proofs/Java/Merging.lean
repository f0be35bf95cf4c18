import Carve.Proofs.Java.Places
import Carve.Proofs.Java.Tops
import Carve.Proofs.Java.Written

/-!
# Merging members

A member that is read finds its name free, taken by a method of its name or by a field. What the
file then declares for the type is what all the members read so far are merged to, in whatever
order fields and overloads come: each step of adding a member is one step of merging.
-/

namespace Carve

namespace QName

theorem member_right_inj {o : QName} {x y : String} (h : o.member x = o.member y) : x = y := by
  have hlist := congrArg (fun q : QName => q.text.toList) h
  simp only [member_toList] at hlist
  exact String.toList_inj.mp (List.cons.inj (List.append_cancel_left hlist)).2

end QName

namespace Java

open QName

theorem MemberKind.kind_inj : ∀ {k k' : MemberKind}, k.kind = k'.kind → k = k'
  | .method, .method, _ => rfl
  | .field, .field, _ => rfl

theorem MemberKind.eq_field {k : MemberKind} {kind : Declaration.Kind} (hk : kind = k.kind)
    (h : kind ≠ .method) : k = .field := by
  cases k with
  | method => exact absurd hk h
  | field => rfl

theorem kind_cases (k : Declaration.Kind) :
    k.isType = true ∨ k = .ctor ∨ ∃ kind : MemberKind, k = kind.kind := by
  cases k
  case method => exact Or.inr (Or.inr ⟨.method, rfl⟩)
  case field => exact Or.inr (Or.inr ⟨.field, rfl⟩)
  case ctor => exact Or.inr (Or.inl rfl)
  all_goals exact Or.inl rfl

/-- A name that stands in the text as a single word, as every identifier does. -/
def Word (name : String) : Prop := ∀ c ∈ name.toList, Token.IsWordChar c

instance (name : String) : Decidable (Word name) :=
  inferInstanceAs (Decidable (∀ c ∈ name.toList, Token.IsWordChar c))

theorem Word.dotless {x : String} (h : Word x) : '.' ∉ x.toList :=
  fun hdot => absurd (h '.' hdot) (by decide)

theorem Word.plain {x : String} (h : Word x) : ')' ∉ x.toList :=
  fun hparen => absurd (h ')' hparen) (by decide)

theorem Word.ne_ctorName {x : String} (h : Word x) : x ≠ ctorName := by
  rintro rfl
  exact absurd (h '<' (by decide)) (by decide)

/-- `m` tells exactly the members of this type that are among the declarations. -/
def Listed (owner : QName) (m : MemberKind → String → Option Declaration)
    (ds : List Declaration) : Prop :=
  ∀ (kind : MemberKind) (d : Declaration),
    (d ∈ ds ∧ d.parent = some owner ∧ d.kind = kind.kind) ↔ m kind d.name = some d

/-- What the declarations have for this type is what its members are merged to. -/
structure Merged (s : SourceText) (owner : QName) (ws : List Written)
    (ds : List Declaration) : Prop where
  words : ∀ w ∈ ws, Word w.name
  listed : Listed owner (merged s owner ws) ds
  types : ∀ d ∈ ds, d.parent = some owner → d.kind.isType = true →
    ∃ w ∈ ws, w.kind.isType = true ∧ d.id = owner.member w.name

/-- The name of a declaration fits its kind. -/
structure Apt (package : Option String) (d : Declaration) : Prop where
  ctor : d.kind = .ctor → ∃ p : QName, d.id = p.ctor
  plain : d.kind ≠ .method → ∀ p : QName, d.id ≠ p.methodAlias
  top : d.kind.isType = true → d.parent = none → TopName package d.id
  within : d.kind.isType = true → ∀ p, package = some p → p.length < d.id.text.length

def Reserved (owner : QName) (ds : List Declaration) : Prop :=
  ∀ e ∈ ds, Below owner e.id → e.parent = some owner

section

variable {s : SourceText} {owner : QName} {ws : List Written} {w : Written} {kind : MemberKind}
  {m m' : MemberKind → String → Option Declaration} {ds ds' : List Declaration}
  {d e : Declaration} {i : Nat} {g : Declaration → Declaration} {package : Option String}
  {x : String}

theorem of_mem_modify (he : ds[i]? = some e) (hd : d ∈ ds.modify i g) : d = g e ∨ d ∈ ds := by
  obtain ⟨j, hj⟩ := List.mem_iff_getElem?.mp hd
  obtain ⟨d₀, hd₀, ⟨rfl, rfl⟩ | ⟨-, rfl⟩⟩ := Reader.getElem?_modify_cases hj
  · obtain rfl := Option.some.inj (he.symm.trans hd₀)
    exact Or.inl rfl
  · exact Or.inr (List.mem_of_getElem? hd₀)

theorem mem_modify_of_ne (he : ds[i]? = some e) (hd : d ∈ ds) (hne : d ≠ e) :
    d ∈ ds.modify i g := by
  obtain ⟨j, hj⟩ := List.mem_iff_getElem?.mp hd
  have hij : i ≠ j := by
    rintro rfl
    exact hne (Option.some.inj (hj.symm.trans he))
  exact List.mem_of_getElem? (i := j) (by simp [hj, hij])

theorem mem_modify_iff_of_ne (he : ds[i]? = some e) (hne : d ≠ e) (hne' : d ≠ g e) :
    d ∈ ds.modify i g ↔ d ∈ ds :=
  ⟨fun hd => (of_mem_modify he hd).resolve_left hne', fun hd => mem_modify_of_ne he hd hne⟩

theorem mem_modify_iff (hu : Reader.Unique ds) (he : ds[i]? = some e) :
    d ∈ ds.modify i g ↔ (d ∈ ds ∧ d ≠ e) ∨ d = g e := by
  constructor
  · intro hd
    obtain ⟨j, hj⟩ := List.mem_iff_getElem?.mp hd
    obtain ⟨d₀, hd₀, ⟨rfl, rfl⟩ | ⟨hij, rfl⟩⟩ := Reader.getElem?_modify_cases hj
    · obtain rfl := Option.some.inj (he.symm.trans hd₀)
      exact Or.inr rfl
    · refine Or.inl ⟨List.mem_of_getElem? hd₀, ?_⟩
      rintro rfl
      exact hij (hu.ids i j _ _ he hd₀ rfl)
  · rintro (⟨hd, hne⟩ | rfl)
    · exact mem_modify_of_ne he hd hne
    · exact List.mem_of_getElem? (i := i) (by simp [he])

/-! ### Members one by one -/

def SameBut (kind : MemberKind) (name : String) (m m' : MemberKind → String → Option Declaration) :
    Prop :=
  ∀ k n, ¬ (k = kind ∧ n = name) → m' k n = m k n

theorem Listed.append (h : Listed owner m ds) (hparent : d.parent = some owner)
    (hkind : d.kind = kind.kind) (hfree : m kind d.name = none) (hnew : m' kind d.name = some d)
    (hsame : SameBut kind d.name m m') : Listed owner m' (ds ++ [d]) := by
  intro k e
  by_cases hplace : k = kind ∧ e.name = d.name
  · obtain ⟨rfl, hname⟩ := hplace
    rw [hname, hnew]
    constructor
    · rintro ⟨he, hpair⟩
      rcases List.mem_append.mp he with hold | hlast
      · rw [← hname, (h k e).mp ⟨hold, hpair⟩] at hfree
        cases hfree
      · rw [List.mem_singleton.mp hlast]
    · intro heq
      obtain rfl := Option.some.inj heq
      exact ⟨by simp, hparent, hkind⟩
  · rw [hsame k e.name hplace, ← h k e]
    refine and_congr_left fun ⟨_, hk⟩ => ?_
    have hne : e ≠ d := by
      rintro rfl
      exact hplace ⟨MemberKind.kind_inj (hk.symm.trans hkind), rfl⟩
    simp [hne]

theorem Listed.modify (h : Listed owner m ds) (hu : Reader.Unique ds) (he : ds[i]? = some e)
    (hold : m kind x = some e) (hname : (g e).name = x) (hparent : (g e).parent = some owner)
    (hkind : (g e).kind = kind.kind) (hx : e.name = x) (hnew : m' kind x = some (g e))
    (hsame : SameBut kind x m m') : Listed owner m' (ds.modify i g) := by
  intro k d
  rw [mem_modify_iff hu he]
  have hmember := (h kind e).mpr (hx ▸ hold)
  by_cases hplace : k = kind ∧ d.name = x
  · obtain ⟨rfl, hdname⟩ := hplace
    rw [hdname, hnew]
    constructor
    · rintro ⟨⟨hd, hne⟩ | rfl, hpair⟩
      · have hlisted := (h k d).mp ⟨hd, hpair⟩
        rw [hdname, hold] at hlisted
        exact absurd (Option.some.inj hlisted).symm hne
      · rfl
    · intro heq
      obtain rfl := Option.some.inj heq
      exact ⟨Or.inr rfl, hparent, hkind⟩
  · rw [hsame k d.name hplace, ← h k d]
    refine and_congr_left fun ⟨_, hk⟩ => ?_
    have hne : d ≠ e := by
      rintro rfl
      exact hplace ⟨MemberKind.kind_inj (hk.symm.trans hmember.2.2), hx⟩
    have hne' : d ≠ g e := by
      rintro rfl
      exact hplace ⟨MemberKind.kind_inj (hk.symm.trans hkind), hname⟩
    simp [hne, hne']

/-! ### Members and their names -/

/-- The plain name of a member, or its alias. -/
def Calls (owner : QName) (name : String) (id : QName) : Prop :=
  id = owner.member name ∨ id = (owner.member name).methodAlias

theorem Calls.below {id : QName} (h : Calls owner x id) (hdot : '.' ∉ x.toList) :
    Below owner id := by
  rcases h with rfl | rfl
  · exact ⟨x, hdot, rfl⟩
  · exact below_alias ⟨x, hdot, rfl⟩

/-- Names without parentheses are told apart even by their aliases. -/
theorem Calls.name_eq {id : QName} {y : String} (h : Calls owner x id) (h' : Calls owner y id)
    (hx : ')' ∉ x.toList) (hy : ')' ∉ y.toList) : x = y := by
  rcases h with hplain | halias <;> rcases h' with hplain' | halias'
  · exact member_right_inj (hplain.symm.trans hplain')
  · exact absurd (hplain.symm.trans halias') (member_ne_alias hx _)
  · exact absurd (hplain'.symm.trans halias) (member_ne_alias hy _)
  · exact member_right_inj (methodAlias_inj (halias.symm.trans halias'))

theorem settledId_cases (owner : QName) (ws : List Written) (kind : MemberKind) (name : String) :
    settledId owner ws kind name = owner.member name ∨
      (kind = .method ∧ called ws .field name ≠ [] ∧
        settledId owner ws kind name = (owner.member name).methodAlias) := by
  unfold settledId
  split
  · rename_i h
    exact Or.inr ⟨h.1, h.2, rfl⟩
  · exact Or.inl rfl

theorem settledId_field (owner : QName) (ws : List Written) (name : String) :
    settledId owner ws .field name = owner.member name := by
  simp [settledId]

theorem calls_settledId (owner : QName) (ws : List Written) (kind : MemberKind) (name : String) :
    Calls owner name (settledId owner ws kind name) := by
  rcases settledId_cases owner ws kind name with hplain | ⟨-, -, halias⟩
  · exact Or.inl hplain
  · exact Or.inr halias

theorem Merged.name_eq (h : Merged s owner ws ds) (hparen : ')' ∉ x.toList)
    (hmerged : merged s owner ws kind d.name = some d) (hcalls : Calls owner x d.id) :
    d.name = x := by
  obtain ⟨-, -, -, hsettled, w, hw, -, hname⟩ := merged_some hmerged
  have hword : Word d.name := hname ▸ h.words w hw
  exact Calls.name_eq (hsettled ▸ calls_settledId owner ws kind d.name) hcalls hword.plain hparen

theorem Merged.of_plain (h : Merged s owner ws ds) (hapt : ∀ d ∈ ds, Apt package d)
    (hreserved : Reserved owner ds) (hx : Word x)
    (hfree : ∀ t ∈ ws, t.kind.isType = true → t.name ≠ x) (he : e ∈ ds)
    (hid : e.id = owner.member x) :
    ∃ kind : MemberKind, e.kind = kind.kind ∧ merged s owner ws kind x = some e := by
  have hparent := hreserved e he ⟨x, hx.dotless, hid⟩
  rcases kind_cases e.kind with htype | hctor | ⟨kind, hkind⟩
  · obtain ⟨t, ht, httype, htid⟩ := h.types e he hparent htype
    exact absurd (member_right_inj (htid.symm.trans hid)) (hfree t ht httype)
  · obtain ⟨p, hp⟩ := (hapt e he).ctor hctor
    have hsame : p.member ctorName = owner.member x := hp.symm.trans hid
    obtain rfl := member_inj (by decide) hx.dotless hsame
    exact absurd (member_right_inj hsame).symm hx.ne_ctorName
  · have hmerged := (h.listed kind e).mp ⟨he, hparent, hkind⟩
    exact ⟨kind, hkind, h.name_eq hx.plain hmerged (Or.inl hid) ▸ hmerged⟩

theorem Merged.of_alias (h : Merged s owner ws ds) (hapt : ∀ d ∈ ds, Apt package d)
    (hreserved : Reserved owner ds) (hx : Word x) (he : e ∈ ds)
    (hid : e.id = (owner.member x).methodAlias) :
    e.kind = .method ∧ merged s owner ws .method x = some e := by
  have hcalls : Calls owner x e.id := Or.inr hid
  have hparent := hreserved e he (hcalls.below hx.dotless)
  have hkind : e.kind = .method := by
    by_contra hother
    exact (hapt e he).plain hother _ hid
  have hmerged := (h.listed .method e).mp ⟨he, hparent, hkind⟩
  exact ⟨hkind, h.name_eq hx.plain hmerged hcalls ▸ hmerged⟩

theorem Merged.free (h : Merged s owner ws ds)
    (hid : ∀ e ∈ ds, e.id ≠ settledId owner ws kind x) : merged s owner ws kind x = none := by
  refine Option.eq_none_iff_forall_ne_some.mpr fun d hd => ?_
  obtain ⟨hname, -, -, hsettled, -⟩ := merged_some hd
  exact hid d ((h.listed kind d).mpr (hname ▸ hd)).1 hsettled

theorem sameBut_merged (hw : w.kind = kind.kind)
    (hgive : kind = .field → merged s owner ws .method w.name = none) :
    SameBut kind w.name (merged s owner ws) (merged s owner (ws ++ [w])) := by
  intro k n hother
  by_cases hname : w.name = n
  · subst hname
    have hkinds : k ≠ kind := fun heq => hother ⟨heq, rfl⟩
    have hk : w.kind ≠ k.kind := fun heq => hkinds (MemberKind.kind_inj (heq.symm.trans hw))
    cases kind with
    | method =>
      refine merged_append_other (Or.inl hk) fun _ => Or.inl ?_
      rw [hw]
      decide
    | field =>
      cases k with
      | method => rw [merged_append_field hw, hgive rfl, Option.map_none]
      | field => exact absurd rfl hkinds
  · exact merged_append_of_name_ne hname

theorem type_of_added (hmember : d.kind.isType = false) (ha : Reader.Added ds d ds') :
    ∀ T ∈ ds', T.kind.isType = true → T ∈ ds := by
  intro T hT htype
  cases ha with
  | passedOver => exact hT
  | unplaced => exact hT
  | new =>
    rcases List.mem_append.mp hT with hold | hlast
    · exact hold
    · rw [List.mem_singleton.mp hlast, hmember] at htype
      cases htype
  | aside =>
    rcases List.mem_append.mp hT with hold | hlast
    · exact hold
    · rw [List.mem_singleton.mp hlast] at htype
      exact absurd htype (by simp [hmember])
  | @ahead i e he hid hmethod =>
    rcases List.mem_append.mp hT with hold | hlast
    · rcases of_mem_modify he hold with rfl | hmem
      · exact absurd htype (by simp [hmethod, Declaration.Kind.isType])
      · exact hmem
    · rw [List.mem_singleton.mp hlast, hmember] at htype
      cases htype
  | @overload i e place he hid hkind =>
    rcases of_mem_modify he hT with rfl | hmem
    · exact absurd htype (by simp [Declaration.withOverload, hkind, hmember])
    · exact hmem

theorem Merged.of_listed (h : Merged s owner ws ds) (hx : Word w.name)
    (hlisted : Listed owner (merged s owner (ws ++ [w])) ds')
    (htypes : ∀ T ∈ ds', T.kind.isType = true → T ∈ ds) : Merged s owner (ws ++ [w]) ds' where
  words v hv := by
    rcases List.mem_append.mp hv with hold | hlast
    · exact h.words v hold
    · exact List.mem_singleton.mp hlast ▸ hx
  listed := hlisted
  types T hT hparent htype := by
    obtain ⟨t, ht, hrest⟩ := h.types T (htypes T hT htype) hparent htype
    exact ⟨t, List.mem_append_left _ ht, hrest⟩

/-- The first member of its kind and name, under the name that is left for it. -/
theorem Merged.append (h : Merged s owner ws ds) (hw : w.kind = kind.kind)
    (hfree : merged s owner ws kind w.name = none)
    (hgive : kind = .field → merged s owner ws .method w.name = none) :
    Listed owner (merged s owner (ws ++ [w]))
      (ds ++ [{ w.alone s owner with id := settledId owner ws kind w.name }]) :=
  h.listed.append rfl hw hfree (merged_append_new hw hfree) (sameBut_merged hw hgive)

theorem Merged.append_plain (h : Merged s owner ws ds) (hw : w.kind = kind.kind)
    (hfree : ∀ e ∈ ds, e.id ≠ owner.member w.name) :
    Listed owner (merged s owner (ws ++ [w])) (ds ++ [w.alone s owner]) := by
  have hfield : merged s owner ws .field w.name = none :=
    h.free fun e he hid => hfree e he (hid.trans (settledId_field owner ws w.name))
  have hsettled : ∀ k, settledId owner ws k w.name = owner.member w.name := by
    intro k
    rcases settledId_cases owner ws k w.name with hplain | ⟨-, hgiven, -⟩
    · exact hplain
    · exact absurd (merged_eq_none_iff.mp hfield) hgiven
  have hnone : ∀ k, merged s owner ws k w.name = none := fun k =>
    h.free fun e he hid => hfree e he (hid.trans (hsettled k))
  have happend := h.append hw (hnone kind) fun _ => hnone .method
  rwa [hsettled kind] at happend

theorem Merged.append_alias (h : Merged s owner ws ds) (hw : w.kind = .method)
    (hgiven : called ws .field w.name ≠ [])
    (hfree : ∀ e ∈ ds, e.id ≠ (owner.member w.name).methodAlias) :
    Listed owner (merged s owner (ws ++ [w]))
      (ds ++ [{ w.alone s owner with id := (owner.member w.name).methodAlias }]) := by
  have hsettled : settledId owner ws .method w.name = (owner.member w.name).methodAlias := by
    simp [settledId, hgiven]
  have hnone : merged s owner ws .method w.name = none :=
    h.free fun e he hid => hfree e he (hid.trans hsettled)
  have happend := h.append hw hnone (by simp)
  rwa [hsettled] at happend

theorem Merged.overload (h : Merged s owner ws ds) (hu : Reader.Unique ds) (hw : w.kind = .method)
    (he : ds[i]? = some e) (hold : merged s owner ws .method w.name = some e) :
    Listed owner (merged s owner (ws ++ [w])) (ds.modify i (.withOverload ⟨w.outline, []⟩)) := by
  obtain ⟨hname, hkind, hparent, -⟩ := merged_some hold
  exact h.listed.modify hu he hold hname hparent hkind hname (merged_append_overload hw hold)
    (sameBut_merged hw (by simp))

/-- A field drives a method from its name. -/
theorem Merged.ahead (h : Merged s owner ws ds) (hu : Reader.Unique ds) (hw : w.kind = .field)
    (hnew : called ws .field w.name = []) (he : ds[i]? = some e)
    (hold : merged s owner ws .method w.name = some e) :
    Listed owner (merged s owner (ws ++ [w]))
      (ds.modify i (fun m => { m with id := (owner.member w.name).methodAlias }) ++
        [w.alone s owner]) := by
  obtain ⟨hname, hkind, hparent, -⟩ := merged_some hold
  have hfree : merged s owner ws .field w.name = none := merged_eq_none_iff.mpr hnew
  have hmoved : Listed owner
      (fun k n => if k = .method ∧ n = w.name then
        some { e with id := (owner.member w.name).methodAlias } else merged s owner ws k n)
      (ds.modify i fun m => { m with id := (owner.member w.name).methodAlias }) :=
    h.listed.modify hu he hold hname hparent hkind hname (by simp)
      fun k n hother => if_neg hother
  have hlast : (w.alone s owner).kind = MemberKind.field.kind := hw
  refine hmoved.append rfl hlast ((if_neg (by simp)).trans hfree) ?_ fun k n hother => ?_
  · rw [show (w.alone s owner).name = w.name from rfl, merged_append_new hw hfree, settledId_field]
    rfl
  show _ = if k = .method ∧ n = w.name then _ else _
  by_cases hn : w.name = n
  · subst hn
    cases k with
    | method =>
      rw [merged_append_field hw, hold]
      simp
    | field => exact absurd ⟨rfl, rfl⟩ hother
  · rw [merged_append_of_name_ne hn, if_neg fun hpair => hn hpair.2.symm]

/-- Adding a member merges it with those of its name, unless its name is that of a type. -/
theorem Merged.added (h : Merged s owner ws ds) (hu : Reader.Unique ds)
    (hapt : ∀ d ∈ ds, Apt package d) (hreserved : Reserved owner ds) (hx : Word w.name)
    (hw : w.kind = kind.kind) (hapart : Apart (ws ++ [w]))
    (ha : Reader.Added ds (w.alone s owner) ds') : Merged s owner (ws ++ [w]) ds' := by
  have hmember : w.kind.isType = false := by
    rw [hw]
    cases kind <;> rfl
  have htypes : ∀ t ∈ ws, t.kind.isType = true → t.name ≠ w.name := fun t ht httype =>
    hapart.types t (List.mem_append_left _ ht) w (by simp) httype hmember
  have hplain := fun e (he : e ∈ ds) => h.of_plain hapt hreserved hx htypes he
  have halias := fun e (he : e ∈ ds) => h.of_alias hapt hreserved hx he
  refine h.of_listed hx ?_ (type_of_added hmember ha)
  cases ha with
  | @passedOver e he hcase hkinds =>
    refine absurd ?_ hkinds
    rcases hcase with ⟨hid, hold, hnew⟩ | ⟨hid, hmethod⟩
    · obtain ⟨k, hk, -⟩ := hplain e he hid
      obtain rfl := MemberKind.eq_field hk hold
      obtain rfl := MemberKind.eq_field hw hnew
      exact hk.trans hw.symm
    · exact (halias e he hid).1.trans hmethod.symm
  | unplaced hnowhere => cases hnowhere
  | new hfree => exact h.append_plain hw hfree
  | @aside e hmethod he hid hother hfree =>
    obtain rfl : kind = .method := MemberKind.kind_inj (hw.symm.trans hmethod)
    obtain ⟨k, hk, hfield⟩ := hplain e he hid
    obtain rfl := MemberKind.eq_field hk hother
    exact h.append_alias hw (called_ne_nil hfield) hfree
  | @ahead i e he hid hmethod hother =>
    obtain rfl := MemberKind.eq_field hw hother
    obtain ⟨k, hk, hold⟩ := hplain e (List.mem_of_getElem? he) hid
    obtain rfl : k = .method := MemberKind.kind_inj (hk.symm.trans hmethod)
    exact h.ahead hu hw (hapart.new_field hw) he hold
  | @overload i e place he hid hkinds hplace =>
    have hold : merged s owner ws kind w.name = some e := by
      have hmem := List.mem_of_getElem? he
      have hkind : e.kind = kind.kind := hkinds.trans hw
      rcases hid with hid | hid
      · obtain ⟨k, hk, hold⟩ := hplain e hmem hid
        exact MemberKind.kind_inj (hk.symm.trans hkind) ▸ hold
      · obtain ⟨hmethod, hold⟩ := halias e hmem hid
        obtain rfl : kind = .method := MemberKind.kind_inj (hkind.symm.trans hmethod)
        exact hold
    obtain rfl := Option.some.inj hplace
    cases kind with
    | method => exact h.overload hu hw he hold
    | field => exact absurd (hapart.new_field hw) (called_ne_nil hold)

/-! ### What else is added -/

theorem Merged.congr (h : Merged s owner ws ds)
    (hsame : ∀ d, d.parent = some owner → d.kind ≠ .ctor → (d ∈ ds' ↔ d ∈ ds)) :
    Merged s owner ws ds' where
  words := h.words
  listed kind d := by
    rw [← h.listed kind d]
    refine and_congr_left fun ⟨hparent, hkind⟩ => hsame d hparent ?_
    rw [hkind]
    cases kind <;> decide
  types T hT hparent htype := by
    refine h.types T ((hsame T hparent ?_).mp hT) hparent htype
    intro hctor
    rw [hctor] at htype
    cases htype

theorem Merged.nothing (h : ∀ d ∈ ds, d.parent ≠ some owner) : Merged s owner [] ds where
  words := by simp
  listed kind d := by
    have hnone : merged s owner [] kind d.name ≠ some d := by simp [merged, called]
    exact iff_of_false (fun hd => h d hd.1 hd.2.1) hnone
  types T hT hparent := absurd hparent (h T hT)

theorem Merged.type (h : Merged s owner ws ds) (hx : Word w.name) (hw : w.kind.isType = true)
    (hold : ∀ d, d.kind.isType = false → (d ∈ ds' ↔ d ∈ ds))
    (hnew : ∀ d ∈ ds', d ∈ ds ∨ d.id = owner.member w.name) :
    Merged s owner (ws ++ [w]) ds' where
  words v hv := by
    rcases List.mem_append.mp hv with hold | hlast
    · exact h.words v hold
    · exact List.mem_singleton.mp hlast ▸ hx
  listed kind d := by
    have hother : ∀ k : MemberKind, w.kind ≠ k.kind := by
      intro k hk
      rw [hk] at hw
      cases k <;> cases hw
    rw [merged_append_other (Or.inl (hother kind)) fun _ => Or.inl (hother .field),
      ← h.listed kind d]
    refine and_congr_left fun ⟨_, hkind⟩ => hold d ?_
    rw [hkind]
    cases kind <;> rfl
  types T hT hparent htype := by
    rcases hnew T hT with hT | hid
    · obtain ⟨t, ht, hrest⟩ := h.types T hT hparent htype
      exact ⟨t, List.mem_append_left _ ht, hrest⟩
    · exact ⟨w, by simp, hw, hid⟩

theorem Merged.added_ctor (h : Merged s owner ws ds) (hreserved : Reserved owner ds)
    (hkind : d.kind = .ctor) (hid : d.id = owner.ctor) (ha : Reader.Added ds d ds') :
    Merged s owner ws ds' := by
  refine h.congr fun a _ hother => ?_
  have hne : a ≠ d := by
    rintro rfl
    exact hother hkind
  cases ha with
  | passedOver => exact Iff.rfl
  | unplaced => exact Iff.rfl
  | new => simp [hne]
  | aside hmethod =>
    rw [hkind] at hmethod
    cases hmethod
  | @ahead i e he heid hmethod =>
    have hname : e.id = owner.member ctorName := heid.trans hid
    have hmem := List.mem_of_getElem? he
    have hparent := hreserved e hmem ⟨ctorName, by decide, hname⟩
    have hmerged := (h.listed .method e).mp ⟨hmem, hparent, hmethod⟩
    obtain ⟨-, -, -, hsettled, w, hw, -, hword⟩ := merged_some hmerged
    rcases settledId_cases owner ws .method e.name with hplain | ⟨-, -, halias⟩
    · have hctor := member_right_inj (hname.symm.trans (hsettled.trans hplain))
      exact absurd (hctor ▸ hword) (h.words w hw).ne_ctorName
    · exact absurd (hname.symm.trans (hsettled.trans halias)) (member_ne_alias (by decide) _)
  | @overload i e place he _ hkinds =>
    have hctor : e.kind = .ctor := hkinds.trans hkind
    refine mem_modify_iff_of_ne he ?_ ?_
    · rintro rfl
      exact hother hctor
    · rintro rfl
      exact hother hctor

theorem spared_of_added (hreserved : Reserved owner ds) (hparent : d.parent = some owner)
    (hbelow : Below owner d.id) (ha : Reader.Added ds d ds') {a : Declaration}
    (hother : a.parent ≠ some owner) : a ∈ ds' ↔ a ∈ ds := by
  have hne : a ≠ d := by
    rintro rfl
    exact hother hparent
  cases ha with
  | passedOver => exact Iff.rfl
  | unplaced => exact Iff.rfl
  | new => simp [hne]
  | aside =>
    have hne' : a ≠ { d with id := d.id.methodAlias } := by
      rintro rfl
      exact hother hparent
    simp [hne']
  | @ahead i e he hid =>
    have heparent := hreserved e (List.mem_of_getElem? he) (hid ▸ hbelow)
    rw [List.mem_append, List.mem_singleton, or_iff_left hne]
    refine mem_modify_iff_of_ne he ?_ ?_
    · rintro rfl
      exact hother heparent
    · rintro rfl
      exact hother heparent
  | @overload i e place he hid =>
    have heparent : e.parent = some owner := by
      refine hreserved e (List.mem_of_getElem? he) ?_
      rcases hid with hid | hid
      · exact hid ▸ hbelow
      · exact hid ▸ below_alias hbelow
    refine mem_modify_iff_of_ne he ?_ ?_
    · rintro rfl
      exact hother heparent
    · rintro rfl
      exact hother heparent

theorem apt_of_member (hmember : d.kind.isType = false)
    (hctor : d.kind = .ctor → ∃ p : QName, d.id = p.ctor)
    (hplain : ∀ p : QName, d.id ≠ p.methodAlias) : Apt package d := by
  refine ⟨hctor, fun _ => hplain, ?_, ?_⟩ <;> simp [hmember]

theorem apt_of_method (h : d.kind = .method) : Apt package d := by
  constructor <;> simp [h, Declaration.Kind.isType]

theorem Apt.added (h : ∀ e ∈ ds, Apt package e) (hd : Apt package d)
    (ha : Reader.Added ds d ds') : ∀ e ∈ ds', Apt package e := by
  intro e he
  cases ha with
  | passedOver => exact h e he
  | unplaced => exact h e he
  | new =>
    rcases List.mem_append.mp he with hold | hlast
    · exact h e hold
    · exact List.mem_singleton.mp hlast ▸ hd
  | aside hmethod =>
    rcases List.mem_append.mp he with hold | hlast
    · exact h e hold
    · rw [List.mem_singleton.mp hlast]
      exact apt_of_method hmethod
  | @ahead i a ha hid hmethod =>
    rcases List.mem_append.mp he with hold | hlast
    · rcases of_mem_modify ha hold with rfl | hmem
      · exact apt_of_method hmethod
      · exact h e hmem
    · exact List.mem_singleton.mp hlast ▸ hd
  | @overload i a place ha =>
    rcases of_mem_modify ha he with rfl | hmem
    · obtain ⟨hctor, hplain, htop, hwithin⟩ := h a (List.mem_of_getElem? ha)
      exact ⟨hctor, hplain, htop, hwithin⟩
    · exact h e hmem

end

end Java

end Carve
