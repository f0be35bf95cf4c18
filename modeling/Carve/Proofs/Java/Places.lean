import Carve.Proofs.Java.Naming
import Carve.Proofs.Text.Slices

/-!
# Places of declarations

Every declaration stands where its outline says, members in the bodies of their types. Of two
members of a type, and of two overloads of one member, one stands before the other; only the names
of one field declaration share a place. In an enum everything but fields comes after the constants.
-/

namespace Carve

theorem Span.slice?_of_toList {s : Span} {text : String} {piece : List Char}
    (h : Text.slice? text.toList s.start s.stop = some piece) :
    s.slice? text = some (String.ofList piece) := by
  unfold Span.slice?
  rw [h]
  rfl

/-- One of the two ends before the other begins. -/
def Span.Apart (s t : Span) : Prop := s.stop ≤ t.start ∨ t.stop ≤ s.start

namespace Declaration

variable {d : Declaration} {place : Location}

theorem own_mem_outlines (h : d.location = some place) : place.layout.own ∈ d.outlines := by
  simp [outlines, h]

theorem outline?_of_location (h : d.location = some place) :
    d.outline? = some place.layout.own := by
  simp [outline?, h]

theorem own_eq_of_outlines (h : d.location = some place) {o : Outline} (ho : d.outlines = [o]) :
    place.layout.own = o := by
  simp only [outlines, h, List.cons.injEq] at ho
  exact ho.1

def Flat (d : Declaration) : Prop :=
  ∀ place, d.location = some place → ∀ layout ∈ place.layout.overloads, layout.overloads = []

theorem overloads_of_outlines (h : d.location = some place) {o : Outline} (ho : d.outlines = [o]) :
    place.layout.overloads = [] := by
  simp only [outlines, h, List.cons.injEq, List.map_eq_nil_iff] at ho
  exact ho.2

theorem flat_of_outlines {o : Outline} (ho : d.outlines = [o]) : d.Flat := by
  intro place hplace layout hlayout
  rw [overloads_of_outlines hplace ho] at hlayout
  cases hlayout

theorem Flat.withOverload (h : d.Flat) {layout : Layout} (hlayout : layout.overloads = []) :
    (d.withOverload layout).Flat := by
  intro place hplace
  simp only [Declaration.withOverload, Option.map_eq_some_iff] at hplace
  obtain ⟨old, hold, rfl⟩ := hplace
  intro more hmore
  rcases List.mem_append.mp hmore with hmore | hmore
  · exact h old hold more hmore
  · rw [List.mem_singleton.mp hmore, hlayout]

end Declaration

namespace Java

structure Outlined (source : List Char) (o : Outline) : Prop where
  start : Text.Cut source o.span.start
  stop : Text.Cut source o.span.stop
  nonempty : o.span.start < o.span.stop
  body : ∀ b, o.body = some b → o.span.Encloses b
  constants : ∀ c, o.constants = some c →
    Text.Cut source c.start ∧ Text.Cut source c.stop ∧ c.start ≤ c.stop

theorem Outlined.exists_slice {source : List Char} {o : Outline} (h : Outlined source o) :
    ∃ piece, Text.slice? source o.span.start o.span.stop = some piece :=
  Text.slice?_of_cuts h.start h.stop (Nat.le_of_lt h.nonempty)

/-- The places of two members of a type, of these kinds. -/
def Beside (k : Declaration.Kind) (o : Outline) (k' : Declaration.Kind) (o' : Outline) : Prop :=
  o.span.Apart o'.span ∨
    (k = .field ∧ k' = .field ∧ o.span = o'.span ∧ o.declarators ≠ 1 ∧ o'.declarators ≠ 1)

theorem Beside.symm {k k' : Declaration.Kind} {o o' : Outline} (h : Beside k o k' o') :
    Beside k' o' k o := by
  rcases h with hapart | ⟨hk, hk', hspan, hcount, hcount'⟩
  · exact Or.inl (Or.symm hapart)
  · exact Or.inr ⟨hk', hk, hspan.symm, hcount', hcount⟩

/-- A member of this kind stands in the body of the type. The constants are static fields. -/
def Holds (t : Outline) (k : Declaration.Kind) (o : Outline) : Prop :=
  (∃ b, t.body = some b ∧ b.Encloses o.span) ∧
    ∀ c, t.constants = some c → (k = .field → o.hasModifier "static" = false) →
      c.stop ≤ o.span.start

/-- Where the declarations of a file are, given which of them are at the top. -/
structure Placed (source : List Char) (path : Path) (tops : List QName)
    (ds : List Declaration) : Prop where
  located : ∀ d ∈ ds, d.path? = some path
  project : ∀ d ∈ ds, d.isLibrary = false
  top : ∀ d ∈ ds, d.parent = none → d.id ∈ tops
  outlined : ∀ d ∈ ds, ∀ o ∈ d.outlines, Outlined source o
  flat : ∀ d ∈ ds, d.Flat
  single : ∀ d ∈ ds, d.kind.isType = true → ∃ o, d.outlines = [o]
  inside : ∀ d ∈ ds, ∀ T ∈ ds, T.kind.isType = true → d.parent = some T.id →
    ∀ t ∈ T.outlines, ∀ o ∈ d.outlines, Holds t d.kind o
  within : ∀ d ∈ ds, d.outlines.Pairwise fun o o' => Beside d.kind o d.kind o'
  beside : ∀ (i j : Nat) (d e : Declaration), ds[i]? = some d → ds[j]? = some e → i ≠ j →
    d.parent = e.parent → ∀ o ∈ d.outlines, ∀ o' ∈ e.outlines, Beside d.kind o e.kind o'

/-- What is known of all outlines but those of the types that are open. -/
def Passed (frames : List TypeFrame) (ds : List Declaration)
    (P : Declaration.Kind → Outline → Prop) : Prop :=
  ∀ (i : Nat) (d : Declaration), ds[i]? = some d → (∀ f ∈ frames, f.index ≠ i) →
    ∀ o ∈ d.outlines, P d.kind o

def Keeps (ds ds' : List Declaration) : Prop :=
  ∀ (i : Nat) (d : Declaration), ds[i]? = some d → d.kind.isType = true → ds'[i]? = some d

section

variable {source : List Char} {path : Path} {tops : List QName} {ds ds' : List Declaration}
  {d : Declaration} {o : Outline}

structure Newcomer (source : List Char) (path : Path) (tops : List QName)
    (ds : List Declaration) (d : Declaration) (o : Outline) : Prop where
  outlines : d.outlines = [o]
  located : d.path? = some path
  project : d.isLibrary = false
  outlined : Outlined source o
  top : d.parent = none → d.id ∈ tops
  childless : d.kind.isType = true → d.parent ≠ some d.id ∧ ∀ e ∈ ds, e.parent ≠ some d.id
  inside : ∀ T ∈ ds, T.kind.isType = true → d.parent = some T.id →
    ∀ t ∈ T.outlines, Holds t d.kind o
  beside : ∀ e ∈ ds, e.parent = d.parent → ∀ o' ∈ e.outlines, Beside d.kind o e.kind o'

theorem Placed.mono {tops' : List QName} (h : Placed source path tops ds) (hsub : tops ⊆ tops') :
    Placed source path tops' ds where
  located := h.located
  project := h.project
  top d hd hparent := hsub (h.top d hd hparent)
  outlined := h.outlined
  flat := h.flat
  single := h.single
  inside := h.inside
  within := h.within
  beside := h.beside

theorem Placed.append (h : Placed source path tops ds) (hd : Newcomer source path tops ds d o) :
    Placed source path tops (ds ++ [d]) where
  located e he := by
    rcases List.mem_append.mp he with hold | hnew
    · exact h.located e hold
    · exact List.mem_singleton.mp hnew ▸ hd.located
  project e he := by
    rcases List.mem_append.mp he with hold | hnew
    · exact h.project e hold
    · exact List.mem_singleton.mp hnew ▸ hd.project
  top e he hparent := by
    rcases List.mem_append.mp he with hold | hnew
    · exact h.top e hold hparent
    · obtain rfl := List.mem_singleton.mp hnew
      exact hd.top hparent
  outlined e he p hp := by
    rcases List.mem_append.mp he with hold | hnew
    · exact h.outlined e hold p hp
    · rw [List.mem_singleton.mp hnew, hd.outlines] at hp
      exact List.mem_singleton.mp hp ▸ hd.outlined
  flat e he := by
    rcases List.mem_append.mp he with hold | hnew
    · exact h.flat e hold
    · exact List.mem_singleton.mp hnew ▸ Declaration.flat_of_outlines hd.outlines
  single e he htype := by
    rcases List.mem_append.mp he with hold | hnew
    · exact h.single e hold htype
    · exact List.mem_singleton.mp hnew ▸ ⟨o, hd.outlines⟩
  inside e he T hT htype hparent t ht p hp := by
    rcases List.mem_append.mp hT with holdT | hnewT
    · rcases List.mem_append.mp he with hold | hnew
      · exact h.inside e hold T holdT htype hparent t ht p hp
      · obtain rfl := List.mem_singleton.mp hnew
        rw [hd.outlines] at hp
        exact List.mem_singleton.mp hp ▸ hd.inside T holdT htype hparent t ht
    · obtain rfl := List.mem_singleton.mp hnewT
      rcases List.mem_append.mp he with hold | hnew
      · exact absurd hparent ((hd.childless htype).2 e hold)
      · exact absurd (List.mem_singleton.mp hnew ▸ hparent) (hd.childless htype).1
  within e he := by
    rcases List.mem_append.mp he with hold | hnew
    · exact h.within e hold
    · rw [List.mem_singleton.mp hnew, hd.outlines]
      exact List.pairwise_singleton _ _
  beside i j a b ha hb hij hparent p hp q hq := by
    rcases Reader.getElem?_concat_cases ha with holda | ⟨hi, had⟩ <;>
      rcases Reader.getElem?_concat_cases hb with holdb | ⟨hj, hbd⟩
    · exact h.beside i j a b holda holdb hij hparent p hp q hq
    · subst hbd
      rw [hd.outlines] at hq
      obtain rfl := List.mem_singleton.mp hq
      exact (hd.beside a (List.mem_of_getElem? holda) hparent p hp).symm
    · subst had
      rw [hd.outlines] at hp
      obtain rfl := List.mem_singleton.mp hp
      exact hd.beside b (List.mem_of_getElem? holdb) hparent.symm q hq
    · exact absurd (hi.trans hj.symm) hij

structure Renamed (d d' : Declaration) : Prop where
  kind : d'.kind = d.kind
  origin : d'.origin = d.origin
  parent : d'.parent = d.parent
  location : d'.location = d.location
  id : d'.kind.isType = true ∨ d'.parent = none → d'.id = d.id

theorem Renamed.outlines {d d' : Declaration} (h : Renamed d d') : d'.outlines = d.outlines := by
  simp [Declaration.outlines, h.location]

theorem Renamed.flat {d d' : Declaration} (h : Renamed d d') (hd : d.Flat) : d'.Flat :=
  fun place hplace => hd place (h.location ▸ hplace)

theorem Renamed.refl (d : Declaration) : Renamed d d := ⟨rfl, rfl, rfl, rfl, fun _ => rfl⟩

def AllRenamed (ds ds' : List Declaration) : Prop :=
  ∀ (i : Nat) (d' : Declaration), ds'[i]? = some d' → ∃ d, ds[i]? = some d ∧ Renamed d d'

theorem AllRenamed.mem (hr : AllRenamed ds ds') : ∀ d' ∈ ds', ∃ d ∈ ds, Renamed d d' := by
  intro d' hd'
  obtain ⟨i, hi⟩ := List.mem_iff_getElem?.mp hd'
  obtain ⟨d, hd, hren⟩ := hr i d' hi
  exact ⟨d, List.mem_of_getElem? hd, hren⟩

theorem Placed.renamed (h : Placed source path tops ds) (hr : AllRenamed ds ds') :
    Placed source path tops ds' := by
  have hmem := hr.mem
  constructor
  · intro d' hd'
    obtain ⟨d, hd, hren⟩ := hmem d' hd'
    simpa [Declaration.path?, hren.location] using h.located d hd
  · intro d' hd'
    obtain ⟨d, hd, hren⟩ := hmem d' hd'
    simpa [Declaration.isLibrary, hren.origin] using h.project d hd
  · intro d' hd' hparent
    obtain ⟨d, hd, hren⟩ := hmem d' hd'
    rw [hren.id (Or.inr hparent)]
    exact h.top d hd (hren.parent ▸ hparent)
  · intro d' hd' o ho
    obtain ⟨d, hd, hren⟩ := hmem d' hd'
    exact h.outlined d hd o (hren.outlines ▸ ho)
  · intro d' hd'
    obtain ⟨d, hd, hren⟩ := hmem d' hd'
    exact hren.flat (h.flat d hd)
  · intro d' hd' htype
    obtain ⟨d, hd, hren⟩ := hmem d' hd'
    rw [hren.outlines]
    exact h.single d hd (hren.kind ▸ htype)
  · intro d' hd' T' hT' htype hparent t ht o ho
    obtain ⟨d, hd, hren⟩ := hmem d' hd'
    obtain ⟨T, hT, hrenT⟩ := hmem T' hT'
    rw [hren.kind]
    refine h.inside d hd T hT (hrenT.kind ▸ htype) ?_ t (hrenT.outlines ▸ ht) o (hren.outlines ▸ ho)
    rw [← hren.parent, hparent, hrenT.id (Or.inl htype)]
  · intro d' hd'
    obtain ⟨d, hd, hren⟩ := hmem d' hd'
    rw [hren.outlines, hren.kind]
    exact h.within d hd
  · intro i j a b ha hb hij hparent p hp q hq
    obtain ⟨a₀, ha₀, hrena⟩ := hr i a ha
    obtain ⟨b₀, hb₀, hrenb⟩ := hr j b hb
    rw [hrena.kind, hrenb.kind]
    exact h.beside i j a₀ b₀ ha₀ hb₀ hij (hrena.parent ▸ hrenb.parent ▸ hparent) p
      (hrena.outlines ▸ hp) q (hrenb.outlines ▸ hq)

theorem Newcomer.renamed (h : Newcomer source path tops ds d o) (hr : AllRenamed ds ds')
    (hmember : d.kind.isType = false) : Newcomer source path tops ds' d o where
  outlines := h.outlines
  located := h.located
  project := h.project
  outlined := h.outlined
  top := h.top
  childless htype := absurd htype (by simp [hmember])
  inside T hT htype hparent t ht := by
    obtain ⟨T₀, hT₀, hren⟩ := hr.mem T hT
    exact h.inside T₀ hT₀ (hren.kind ▸ htype) (hren.id (Or.inl htype) ▸ hparent) t
      (hren.outlines ▸ ht)
  beside e he hparent p hp := by
    obtain ⟨e₀, he₀, hren⟩ := hr.mem e he
    rw [hren.kind]
    exact h.beside e₀ he₀ (hren.parent ▸ hparent) p (hren.outlines ▸ hp)

theorem Newcomer.withId (h : Newcomer source path tops ds d o) (hmember : d.kind.isType = false)
    (hparent : d.parent ≠ none) (id : QName) :
    Newcomer source path tops ds { d with id } o where
  outlines := h.outlines
  located := h.located
  project := h.project
  outlined := h.outlined
  top hnone := absurd hnone hparent
  childless htype := absurd htype (by simp [hmember])
  inside := h.inside
  beside := h.beside

/-- Two members of a type that share a place are names of one field declaration. -/
theorem Placed.fields_of_span_eq (h : Placed source path tops ds) (hd : d ∈ ds) {e : Declaration}
    (he : e ∈ ds) (hne : d ≠ e) (hparent : d.parent = e.parent) (ho : o ∈ d.outlines)
    {o' : Outline} (ho' : o' ∈ e.outlines) (hspan : o.span = o'.span) :
    d.kind = .field ∧ e.kind = .field ∧ o'.declarators ≠ 1 := by
  obtain ⟨i, hi⟩ := List.mem_iff_getElem?.mp hd
  obtain ⟨j, hj⟩ := List.mem_iff_getElem?.mp he
  have hij : i ≠ j := by
    rintro rfl
    exact hne (Option.some.inj (hi.symm.trans hj))
  rcases h.beside i j d e hi hj hij hparent o ho o' ho' with hapart | ⟨hk, hk', -, -, hcount⟩
  · have hlt := (h.outlined d hd o ho).nonempty
    unfold Span.Apart at hapart
    rw [← hspan] at hapart
    omega
  · exact ⟨hk, hk', hcount⟩

theorem outlines_withOverload {layout : Layout} {place : Location} (hd : d.location = some place) :
    (d.withOverload layout).outlines = d.outlines ++ [layout.own] := by
  simp [Declaration.withOverload, Declaration.outlines, hd]

theorem location_of_path {d : Declaration} {path : Path} (h : d.path? = some path) :
    ∃ place, d.location = some place ∧ place.path = path :=
  Option.map_eq_some_iff.mp h

structure Gained (o : Outline) (gains : Prop) (d d' : Declaration) : Prop where
  kind : d'.kind = d.kind
  origin : d'.origin = d.origin
  parent : d'.parent = d.parent
  id : d'.id = d.id
  path : d'.path? = d.path?
  same : d.kind.isType = true → d' = d
  flat : d.Flat → d'.Flat
  layered : d'.outlines = d.outlines ∨ (d'.outlines = d.outlines ++ [o] ∧ gains)

theorem Gained.refl (o : Outline) (gains : Prop) (d : Declaration) : Gained o gains d d :=
  ⟨rfl, rfl, rfl, rfl, rfl, fun _ => rfl, fun h => h, Or.inl rfl⟩

theorem Gained.outlines {gains : Prop} {d' : Declaration} (h : Gained o gains d d') :
    ∀ p ∈ d'.outlines, p ∈ d.outlines ∨ (p = o ∧ gains) := by
  intro p hp
  rcases h.layered with hsame | ⟨hmore, hgains⟩
  · exact Or.inl (hsame ▸ hp)
  · rw [hmore] at hp
    exact (List.mem_append.mp hp).imp_right fun hlast => ⟨List.mem_singleton.mp hlast, hgains⟩

theorem gained_of_getElem? {i j : Nat} {e a : Declaration} {place : Location}
    (he : ds[i]? = some e) (hmember : e.kind.isType = false) (hlocated : e.path? = some path)
    (hplain : place.layout.overloads = [])
    (ha : (ds.modify i (.withOverload place.layout))[j]? = some a) :
    ∃ b, ds[j]? = some b ∧ Gained place.layout.own (j = i ∧ b = e) b a := by
  obtain ⟨b, hb, ⟨rfl, rfl⟩ | ⟨-, rfl⟩⟩ := Reader.getElem?_modify_cases ha
  · obtain rfl := Option.some.inj (he.symm.trans hb)
    obtain ⟨place', hplace', -⟩ := location_of_path hlocated
    refine ⟨e, he, rfl, rfl, rfl, rfl, ?_, fun htype => ?_, fun hflat => hflat.withOverload hplain,
      Or.inr ⟨outlines_withOverload hplace', rfl, rfl⟩⟩
    · simp [Declaration.path?, Declaration.withOverload, hplace']
    · rw [hmember] at htype
      cases htype
  · exact ⟨a, hb, .refl _ _ a⟩

theorem Placed.withOverload (h : Placed source path tops ds)
    (hd : Newcomer source path tops ds d o) {i : Nat} {e : Declaration} {place : Location}
    (he : ds[i]? = some e) (hkind : e.kind = d.kind) (hparent : e.parent = d.parent)
    (hmember : d.kind.isType = false) (hplace : d.location = some place) :
    Placed source path tops (ds.modify i (.withOverload place.layout)) := by
  have hplain := Declaration.overloads_of_outlines hplace hd.outlines
  obtain rfl := Declaration.own_eq_of_outlines hplace hd.outlines
  have hcases : ∀ (j : Nat) (a : Declaration),
      (ds.modify i (.withOverload place.layout))[j]? = some a →
      ∃ b, ds[j]? = some b ∧ Gained place.layout.own (j = i ∧ b = e) b a := fun j a ha =>
    gained_of_getElem? he (hkind ▸ hmember) (h.located e (List.mem_of_getElem? he)) hplain ha
  have hmem : ∀ a ∈ ds.modify i (.withOverload place.layout),
      ∃ b ∈ ds, ∃ j, Gained place.layout.own (j = i ∧ b = e) b a := by
    intro a ha
    obtain ⟨j, hj⟩ := List.mem_iff_getElem?.mp ha
    obtain ⟨b, hb, hgained⟩ := hcases j a hj
    exact ⟨b, List.mem_of_getElem? hb, j, hgained⟩
  constructor
  · intro a ha
    obtain ⟨b, hb, j, hgained⟩ := hmem a ha
    exact hgained.path ▸ h.located b hb
  · intro a ha
    obtain ⟨b, hb, j, hgained⟩ := hmem a ha
    simpa [Declaration.isLibrary, hgained.origin] using h.project b hb
  · intro a ha hpar
    obtain ⟨b, hb, j, hgained⟩ := hmem a ha
    exact hgained.id ▸ h.top b hb (hgained.parent ▸ hpar)
  · intro a ha p hp
    obtain ⟨b, hb, j, hgained⟩ := hmem a ha
    rcases hgained.outlines p hp with hold | ⟨rfl, -⟩
    · exact h.outlined b hb p hold
    · exact hd.outlined
  · intro a ha
    obtain ⟨b, hb, j, hgained⟩ := hmem a ha
    exact hgained.flat (h.flat b hb)
  · intro a ha htype
    obtain ⟨b, hb, j, hgained⟩ := hmem a ha
    rw [hgained.kind] at htype
    exact hgained.same htype ▸ h.single b hb htype
  · intro a ha T hT htype hpar t ht p hp
    obtain ⟨b, hb, j, hgained⟩ := hmem a ha
    obtain ⟨T', hT', k, hgainedT⟩ := hmem T hT
    rw [hgainedT.kind] at htype
    obtain rfl := hgainedT.same htype
    rw [hgained.kind]
    rw [hgained.parent] at hpar
    rcases hgained.outlines p hp with hold | ⟨rfl, -, rfl⟩
    · exact h.inside b hb T hT' htype hpar t ht p hold
    · rw [hkind]
      exact hd.inside T hT' htype (hparent ▸ hpar) t ht
  · intro a ha
    obtain ⟨b, hb, j, hgained⟩ := hmem a ha
    rw [hgained.kind]
    rcases hgained.layered with hsame | ⟨hmore, -, rfl⟩
    · rw [hsame]
      exact h.within b hb
    · rw [hmore]
      refine List.pairwise_append.mpr ⟨h.within b hb, List.pairwise_singleton _ _,
        fun p hp q hq => ?_⟩
      rw [List.mem_singleton.mp hq, hkind]
      exact (hkind ▸ hd.beside b hb hparent p hp).symm
  · intro j k a b ha hb hjk hpar p hp q hq
    obtain ⟨a', ha', hgained⟩ := hcases j a ha
    obtain ⟨b', hb', hgained'⟩ := hcases k b hb
    rw [hgained.kind, hgained'.kind]
    rw [hgained.parent, hgained'.parent] at hpar
    rcases hgained.outlines p hp with hold | ⟨rfl, rfl, rfl⟩
    · rcases hgained'.outlines q hq with hold' | ⟨rfl, rfl, rfl⟩
      · exact h.beside j k a' b' ha' hb' hjk hpar p hold q hold'
      · rw [hkind]
        exact (hd.beside a' (List.mem_of_getElem? ha') (hpar.trans hparent) p hold).symm
    · rcases hgained'.outlines q hq with hold' | ⟨-, rfl, -⟩
      · rw [hkind]
        exact hd.beside b' (List.mem_of_getElem? hb') (hpar.symm.trans hparent) q hold'
      · exact absurd rfl hjk

theorem allRenamed_modify {i : Nat} {e : Declaration} (he : ds[i]? = some e)
    (hmember : e.kind.isType = false) (hparent : e.parent ≠ none) (id : QName) :
    AllRenamed ds (ds.modify i fun m => { m with id }) := by
  intro j d' hd'
  obtain ⟨d, hd, ⟨rfl, rfl⟩ | ⟨-, rfl⟩⟩ := Reader.getElem?_modify_cases hd'
  · obtain rfl := Option.some.inj (he.symm.trans hd)
    refine ⟨e, hd, rfl, rfl, rfl, rfl, fun hor => ?_⟩
    rcases hor with htype | hnone
    · rw [show ({ e with id } : Declaration).kind = e.kind from rfl, hmember] at htype
      cases htype
    · exact absurd hnone hparent
  · exact ⟨d', hd, .refl d'⟩

/-- Adding a member that has its place leaves every declaration in its place. -/
theorem Placed.added (h : Placed source path tops ds) (hd : Newcomer source path tops ds d o)
    (hmember : d.kind.isType = false) (hparent : d.parent ≠ none)
    (hsibling : ∀ e ∈ ds, e.kind.isType = false → e.id = d.id ∨ e.id = d.id.methodAlias →
      e.parent = d.parent) (ha : Reader.Added ds d ds') : Placed source path tops ds' := by
  cases ha with
  | passedOver => exact h
  | unplaced => exact h
  | new => exact h.append hd
  | aside => exact h.append (hd.withId hmember hparent _)
  | @ahead i e he hid hmethod =>
    have hetype : e.kind.isType = false := by rw [hmethod]; rfl
    have heparent : e.parent ≠ none := by
      rw [hsibling e (List.mem_of_getElem? he) hetype (Or.inl hid)]
      exact hparent
    have hr := allRenamed_modify he hetype heparent d.id.methodAlias
    exact (h.renamed hr).append (hd.renamed hr hmember)
  | overload he hid hkind hplace =>
    refine h.withOverload hd he hkind ?_ hmember hplace
    exact hsibling _ (List.mem_of_getElem? he) (hkind ▸ hmember) hid

theorem Passed.added {frames : List TypeFrame} {P : Declaration.Kind → Outline → Prop}
    (h : Passed frames ds P) (hlocated : ∀ e ∈ ds, e.path? = some path) (hd : d.outlines = [o])
    (hP : P d.kind o) (ha : Reader.Added ds d ds') : Passed frames ds' P := by
  intro i e he hopen p hp
  have hnew : p ∈ d.outlines → P d.kind p := by
    intro hmem
    rw [hd] at hmem
    exact List.mem_singleton.mp hmem ▸ hP
  cases ha with
  | passedOver => exact h i e he hopen p hp
  | unplaced => exact h i e he hopen p hp
  | new =>
    rcases Reader.getElem?_concat_cases he with hold | ⟨-, rfl⟩
    · exact h i e hold hopen p hp
    · exact hnew hp
  | aside =>
    rcases Reader.getElem?_concat_cases he with hold | ⟨-, rfl⟩
    · exact h i e hold hopen p hp
    · exact hnew hp
  | ahead =>
    rcases Reader.getElem?_concat_cases he with hold | ⟨-, rfl⟩
    · obtain ⟨e₀, he₀, ⟨-, rfl⟩ | ⟨-, rfl⟩⟩ := Reader.getElem?_modify_cases hold
      · exact h i e₀ he₀ hopen p hp
      · exact h i e he₀ hopen p hp
    · exact hnew hp
  | @overload k e₁ place he₁ hid hkind hplace =>
    obtain ⟨e₀, he₀, ⟨rfl, rfl⟩ | ⟨-, rfl⟩⟩ := Reader.getElem?_modify_cases he
    · obtain rfl := Option.some.inj (he₁.symm.trans he₀)
      obtain ⟨place', hplace', -⟩ := location_of_path (hlocated e₁ (List.mem_of_getElem? he₁))
      rw [outlines_withOverload hplace'] at hp
      rcases List.mem_append.mp hp with hp | hp
      · exact h k e₁ he₁ hopen p hp
      · rw [List.mem_singleton.mp hp, show (e₁.withOverload place.layout).kind = d.kind from hkind]
        exact List.mem_singleton.mp hp ▸ hnew
          (List.mem_singleton.mp hp ▸ Declaration.own_mem_outlines hplace)
    · exact h i e he₀ hopen p hp

theorem keeps_added (hmember : d.kind.isType = false) (ha : Reader.Added ds d ds') :
    Keeps ds ds' := by
  intro i T hT htype
  cases ha with
  | passedOver => exact hT
  | unplaced => exact hT
  | new => exact Reader.getElem?_concat_old hT
  | aside => exact Reader.getElem?_concat_old hT
  | @ahead j e he hid hmethod =>
    refine Reader.getElem?_concat_old ?_
    have hij : j ≠ i := by
      rintro rfl
      rw [Option.some.inj (hT.symm.trans he), hmethod] at htype
      cases htype
    simp [hT, hij]
  | @overload j e place he hid hkind =>
    have hij : j ≠ i := by
      rintro rfl
      rw [Option.some.inj (hT.symm.trans he), hkind, hmember] at htype
      cases htype
    simp [hT, hij]

end

end Java

end Carve
