import Carve.Disk.Change
import Carve.Proofs.Disk.Ways
import Carve.Proofs.Path

/-!
# What changes leave as it was

Every change of a disk is told by what is found where afterwards. Entries stay in directories, and
directories that are made on a way are all that is new after it.
-/

namespace Carve.Disk

open Text

variable {d d' d'' : Disk} {base p q source target : Place} {s : List Char}
  {segments : List (List Char)} {on on' : List Place}

theorem closed_put (hd : d.Closed) (hp : p ≠ []) (habove : d.get? p.dropLast = some .directory)
    {e : Entry} (he : e = .directory ∨ d.get? p ≠ some .directory) : (d.put p e).Closed := by
  intro q hq hthere
  have hup : p.dropLast ≠ p := fun h => by
    have hlen := congrArg List.length h
    have hpos := List.length_pos_iff.mpr hp
    rw [List.length_dropLast] at hlen
    omega
  rw [get?_put d hp] at hthere ⊢
  by_cases hqp : q = p
  · rw [hqp, if_neg hup, habove]
  · rw [if_neg hqp] at hthere
    have hdir := hd q hq hthere
    by_cases hat : q.dropLast = p
    · rw [if_pos hat]
      exact congrArg some (he.resolve_right fun h => h (hat ▸ hdir))
    · rwa [if_neg hat]

theorem closed_clear (hd : d.Closed) (hp : p ≠ []) : (d.clear p).Closed := by
  intro q hq hthere
  rw [get?_clear d hp] at hthere ⊢
  by_cases hin : p <+: q
  · rw [if_pos hin] at hthere
    exact absurd rfl hthere
  · rw [if_neg hin] at hthere
    rw [if_neg fun h => hin (h.trans (List.dropLast_prefix q))]
    exact hd q hq hthere

/-- Nothing is found otherwise than before but new directories at some places. -/
structure Grown (d d' : Disk) (on : List Place) : Prop where
  here : d'.here = d.here
  entries : ∀ q, d'.get? q = d.get? q ∨
    d.get? q = none ∧ d'.get? q = some .directory ∧ q ∈ on

theorem Grown.refl (d : Disk) (on : List Place) : d.Grown d on := ⟨rfl, fun _ => .inl rfl⟩

theorem Grown.mono (h : d.Grown d' on) (hon : on ⊆ on') : d.Grown d' on' :=
  ⟨h.here, fun q => (h.entries q).imp id fun ⟨hnone, hdir, hq⟩ => ⟨hnone, hdir, hon hq⟩⟩

theorem Grown.stays (h : d.Grown d' on) (hq : d.get? q ≠ none) : d'.get? q = d.get? q :=
  (h.entries q).resolve_right fun hnew => hq hnew.1

theorem Grown.off (h : d.Grown d' on) (hq : q ∉ on) : d'.get? q = d.get? q :=
  (h.entries q).resolve_right fun hnew => hq hnew.2.2

theorem Grown.absent (h : d.Grown d' on) (hq : d'.get? q = none) : d.get? q = none := by
  by_contra hthere
  exact hthere (h.stays hthere ▸ hq)

theorem Grown.file_iff (h : d.Grown d' on) {c : Content} :
    d'.get? q = some (.file c) ↔ d.get? q = some (.file c) := by
  rcases h.entries q with heq | ⟨hnone, hdir, -⟩
  · rw [heq]
  · simp [hnone, hdir]

theorem Grown.trans (h : d.Grown d' on) (h' : d'.Grown d'' on) : d.Grown d'' on where
  here := h'.here.trans h.here
  entries q := by
    rcases h'.entries q with heq | ⟨hnone, hnew⟩
    · rw [heq]
      exact h.entries q
    · exact .inr ⟨h.absent hnone, hnew⟩

theorem Grown.put (hp : p ≠ []) (hnone : d.get? p = none) (hon : p ∈ on) :
    d.Grown (d.put p .directory) on where
  here := rfl
  entries q := by
    rw [get?_put d hp]
    by_cases hq : q = p
    · exact .inr ⟨hq ▸ hnone, by rw [if_pos hq], hq ▸ hon⟩
    · exact .inl (if_neg hq)

/-- What making a way comes to, from the place where it ends and the places on it. -/
structure WayMade (d : Disk) (stop : Place) (on : List Place)
    (made : Disk × Except Refusal Unit) : Prop where
  closed : made.1.Closed
  grown : d.Grown made.1 on
  arrived : made.2 = .ok () → made.1.get? stop = some .directory
  paved : made.2 = .ok () → ∀ v ∈ on, made.1.get? v = some .directory
  obstacle : ∀ e, made.2 = .error e → ∃ v ∈ on, ∃ c, d.get? v = some (.file c)

theorem WayMade.enter {made : Disk × Except Refusal Unit} (h : WayMade d p on made)
    (hq : d.get? q = some .directory) : WayMade d p (q :: on) made where
  closed := h.closed
  grown := h.grown.mono (List.subset_cons_self q on)
  arrived := h.arrived
  paved hok v hv := by
    rcases List.mem_cons.mp hv with rfl | hv
    · rw [h.grown.stays (by simp [hq]), hq]
    · exact h.paved hok v hv
  obstacle e he := by
    obtain ⟨v, hv, hfile⟩ := h.obstacle e he
    exact ⟨v, List.mem_cons_of_mem _ hv, hfile⟩

theorem makeWay_filler (hs : Path.isFiller s = true) :
    d.makeWay base (s :: segments) = d.makeWay base segments := by rw [makeWay, if_pos hs]

theorem makeWay_name (hs : isName s = true) :
    d.makeWay base (s :: segments) =
      match d.get? (base ++ [String.ofList s]) with
      | some .directory => d.makeWay (base ++ [String.ofList s]) segments
      | some (.file _) =>
        (d, .error (if segments.any isName then .notDirectory else .occupied))
      | none => (d.put (base ++ [String.ofList s]) .directory).makeWay
          (base ++ [String.ofList s]) segments := by
  have hfiller : ¬ Path.isFiller s = true := by simp [Place.not_isFiller_of_isName hs]
  exact (if_neg hfiller).trans (if_neg (Place.ne_up_of_isName hs))

/-- Along a way one meets a file or has a directory everywhere. -/
theorem makeWay_made (hd : d.Closed) (hbase : d.get? base = some .directory)
    (segments : List (List Char)) :
    WayMade d (base.walk segments) (base.trail segments) (d.makeWay base segments) := by
  induction segments generalizing d base with
  | nil =>
    exact ⟨hd, .refl _ _, fun _ => hbase, fun _ v hv => (by cases hv), fun _ h => (by cases h)⟩
  | cons s rest ih =>
    rcases Place.segment_cases s with hs | rfl | hs
    · rw [makeWay_filler hs, Place.walk_cons,
        Place.trail_cons_other (Place.not_isName_of_filler hs), Place.move_filler hs]
      exact ih hd hbase
    · exact ih hd (hd.directory_above hbase (List.dropLast_prefix base))
    · rw [makeWay_name hs, Place.walk_cons, Place.trail_cons_name hs, Place.move_name hs]
      cases hnext : d.get? (base ++ [String.ofList s]) with
      | none =>
        have hne : base ++ [String.ofList s] ≠ [] := by simp
        have hput : (d.put (base ++ [String.ofList s]) .directory).get?
            (base ++ [String.ofList s]) = some .directory := by simp [get?_put d hne]
        have hnew : d.Grown (d.put (base ++ [String.ofList s]) .directory)
            ((base ++ [String.ofList s]) :: (base ++ [String.ofList s]).trail rest) :=
          Grown.put hne hnext List.mem_cons_self
        have hway := (ih (closed_put hd hne (by simpa using hbase) (.inl rfl)) hput).enter hput
        refine ⟨hway.closed, hnew.trans hway.grown, hway.arrived, hway.paved, fun e he => ?_⟩
        obtain ⟨v, hv, c, hfile⟩ := hway.obstacle e he
        exact ⟨v, hv, c, hnew.file_iff.mp hfile⟩
      | some entry =>
        cases entry with
        | directory => exact (ih hd hnext).enter hnext
        | file c =>
          exact ⟨hd, .refl _ _, fun h => (by cases h), fun h => (by cases h),
            fun _ _ => ⟨_, List.mem_cons_self, c, hnext⟩⟩

theorem makeWay_of_paved (h : ∀ v ∈ base.trail segments, d.get? v = some .directory) :
    d.makeWay base segments = (d, .ok ()) := by
  induction segments generalizing base with
  | nil => rfl
  | cons s rest ih =>
    rcases Place.segment_cases s with hs | rfl | hs
    · rw [Place.trail_cons_other (Place.not_isName_of_filler hs), Place.move_filler hs] at h
      rw [makeWay_filler hs, ih h]
    · exact ih h
    · rw [Place.trail_cons_name hs, Place.move_name hs] at h
      rw [makeWay_name hs]
      simp only [h _ List.mem_cons_self]
      exact ih fun v hv => h v (List.mem_cons_of_mem _ hv)

theorem get?_eq_none_iff (hp : p ≠ []) :
    d.get? p = none ↔ ∀ e, (p, e) ∉ d.entries := by
  obtain ⟨n, p, rfl⟩ := List.exists_cons_of_ne_nil hp
  show d.entries.lookup (n :: p) = none ↔ _
  rw [List.lookup_eq_none_iff]
  constructor
  · intro h e he
    simpa using h _ he
  · rintro h ⟨q, e⟩ he
    simp only [bne_iff_ne, ne_eq]
    rintro rfl
    exact h e he

instance (d : Disk) : Decidable d.Closed :=
  decidable_of_iff (∀ e ∈ d.entries, e.1 ≠ [] → d.get? e.1.dropLast = some .directory) (by
    constructor
    · intro h p hp hthere
      rw [Ne, get?_eq_none_iff hp, not_forall_not] at hthere
      obtain ⟨e, he⟩ := hthere
      exact h (p, e) he hp
    · rintro h ⟨p, e⟩ he hp
      exact h p hp fun hnone => (get?_eq_none_iff hp).mp hnone e he)

theorem mem_names {n : String} : n ∈ d.names base ↔ d.get? (base ++ [n]) ≠ none := by
  rw [Ne, get?_eq_none_iff (by simp), not_forall_not]
  unfold names
  rw [List.mem_filterMap]
  constructor
  · rintro ⟨⟨p, e⟩, hmem, hp⟩
    dsimp only at hp
    split at hp
    · rename_i hbase
      obtain ⟨front, rfl⟩ := List.getLast?_eq_some_iff.mp hp
      rw [List.dropLast_concat] at hbase
      exact ⟨e, hbase ▸ hmem⟩
    · cases hp
  · rintro ⟨e, he⟩
    exact ⟨_, he, by simp⟩

theorem names_eq_nil_iff (hd : d.Closed) :
    d.names base = [] ↔ ∀ q, base <+: q → q ≠ base → d.get? q = none := by
  rw [List.eq_nil_iff_forall_not_mem]
  constructor
  · rintro h q ⟨r, rfl⟩ hne
    cases r with
    | nil => simp at hne
    | cons n r =>
      have hn : d.get? (base ++ [n]) = none := by
        by_contra hthere
        exact h n (mem_names.mpr hthere)
      exact hd.absent_from hn ⟨r, by simp⟩
  · intro h n hn
    exact mem_names.mp hn (h _ (List.prefix_append _ _) (by simp))

theorem lookup_renamed (f : Place → Place) (origin : Option Place) {es : List (Place × Entry)}
    (h : ∀ e ∈ es, f e.1 = q ↔ origin = some e.1) :
    (es.map fun e => (f e.1, e.2)).lookup q = origin.bind fun p => es.lookup p := by
  induction es with
  | nil => cases origin <;> rfl
  | cons e es ih =>
    obtain ⟨p, e⟩ := e
    have hp : f p = q ↔ origin = some p := h (p, e) List.mem_cons_self
    have hes := ih fun e he => h e (List.mem_cons_of_mem _ he)
    rw [List.map_cons, List.lookup_cons]
    by_cases hq : f p = q
    · simp [hp.mp hq, hq]
    · have hb : (q == f p) = false := beq_eq_false_iff_ne.mpr (Ne.symm hq)
      simp only [hb, hes]
      cases origin with
      | none => rfl
      | some r =>
        have hr : (r == p) = false :=
          beq_eq_false_iff_ne.mpr fun hrp => hq (hp.mpr (congrArg some hrp))
        simp [List.lookup_cons, hr]

/-- Where nothing was at the new place, what was moved is found there and not where it was. -/
theorem get?_relocate (hsource : source ≠ []) (htarget : target ≠ [])
    (hfree : ∀ q, target <+: q → d.get? q = none) (q : Place) :
    (d.relocate source target).get? q =
      if target <+: q then d.get? (source ++ q.drop target.length)
      else if source <+: q then none else d.get? q := by
  have hlookup : ∀ p : Place, p ≠ [] → ∀ d : Disk, d.get? p = d.entries.lookup p := by
    intro p hp d
    obtain ⟨n, p, rfl⟩ := List.exists_cons_of_ne_nil hp
    rfl
  have hkeys : ∀ e ∈ d.entries, ¬ target <+: e.1 := by
    rintro ⟨p, e⟩ he hin
    have hp : p ≠ [] := by
      rintro rfl
      exact htarget (List.prefix_nil.mp hin)
    exact (get?_eq_none_iff hp).mp (hfree p hin) e he
  by_cases hq : q = []
  · simp [hq, htarget, hsource, List.prefix_nil]
  rw [hlookup q hq, hlookup q hq, hlookup _ (by simp [hsource])]
  refine (lookup_renamed (fun p => if source.isPrefixOf p then target ++ p.drop source.length else p)
    (if target <+: q then some (source ++ q.drop target.length)
      else if source <+: q then none else some q) ?_).trans ?_
  rotate_left
  · split
    · rfl
    · split <;> rfl
  · rintro ⟨p, e⟩ he
    have hp := hkeys _ he
    dsimp only at hp ⊢
    by_cases hin : source <+: p
    · obtain ⟨r, rfl⟩ := hin
      rw [if_pos (List.isPrefixOf_iff_prefix.mpr (List.prefix_append source r)), List.drop_left]
      split
      · rename_i hto
        obtain ⟨r', rfl⟩ := hto
        simp [eq_comm]
      · rename_i hto
        split
        · simp only [reduceCtorEq, iff_false]
          exact fun h => hto (h ▸ List.prefix_append _ _)
        · rename_i hfrom
          constructor
          · exact fun h => absurd (h ▸ List.prefix_append _ _) hto
          · exact fun h => absurd (Option.some.inj h ▸ List.prefix_append _ _) hfrom
    · rw [if_neg (by simpa using hin)]
      split
      · rename_i hto
        constructor
        · exact fun h => absurd (h ▸ hto) hp
        · exact fun h => absurd (Option.some.inj h ▸ List.prefix_append _ _) hin
      · split
        · rename_i hfrom
          simp only [reduceCtorEq, iff_false]
          exact fun h => hin (h ▸ hfrom)
        · simp [eq_comm]

theorem closed_relocate (hd : d.Closed) (hsource : source ≠ []) (htarget : target ≠ [])
    (hfree : ∀ q, target <+: q → d.get? q = none) (hout : ¬ source <+: target.dropLast)
    (habove : d.get? target.dropLast = some .directory) : (d.relocate source target).Closed := by
  intro q hq hthere
  rw [get?_relocate hsource htarget hfree] at hthere ⊢
  by_cases hto : target <+: q
  · obtain ⟨r, rfl⟩ := hto
    rw [if_pos (List.prefix_append _ _), List.drop_left] at hthere
    rcases List.eq_nil_or_concat r with rfl | ⟨r, n, rfl⟩
    · have hup : ¬ target <+: target.dropLast := fun h => by
        have hlen := h.length_le
        have hpos := List.length_pos_iff.mpr htarget
        rw [List.length_dropLast] at hlen
        omega
      rw [List.append_nil, if_neg hup, if_neg hout, habove]
    · rw [List.concat_eq_append, ← List.append_assoc] at hthere ⊢
      rw [List.dropLast_concat, if_pos (List.prefix_append _ _), List.drop_left]
      simpa using hd _ (by simp) hthere
  · rw [if_neg hto] at hthere
    rw [if_neg fun h => hto (h.trans (List.dropLast_prefix q))]
    by_cases hfrom : source <+: q
    · rw [if_pos hfrom] at hthere
      exact absurd rfl hthere
    · rw [if_neg hfrom] at hthere
      rw [if_neg fun h => hfrom (h.trans (List.dropLast_prefix q))]
      exact hd q hq hthere

theorem filter_directorySegments (t : Path) :
    (directorySegments t).filter (!Path.isFiller ·) = t.segments.filter (!Path.isFiller ·) := by
  obtain ⟨tail, hsplit, htail⟩ := dropEndWhile_append List.isEmpty t.segments
  have hnone : tail.filter (!Path.isFiller ·) = [] := by
    refine List.filter_eq_nil_iff.mpr fun s hs => ?_
    simp [Path.isFiller, htail s hs]
  conv_rhs => rw [hsplit, List.filter_append, hnone, List.append_nil]
  rfl

theorem walk_directorySegments (p : Place) (t : Path) :
    p.walk (directorySegments t) = p.walk t.segments := by
  rw [← (Place.ways_filter p (directorySegments t)).1, filter_directorySegments,
    (Place.ways_filter p _).1]

theorem turns_directorySegments (p : Place) (t : Path) :
    p.turns (directorySegments t) = p.turns t.segments := by
  rw [← (Place.ways_filter p (directorySegments t)).2.2, filter_directorySegments,
    (Place.ways_filter p _).2.2]

def EndsInName (t : Path) : Prop :=
  ∃ front s, directorySegments t = front ++ [s] ∧ isName s = true

instance (t : Path) : Decidable (EndsInName t) :=
  decidable_of_iff ((directorySegments t).getLast?.any isName = true) (by
    unfold EndsInName
    rcases List.eq_nil_or_concat (directorySegments t) with hnil | ⟨front, s, hconcat⟩
    · simp [hnil]
    · rw [hconcat, List.concat_eq_append, List.getLast?_concat]
      constructor
      · exact fun h => ⟨front, s, rfl, h⟩
      · rintro ⟨front', s', heq, hname⟩
        obtain ⟨-, hs⟩ := List.append_inj' heq rfl
        obtain rfl := List.singleton_inj.mp hs
        exact hname)

theorem isAbsolute_of_no_segments {t : Path} (h : directorySegments t = []) (ht : t.text ≠ "") :
    t.isAbsolute = true := by
  obtain ⟨tail, hsplit, htail⟩ := dropEndWhile_append List.isEmpty t.segments
  have hempty : ∀ s ∈ t.segments, s = [] := by
    intro s hs
    rw [hsplit] at hs
    rcases List.mem_append.mp hs with hs | hs
    · have hnone : s ∈ directorySegments t := hs
      simp [h] at hnone
    · simpa using htail s hs
  unfold Path.segments at hempty
  unfold Path.isAbsolute
  cases hchars : t.text.toList with
  | nil => exact absurd (String.toList_eq_nil_iff.mp hchars) ht
  | cons c cs =>
    rw [hchars] at hempty
    by_cases hc : c = '/'
    · simp [hc]
    · cases hrest : split '/' cs with
      | nil => exact absurd hrest (split_ne_nil _ _)
      | cons part parts => simp [split, hc, hrest] at hempty

theorem EndsInName.destination {t : Path} (h : EndsInName t) (d : Disk) :
    ∃ front s, directorySegments t = front ++ [s] ∧ isName s = true ∧
      d.destination t = (d.start t).walk front ++ [String.ofList s] := by
  obtain ⟨front, s, hsegments, hname⟩ := h
  refine ⟨front, s, hsegments, hname, ?_⟩
  rw [Disk.destination, ← walk_directorySegments, hsegments, Place.walk_append, Place.walk_cons,
    Place.move_name hname, Place.walk_nil]

theorem removeDirectory_eq (t : Path) : d.removeDirectory t =
    if (directorySegments t).getLast? = some ['.'] then .error .invalid
    else if (directorySegments t).getLast? = some ['.', '.'] then .error .notEmpty
    else match d.locate t with
      | .error refusal => .error refusal
      | .ok place =>
        match d.get? place with
        | some .directory =>
          if place = [] then .error .busy
          else if d.names place = [] then .ok (d.clear place) else .error .notEmpty
        | some (.file _) => .error .notDirectory
        | none => .error .absent := by
  unfold removeDirectory
  dsimp only
  split
  · rfl
  split
  · rfl
  cases d.locate t with
  | error refusal => rfl
  | ok place =>
    cases hentry : d.get? place with
    | none => simp [bind, Except.bind, hentry, throw, throwThe, MonadExceptOf.throw]
    | some entry =>
      cases entry with
      | file c => simp [bind, Except.bind, hentry, throw, throwThe, MonadExceptOf.throw]
      | directory =>
        simp only [bind, Except.bind, hentry]
        split
        · rfl
        · cases d.names place <;> rfl

theorem removeDirectory_eq_ok_iff {t : Path} : d.removeDirectory t = .ok d' ↔
    EndsInName t ∧ d.locate t = .ok (d.destination t) ∧
      d.get? (d.destination t) = some .directory ∧ d.names (d.destination t) = [] ∧
      d' = d.clear (d.destination t) := by
  rw [removeDirectory_eq]
  constructor
  · intro h
    split at h
    · cases h
    rename_i hdot
    split at h
    · cases h
    rename_i hup
    cases hlocate : d.locate t with
    | error refusal =>
      rw [hlocate] at h
      cases h
    | ok place =>
      obtain rfl := destination_of_locate hlocate
      simp only [hlocate] at h
      split at h
      · rename_i hdir
        split at h
        · cases h
        rename_i hroot
        split at h
        · rename_i hempty
          refine ⟨?_, rfl, hdir, hempty, (Except.ok.inj h).symm⟩
          rcases List.eq_nil_or_concat (directorySegments t) with hnil | ⟨front, s, hconcat⟩
          · have ht : t.text ≠ "" := by
              intro ht
              simp [locate, ht] at hlocate
            have habsolute := isAbsolute_of_no_segments hnil ht
            refine absurd ?_ hroot
            rw [destination, ← walk_directorySegments, hnil, start, if_pos habsolute]
            rfl
          · rw [List.concat_eq_append] at hconcat
            rw [hconcat, List.getLast?_concat] at hdot hup
            have hs : s ≠ [] := by simpa using of_concat_dropEndWhile hconcat
            refine ⟨front, s, hconcat, ?_⟩
            simp_all [isName, Path.isFiller]
        · cases h
      · cases h
      · cases h
  · rintro ⟨hname, hlocate, hdir, hempty, rfl⟩
    obtain ⟨front, s, hsegments, hs, hplace⟩ := hname.destination d
    have hroot : d.destination t ≠ [] := by simp [hplace]
    rw [hsegments, List.getLast?_concat, if_neg, if_neg]
    · simp [hlocate, hdir, hroot, hempty]
    · rintro ⟨⟩
      cases hs
    · rintro ⟨⟩
      cases hs

theorem EndsInName.nonempty {t : Path} (h : EndsInName t) : t.text.isEmpty = false := by
  obtain ⟨front, s, hsegments, -⟩ := h
  by_contra hempty
  have hsegments' : directorySegments t = [] := by
    have ht : t.text = "" := by simpa using hempty
    rw [directorySegments, Path.segments, ht]
    rfl
  simp [hsegments'] at hsegments

theorem moveTo_eq (source : Place) (t : Path) : d.moveTo source t =
    if t.text.isEmpty then .error .absent
    else match d.spot (d.start t) (directorySegments t) with
      | .error refusal => .error (if refusal = .isDirectory then .busy else refusal)
      | .ok target =>
        if d.get? target = none then .ok (d.relocate source target) else .error .occupied := by
  unfold moveTo
  by_cases ht : t.text.isEmpty = true
  · rw [if_pos ht, if_pos ht]
    rfl
  · rw [if_neg ht, if_neg ht]
    cases d.spot (d.start t) (directorySegments t) with
    | error refusal => cases refusal <;> rfl
    | ok target => cases hentry : d.get? target <;> simp [bind, Except.bind, pure, Except.pure,
        hentry, throw, throwThe, MonadExceptOf.throw]

theorem moveTo_eq_ok_iff {t : Path} : d.moveTo source t = .ok d' ↔
    EndsInName t ∧ d.spot (d.start t) (directorySegments t) = .ok (d.destination t) ∧
      d.get? (d.destination t) = none ∧ d' = d.relocate source (d.destination t) := by
  rw [moveTo_eq]
  constructor
  · intro h
    split at h
    · cases h
    cases hspot : d.spot (d.start t) (directorySegments t) with
    | error refusal =>
      rw [hspot] at h
      cases h
    | ok target =>
      obtain ⟨front, s, hsegments, hs, -, -, htarget⟩ := segments_of_spot hspot
      have hplace : target = d.destination t := by
        rw [htarget, destination, ← walk_directorySegments, hsegments, Place.walk_append,
          Place.walk_cons, Place.move_name hs, Place.walk_nil]
      subst hplace
      rw [hspot] at h
      dsimp only at h
      split at h
      · rename_i hfree
        exact ⟨⟨front, s, hsegments, hs⟩, rfl, hfree, (Except.ok.inj h).symm⟩
      · cases h
  · rintro ⟨hname, hspot, hfree, rfl⟩
    simp [hname.nonempty, hspot, hfree]

/-- In a directory that is there a file can be written wherever no directory stands. -/
theorem writeAt_eq (front : List (List Char)) (content : Content) (hs : isName s = true)
    (hfollow : d.follow base front = .ok p) (hdir : d.get? p = some .directory) :
    d.writeAt base (front ++ [s]) content =
      if d.get? (p ++ [String.ofList s]) = some .directory then .error .isDirectory
      else .ok (d.put (p ++ [String.ofList s]) (.file content)) := by
  unfold writeAt
  rw [spot_of_follow hs hfollow hdir]
  simp only [bind, Except.bind]
  split <;> rfl

end Carve.Disk

namespace Carve.Edit

open Disk

variable {ε α β : Type}

/-- What work comes to on a disk, and the disk it leaves. -/
def outcome (work : Edit ε α) (d : Disk) : Except ε α × Disk := work.run.run d

theorem outcome_bind (work : Edit ε α) (next : α → Edit ε β) (d : Disk) :
    (work >>= next).outcome d = match work.outcome d with
      | (.ok a, d') => (next a).outcome d'
      | (.error e, d') => (.error e, d') := by
  show StateT.run (ExceptT.run (work >>= next)) d = match StateT.run (ExceptT.run work) d with
    | (.ok a, d') => (next a).outcome d'
    | (.error e, d') => (.error e, d')
  rw [ExceptT.run_bind, StateT.run_bind]
  cases StateT.run (ExceptT.run work) d with
  | mk result d' => cases result <;> rfl

@[simp]
theorem outcome_get (d : Disk) : (get : Edit ε Disk).outcome d = (.ok d, d) := rfl

theorem outcome_change (wrap : Refusal → ε) (f : Disk → Except Refusal Disk) (d : Disk) :
    (change wrap f).outcome d = match f d with
      | .ok d' => (.ok (), d')
      | .error refusal => (.error (wrap refusal), d) := by
  unfold change
  rw [outcome_bind, outcome_get]
  dsimp only
  cases f d <;> rfl

theorem outcome_advance (wrap : Refusal → ε) (f : Disk → Disk × Except Refusal Unit) (d : Disk) :
    (advance wrap f).outcome d = match f d with
      | (d', .ok ()) => (.ok (), d')
      | (d', .error refusal) => (.error (wrap refusal), d') := by
  unfold advance
  rw [outcome_bind, outcome_get]
  dsimp only
  obtain ⟨d', result⟩ := f d
  cases result <;> rfl

theorem outcome_mending (work : Edit ε α) (mend : Disk → Disk) (d : Disk) :
    (mending work mend).outcome d = match work.outcome d with
      | (.ok a, d') => (.ok a, d')
      | (.error e, d') => (.error e, mend d') := by
  show StateT.run (ExceptT.run work >>= fun
      | .ok a => pure (.ok a)
      | .error e => ExceptT.run (do modify mend; throw e)) d =
    match StateT.run (ExceptT.run work) d with
    | (.ok a, d') => (.ok a, d')
    | (.error e, d') => (.error e, mend d')
  rw [StateT.run_bind]
  cases StateT.run (ExceptT.run work) d with
  | mk result d' => cases result <;> rfl

end Carve.Edit
