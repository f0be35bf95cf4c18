import Carve.Disk.Basic
import Mathlib.Data.List.Induction
import Mathlib.Tactic.ByContra

/-!
# Where segments lead

The segments of a path lead from one place to another, down by a name and up by two dots. What a
disk finds by following them lies where they lead; and from directories to a directory they can be
followed to their end.
-/

namespace Carve

open Disk (isName)

namespace Place

def move (p : Place) (s : List Char) : Place :=
  if Path.isFiller s then p else if s = ['.', '.'] then p.dropLast else p ++ [String.ofList s]

def walk (p : Place) (segments : List (List Char)) : Place := segments.foldl move p

/-- The places that are come to by their names. -/
def trail : Place → List (List Char) → List Place
  | _, [] => []
  | p, s :: rest => (if isName s then [p.move s] else []) ++ trail (p.move s) rest

/-- The places that are left upwards. -/
def turns : Place → List (List Char) → List Place
  | _, [] => []
  | p, s :: rest => (if s = ['.', '.'] then [p] else []) ++ turns (p.move s) rest

section

variable {p v x : Place} {s : List Char} {segments : List (List Char)}

@[simp]
theorem move_filler (h : Path.isFiller s = true) : p.move s = p := by simp [move, h]

@[simp]
theorem move_up : p.move ['.', '.'] = p.dropLast := rfl

@[simp]
theorem move_name (h : isName s = true) : p.move s = p ++ [String.ofList s] := by
  obtain ⟨hfiller, hup⟩ : Path.isFiller s = false ∧ s ≠ ['.', '.'] := by simpa [isName] using h
  simp [move, hfiller, hup]

theorem segment_cases (s : List Char) :
    Path.isFiller s = true ∨ s = ['.', '.'] ∨ isName s = true := by
  by_cases hfiller : Path.isFiller s = true
  · exact .inl hfiller
  · by_cases hup : s = ['.', '.']
    · exact .inr (.inl hup)
    · exact .inr (.inr (by simp [isName, hfiller, hup]))

theorem not_isName_of_filler (h : Path.isFiller s = true) : isName s = false := by
  simp [isName, h]

theorem ne_up_of_filler (h : Path.isFiller s = true) : s ≠ ['.', '.'] := by
  rintro rfl
  cases h

theorem ne_up_of_isName (h : isName s = true) : s ≠ ['.', '.'] := by
  rintro rfl
  cases h

theorem not_isFiller_of_isName (h : isName s = true) : Path.isFiller s = false := by
  have hs : Path.isFiller s = false ∧ s ≠ ['.', '.'] := by simpa [isName] using h
  exact hs.1

@[simp]
theorem walk_nil : p.walk [] = p := rfl

@[simp]
theorem walk_cons : p.walk (s :: segments) = (p.move s).walk segments := rfl

theorem walk_append (p : Place) (front rest : List (List Char)) :
    p.walk (front ++ rest) = (p.walk front).walk rest := List.foldl_append

theorem trail_cons_name (h : isName s = true) :
    p.trail (s :: segments) = p.move s :: (p.move s).trail segments := by simp [trail, h]

theorem trail_cons_other (h : isName s = false) :
    p.trail (s :: segments) = (p.move s).trail segments := by simp [trail, h]

theorem turns_cons_other (h : s ≠ ['.', '.']) :
    p.turns (s :: segments) = (p.move s).turns segments := by simp [turns, h]

theorem trail_append (p : Place) (front rest : List (List Char)) :
    p.trail (front ++ rest) = p.trail front ++ (p.walk front).trail rest := by
  induction front generalizing p with
  | nil => rfl
  | cons s front ih => simp [trail, ih]

theorem turns_append (p : Place) (front rest : List (List Char)) :
    p.turns (front ++ rest) = p.turns front ++ (p.walk front).turns rest := by
  induction front generalizing p with
  | nil => rfl
  | cons s front ih => simp [turns, ih]

theorem ways_filter (p : Place) (segments : List (List Char)) :
    p.walk (segments.filter (!Path.isFiller ·)) = p.walk segments ∧
      p.trail (segments.filter (!Path.isFiller ·)) = p.trail segments ∧
      p.turns (segments.filter (!Path.isFiller ·)) = p.turns segments := by
  induction segments generalizing p with
  | nil => exact ⟨rfl, rfl, rfl⟩
  | cons s rest ih =>
    by_cases hs : Path.isFiller s = true
    · rw [List.filter_cons_of_neg (by simpa using hs), walk_cons, trail_cons_other
        (not_isName_of_filler hs), turns_cons_other (ne_up_of_filler hs), move_filler hs]
      exact ih p
    · obtain ⟨hwalk, htrail, hturns⟩ := ih (p.move s)
      rw [List.filter_cons_of_pos (by simpa using hs)]
      exact ⟨hwalk, by rw [trail, htrail, trail], by rw [turns, hturns, turns]⟩

theorem not_concat_below (p : Place) (n : String) : ¬ p ++ [n] <+: p := by
  intro h
  have hlen := h.length_le
  rw [List.length_append, List.length_singleton] at hlen
  omega

theorem prefix_dropLast (h : x <+: p) (hne : x ≠ p) : x <+: p.dropLast := by
  rcases List.eq_nil_or_concat p with rfl | ⟨q, n, rfl⟩
  · exact h
  · rw [List.concat_eq_append] at h hne ⊢
    rw [List.dropLast_concat]
    exact (List.prefix_concat_iff.mp h).resolve_left hne

/-- Who comes out of a place has gone up from it. -/
theorem mem_turns_of_leaving (hin : x <+: p) (hout : ¬ x <+: p.walk segments) :
    x ∈ p.turns segments := by
  induction segments generalizing p with
  | nil => exact absurd hin hout
  | cons s rest ih =>
    rw [walk_cons] at hout
    by_cases hstay : x <+: p.move s
    · exact List.mem_append_right _ (ih hstay hout)
    · rcases segment_cases s with hs | rfl | hs
      · rw [move_filler hs] at hstay
        exact absurd hin hstay
      · by_cases hx : x = p
        · exact List.mem_append_left _ (List.mem_singleton.mpr hx)
        · exact absurd (prefix_dropLast hin hx) hstay
      · rw [move_name hs] at hstay
        exact absurd (hin.trans (List.prefix_append _ _)) hstay

theorem mem_turns_of_trail (hv : v ∈ p.trail segments) (hin : x <+: v)
    (hout : ¬ x <+: p.walk segments) : x ∈ p.turns segments := by
  induction segments generalizing p with
  | nil => cases hv
  | cons s rest ih =>
    rcases List.mem_append.mp hv with hhead | hrest
    · split at hhead
      · obtain rfl := List.mem_singleton.mp hhead
        exact List.mem_append_right _ (mem_turns_of_leaving hin hout)
      · cases hhead
    · exact List.mem_append_right _ (ih hrest hout)

theorem mem_turns_of_turn (hv : v ∈ p.turns segments) (hin : x <+: v)
    (hout : ¬ x <+: p.walk segments) : x ∈ p.turns segments := by
  induction segments generalizing p with
  | nil => cases hv
  | cons s rest ih =>
    rcases List.mem_append.mp hv with hhead | hrest
    · split at hhead
      · obtain rfl := List.mem_singleton.mp hhead
        exact mem_turns_of_leaving hin hout
      · cases hhead
    · exact List.mem_append_right _ (ih hrest hout)

def spelled (segments : List (List Char)) : List String :=
  (segments.filter (!Path.isFiller ·)).map String.ofList

@[simp]
theorem spelled_nil : spelled [] = [] := rfl

theorem spelled_append (front rest : List (List Char)) :
    spelled (front ++ rest) = spelled front ++ spelled rest := by simp [spelled]

theorem spelled_filler (h : Path.isFiller s = true) : spelled (s :: segments) = spelled segments := by
  simp [spelled, h]

theorem spelled_name (h : isName s = true) :
    spelled (s :: segments) = String.ofList s :: spelled segments := by
  simp [spelled, not_isFiller_of_isName h]

theorem walk_of_downward (h : ['.', '.'] ∉ segments) (p : Place) :
    p.walk segments = p ++ spelled segments := by
  induction segments generalizing p with
  | nil => simp
  | cons s rest ih =>
    obtain ⟨hs, hrest⟩ := List.ne_and_not_mem_of_not_mem_cons h
    rw [walk_cons, ih hrest]
    rcases segment_cases s with hfiller | rfl | hname
    · rw [move_filler hfiller, spelled_filler hfiller]
    · exact absurd rfl hs
    · rw [move_name hname, spelled_name hname, List.append_assoc, List.singleton_append]

theorem turns_of_downward (h : ['.', '.'] ∉ segments) (p : Place) : p.turns segments = [] := by
  induction segments generalizing p with
  | nil => rfl
  | cons s rest ih =>
    obtain ⟨hs, hrest⟩ := List.ne_and_not_mem_of_not_mem_cons h
    rw [turns_cons_other (Ne.symm hs), ih hrest]

theorem mem_trail_of_downward (h : ['.', '.'] ∉ segments) :
    v ∈ p.trail segments ↔ ∃ r, r ≠ [] ∧ r <+: spelled segments ∧ v = p ++ r := by
  induction segments generalizing p with
  | nil =>
    simp only [trail, spelled_nil, List.prefix_nil, List.not_mem_nil, false_iff]
    rintro ⟨r, hne, hr, -⟩
    exact hne hr
  | cons s rest ih =>
    obtain ⟨hs, hrest⟩ := List.ne_and_not_mem_of_not_mem_cons h
    rcases segment_cases s with hfiller | rfl | hname
    · rw [trail_cons_other (not_isName_of_filler hfiller), move_filler hfiller,
        spelled_filler hfiller, ih hrest]
    · exact absurd rfl hs
    · rw [trail_cons_name hname, List.mem_cons, ih hrest, move_name hname, spelled_name hname]
      constructor
      · rintro (rfl | ⟨r, -, hr, rfl⟩)
        · exact ⟨[String.ofList s], by simp, by simp, rfl⟩
        · exact ⟨String.ofList s :: r, by simp, by simpa using hr, by simp⟩
      · rintro ⟨r, hne, hr, rfl⟩
        obtain ⟨n, r, rfl⟩ := List.exists_cons_of_ne_nil hne
        obtain ⟨rfl, hrest⟩ := List.cons_prefix_cons.mp hr
        cases r with
        | nil => exact .inl rfl
        | cons m r => exact .inr ⟨m :: r, by simp, hrest, by simp⟩

end

end Place

namespace Disk

variable {d : Disk} {base p q : Place} {s : List Char} {segments : List (List Char)}

@[simp]
theorem get?_nil : d.get? [] = some .directory := rfl

/-- Above what there is stand directories. -/
theorem Closed.directory_on_way (hd : d.Closed) (hq : d.get? q ≠ none) (h : p <+: q)
    (hne : p ≠ q) : d.get? p = some .directory := by
  induction q using List.reverseRecOn with
  | nil => exact absurd (List.prefix_nil.mp h) hne
  | append_singleton q n ih =>
    have hq' : d.get? q = some .directory := by simpa using hd (q ++ [n]) (by simp) hq
    rcases List.prefix_concat_iff.mp h with rfl | h
    · exact absurd rfl hne
    · by_cases hpq : p = q
      · exact hpq ▸ hq'
      · exact ih (by simp [hq']) h hpq

theorem Closed.directory_above (hd : d.Closed) (hq : d.get? q = some .directory) (h : p <+: q) :
    d.get? p = some .directory := by
  by_cases hpq : p = q
  · exact hpq ▸ hq
  · exact hd.directory_on_way (by simp [hq]) h hpq

theorem Closed.absent_below (hd : d.Closed) (hp : d.get? p ≠ some .directory) (h : p <+: q)
    (hne : p ≠ q) : d.get? q = none := by
  by_contra hq
  exact hp (hd.directory_on_way hq h hne)

theorem Closed.absent_from (hd : d.Closed) (hp : d.get? p = none) (h : p <+: q) :
    d.get? q = none := by
  by_cases hpq : p = q
  · exact hpq ▸ hp
  · exact hd.absent_below (by simp [hp]) h hpq

theorem step_eq_ok_iff : d.step base s = .ok q ↔ d.get? base = some .directory ∧
    q = base.move s ∧ (isName s = true → d.get? q ≠ none) := by
  unfold step
  split
  · rename_i hbase
    rcases Place.segment_cases s with hs | rfl | hs
    · simp [hs, hbase, Place.not_isName_of_filler hs, eq_comm]
    · simp [hbase, Path.isFiller, isName, eq_comm]
    · have hup := Place.ne_up_of_isName hs
      simp only [Place.not_isFiller_of_isName hs, hup, hs, Place.move_name, hbase, true_and,
        forall_const, if_false, Bool.false_eq_true]
      by_cases hnext : d.get? (base ++ [String.ofList s]) = none
      · simp only [hnext, Option.isSome_none, Bool.false_eq_true, if_false, reduceCtorEq, false_iff]
        rintro ⟨rfl, h⟩
        exact h hnext
      · have hsome := Option.ne_none_iff_isSome.mp hnext
        simp only [hsome, if_true, Except.ok.injEq]
        constructor
        · rintro rfl
          exact ⟨rfl, hnext⟩
        · rintro ⟨rfl, -⟩
          rfl
  · rename_i hbase
    simp [hbase]
  · rename_i hbase
    simp [hbase]

theorem follow_cons_ok (h : d.follow base (s :: segments) = .ok q) :
    d.step base s = .ok (base.move s) ∧ d.follow (base.move s) segments = .ok q := by
  unfold follow at h ⊢
  rw [List.foldlM_cons] at h
  cases hstep : d.step base s with
  | error e =>
    rw [hstep] at h
    cases h
  | ok next =>
    rw [hstep] at h
    obtain ⟨-, rfl, -⟩ := step_eq_ok_iff.mp hstep
    exact ⟨rfl, h⟩

theorem follow_cons_of_step (h : d.step base s = .ok p) :
    d.follow base (s :: segments) = d.follow p segments := by
  unfold follow
  rw [List.foldlM_cons, h]
  rfl

theorem walk_of_follow (h : d.follow base segments = .ok q) : q = base.walk segments := by
  induction segments generalizing base with
  | nil => exact (Except.ok.inj h).symm
  | cons s rest ih => exact ih (follow_cons_ok h).2

theorem present_of_follow (hd : d.Closed) (hbase : d.get? base ≠ none)
    (h : d.follow base segments = .ok q) : d.get? q ≠ none := by
  induction segments generalizing base with
  | nil =>
    obtain rfl := Except.ok.inj h
    exact hbase
  | cons s rest ih =>
    obtain ⟨hstep, hrest⟩ := follow_cons_ok h
    obtain ⟨hdir, -, hname⟩ := step_eq_ok_iff.mp hstep
    refine ih ?_ hrest
    rcases Place.segment_cases s with hs | rfl | hs
    · rwa [Place.move_filler hs]
    · rw [Place.move_up, hd.directory_above hdir (List.dropLast_prefix _)]
      simp
    · exact hname hs

theorem follow_of_directory (hd : d.Closed)
    (hturns : ∀ t ∈ base.turns segments, d.get? t = some .directory)
    (hend : d.get? (base.walk segments) = some .directory) :
    d.follow base segments = .ok (base.walk segments) := by
  induction segments generalizing base with
  | nil => rfl
  | cons s rest ih =>
    have hstart : ∀ p : Place, ∀ ss, (∀ t ∈ p.turns ss, d.get? t = some .directory) →
        d.get? (p.walk ss) = some .directory → d.get? p = some .directory := by
      intro p ss hts hwalk
      by_cases hin : p <+: p.walk ss
      · exact hd.directory_above hwalk hin
      · exact hts p (Place.mem_turns_of_leaving (List.prefix_refl p) hin)
    have hrest : ∀ t ∈ (base.move s).turns rest, d.get? t = some .directory :=
      fun t ht => hturns t (List.mem_append_right _ ht)
    have hnext : d.get? (base.move s) = some .directory := hstart _ rest hrest hend
    have hstep : d.step base s = .ok (base.move s) :=
      step_eq_ok_iff.mpr ⟨hstart base _ hturns hend, rfl, fun _ => by simp [hnext]⟩
    rw [follow_cons_of_step hstep, ih hrest hend, Place.walk_cons]

/-- Where a path leads. -/
def destination (d : Disk) (p : Path) : Place := (d.start p).walk p.segments

theorem destination_of_locate {p : Path} (h : d.locate p = .ok q) : q = d.destination p := by
  unfold locate at h
  split at h
  · cases h
  · exact walk_of_follow h

theorem present_of_isPresent {p : Path} (h : d.isPresent p = true) :
    d.get? (d.destination p) ≠ none := by
  unfold isPresent look at h
  cases hlocate : d.locate p with
  | error refusal => simp [hlocate] at h
  | ok place =>
    rw [hlocate] at h
    obtain rfl := destination_of_locate hlocate
    exact Option.ne_none_iff_isSome.mpr h

theorem isPresent_of_locate {p : Path} (h : d.locate p = .ok q) (hq : d.get? q ≠ none) :
    d.isPresent p = true := by
  unfold isPresent look
  rw [h]
  exact Option.ne_none_iff_isSome.mp hq

theorem segments_of_spot (h : d.spot base segments = .ok q) : ∃ front s, segments = front ++ [s] ∧
    isName s = true ∧ d.follow base front = .ok (base.walk front) ∧
    d.get? (base.walk front) = some .directory ∧ q = base.walk front ++ [String.ofList s] := by
  unfold spot at h
  cases hfollow : d.follow base segments.dropLast with
  | error e =>
    rw [hfollow] at h
    cases h
  | ok parent =>
    rw [hfollow] at h
    obtain rfl := walk_of_follow hfollow
    simp only [bind, Except.bind] at h
    split at h
    · rename_i last hdir hlast
      split at h
      · rename_i hname
        have hsplit : segments = segments.dropLast ++ [last] := by
          obtain ⟨front, rfl⟩ := List.getLast?_eq_some_iff.mp hlast
          rw [List.dropLast_concat]
        exact ⟨segments.dropLast, last, hsplit, hname, hfollow, hdir, (Except.ok.inj h).symm⟩
      · cases h
    · cases h
    · cases h

theorem spot_of_follow {front : List (List Char)} (hname : isName s = true)
    (h : d.follow base front = .ok p) (hdir : d.get? p = some .directory) :
    d.spot base (front ++ [s]) = .ok (p ++ [String.ofList s]) := by
  unfold spot
  rw [List.dropLast_concat, h]
  simp [bind, Except.bind, hdir, hname, pure, Except.pure]

end Disk

end Carve
