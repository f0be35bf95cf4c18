import Carve.Proofs.Disk.Change
import Carve.Workspace.Write

/-!
# The way to a target

The directory around a path is where all of the path but its last move leads. A path is steady if it
goes up only from directories that are there and never from the place it leads to: then making the
way to it does not come by that place.
-/

namespace Carve

open Disk (isName EndsInName)

namespace Path

/-- The segments of a path that lead from one place to another. -/
def moves (p : Path) : List (List Char) := p.segments.filter (!isFiller ·)

theorem isAbsolute_iff {p : Path} :
    p.isAbsolute = true ↔ ∃ rest, rest ≠ [] ∧ p.segments = [] :: rest := by
  unfold isAbsolute segments
  cases p.text.toList with
  | nil => simp [Text.split]
  | cons c cs =>
    by_cases hc : c = '/'
    · simp [hc, Text.split, Text.split_ne_nil]
    · cases hrest : Text.split '/' cs with
      | nil => exact absurd hrest (Text.split_ne_nil _ _)
      | cons part parts => simp [hc, Text.split, hrest]

theorem segments_of_empty {p : Path} (h : p.text = "") : p.segments = [[]] := by
  rw [segments, h]
  rfl

theorem slash_not_mem_segments {p : Path} {s : List Char} (h : s ∈ p.segments) : '/' ∉ s :=
  Text.not_mem_of_mem_split s h

theorem segments_ofSegments {absolute : Bool} {segs : List (List Char)} (hne : segs ≠ [])
    (hslash : ∀ s ∈ segs, '/' ∉ s) (hlong : ¬ (absolute && decide (segs.length ≤ 1)) = true) :
    (ofSegments absolute segs).segments = segs := by
  rw [ofSegments, if_neg hlong, segments, String.toList_ofList, Text.split_join hne hslash]

theorem filter_dropEndWhile (segs : List (List Char)) :
    (Text.dropEndWhile isFiller segs).filter (!isFiller ·) = segs.filter (!isFiller ·) := by
  obtain ⟨tail, hsplit, htail⟩ := Text.dropEndWhile_append isFiller segs
  have hnone : tail.filter (!isFiller ·) = [] :=
    List.filter_eq_nil_iff.mpr fun s hs => by simp [htail s hs]
  conv_rhs => rw [hsplit, List.filter_append, hnone, List.append_nil]

theorem dropEndWhile_subset (segs : List (List Char)) : Text.dropEndWhile isFiller segs ⊆ segs := by
  obtain ⟨tail, hsplit, -⟩ := Text.dropEndWhile_append isFiller segs
  intro s hs
  rw [hsplit]
  exact List.mem_append_left _ hs

end Path

namespace Workspace

open Carve.Path

theorem around_short {t : Path} {first : List Char} {rest : List (List Char)}
    (hsegments : t.segments = first :: rest) (hrest : Text.dropEndWhile isFiller rest = []) :
    around t = ⟨"."⟩ := by
  have hinner : Path.inner rest = [] := by
    rw [Path.inner, ← filter_dropEndWhile, hrest]
    rfl
  have hparent : t.parent? = none ∨ t.parent? = some ⟨""⟩ := by
    unfold parent?
    split
    · exact .inl rfl
    · exact .inl rfl
    · rename_i c hroot hlast
      have hrelative : t.isAbsolute = false := by
        cases habsolute : t.isAbsolute with
        | false => rfl
        | true =>
          rw [components_eq hsegments, hinner, habsolute] at hlast
          exact absurd (Option.some.inj hlast).symm hroot
      rw [hsegments, dropFiller, hrest, hrelative]
      exact .inr rfl
  unfold around
  rcases hparent with h | h
  · rw [h]
  · rw [h]
    rfl

theorem around_long {t : Path} {first last : List Char} {rest front : List (List Char)}
    (hsegments : t.segments = first :: rest)
    (hrest : Text.dropEndWhile isFiller rest = front ++ [last]) :
    (around t).moves = (first :: front).filter (!isFiller ·) ∧
      (around t).isAbsolute = t.isAbsolute := by
  have hlast : isFiller last = false := Text.of_concat_dropEndWhile hrest
  have hparent : t.parent? =
      some (ofSegments t.isAbsolute (first :: Text.dropEndWhile isFiller front)) := by
    have hcomponent : t.components.getLast? = some (.ofSegment last) := by
      rw [components_eq hsegments, Path.inner, ← filter_dropEndWhile, hrest, List.filter_append]
      simp [hlast]
    have hroot : Component.ofSegment last ≠ .root := by
      unfold Component.ofSegment
      split <;> simp
    unfold parent?
    rw [hcomponent, hsegments, dropFiller, hrest, ← List.cons_append, List.dropLast_concat,
      dropFiller]
    split
    · rename_i heq
      cases heq
    · rename_i heq
      exact absurd (Option.some.inj heq) hroot
    · rfl
  have hne : rest ≠ [] := by
    rintro rfl
    simp [Text.dropEndWhile] at hrest
  have hslash : ∀ s ∈ first :: Text.dropEndWhile isFiller front, '/' ∉ s := by
    intro s hs
    refine slash_not_mem_segments (p := t) ?_
    rw [hsegments]
    rcases List.mem_cons.mp hs with rfl | hs
    · exact List.mem_cons_self
    · refine List.mem_cons_of_mem _ (dropEndWhile_subset rest ?_)
      rw [hrest]
      exact List.mem_append_left _ (dropEndWhile_subset front hs)
  have hfilter : (first :: Text.dropEndWhile isFiller front).filter (!isFiller ·) =
      (first :: front).filter (!isFiller ·) := by
    rw [List.filter_cons, List.filter_cons, filter_dropEndWhile]
  have habsolute : t.isAbsolute = true ↔ first = [] := by
    rw [isAbsolute_iff, hsegments]
    constructor
    · rintro ⟨rest', -, heq⟩
      exact (List.cons.inj heq).1
    · rintro rfl
      exact ⟨rest, hne, rfl⟩
  unfold around
  rw [hparent]
  dsimp only
  by_cases hroot : t.isAbsolute = true ∧ Text.dropEndWhile isFiller front = []
  · obtain ⟨habs, hfront⟩ := hroot
    have hslash : ofSegments true [first] = ⟨"/"⟩ := rfl
    rw [hfront] at hfilter
    rw [habs, hfront, hslash, ← hfilter, habsolute.mp habs]
    exact ⟨rfl, rfl⟩
  · have hlong : ¬ (t.isAbsolute &&
        decide ((first :: Text.dropEndWhile isFiller front).length ≤ 1)) = true := by
      simpa using hroot
    have hparts := segments_ofSegments (List.cons_ne_nil _ _) hslash hlong
    have hcount : first ≠ [] ∨ Text.dropEndWhile isFiller front ≠ [] := by
      by_contra h
      rw [not_or, not_not, not_not] at h
      exact hroot ⟨habsolute.mpr h.1, h.2⟩
    have hnonempty : ¬ (ofSegments t.isAbsolute
        (first :: Text.dropEndWhile isFiller front)).text.isEmpty = true := by
      intro hempty
      have hnone := segments_of_empty (String.isEmpty_iff.mp hempty)
      rw [hparts] at hnone
      obtain ⟨hfirst, hfront⟩ := List.cons.inj hnone
      exact hcount.elim (· hfirst) (· hfront)
    rw [if_neg hnonempty]
    refine ⟨by rw [moves, hparts, hfilter], Bool.eq_iff_iff.mpr ?_⟩
    rw [isAbsolute_iff, hparts, habsolute]
    constructor
    · rintro ⟨rest', -, heq⟩
      exact (List.cons.inj heq).1
    · rintro rfl
      exact ⟨_, hcount.resolve_left (· rfl), rfl⟩

/-- The directory around a path is told by all its moves but the last. -/
theorem around_moves (t : Path) : (around t).moves = t.moves.dropLast ∧
    (t.moves ≠ [] → (around t).isAbsolute = t.isAbsolute) := by
  cases hsegments : t.segments with
  | nil => exact absurd hsegments (Text.split_ne_nil _ _)
  | cons first rest =>
    have hmoves : t.moves = (first :: Text.dropEndWhile isFiller rest).filter (!isFiller ·) := by
      rw [moves, hsegments, List.filter_cons, List.filter_cons, filter_dropEndWhile]
    rcases List.eq_nil_or_concat (Text.dropEndWhile isFiller rest) with hnil | ⟨front, last, hfront⟩
    · rw [around_short hsegments hnil, hmoves, hnil]
      refine ⟨?_, fun hne => ?_⟩
      · have hdot : (Path.mk ".").moves = [] := rfl
        by_cases hfirst : isFiller first = true <;> simp [hfirst, hdot]
      · cases habsolute : t.isAbsolute with
        | false => rfl
        | true =>
          obtain ⟨rest', -, heq⟩ := isAbsolute_iff.mp habsolute
          rw [hsegments] at heq
          obtain ⟨rfl, -⟩ := List.cons.inj heq
          exact absurd rfl hne
    · rw [List.concat_eq_append] at hfront
      have hlast : isFiller last = false := Text.of_concat_dropEndWhile hfront
      obtain ⟨hdir, habsolute⟩ := around_long hsegments hfront
      refine ⟨?_, fun _ => habsolute⟩
      rw [hdir, hmoves, hfront, ← List.cons_append, List.filter_append]
      simp [hlast]

end Workspace

namespace Disk

variable {d d' : Disk} {t : Path} {q v : Place}

/-- The places on the way to the last move of a path. -/
def approach (d : Disk) (t : Path) : List Place := (d.start t).trail t.moves.dropLast

/-- A path that goes up only from directories that are there, and not from where it leads to, so
that clearing at a place beside the target is clearing by the path to it. -/
def Steady (d : Disk) (t : Path) : Prop :=
  ∀ q ∈ (d.start t).turns t.segments, d.get? q = some .directory ∧ q ≠ d.destination t

instance (d : Disk) (t : Path) : Decidable (d.Steady t) :=
  inferInstanceAs (Decidable (∀ q ∈ (d.start t).turns t.segments, _))

theorem start_congr (h : d'.here = d.here) (t : Path) : d'.start t = d.start t := by
  rw [start, start, h]

theorem destination_congr (h : d'.here = d.here) (t : Path) : d'.destination t = d.destination t := by
  rw [destination, destination, start_congr h]

theorem Steady.grown {on : List Place} (h : d.Steady t) (hgrown : d.Grown d' on) :
    d'.Steady t := by
  unfold Steady
  rw [start_congr hgrown.here, destination_congr hgrown.here]
  intro q hq
  obtain ⟨hdir, hne⟩ := h q hq
  exact ⟨by rw [hgrown.stays (by simp [hdir]), hdir], hne⟩

theorem approach_eq (d : Disk) (t : Path) :
    (d.start (Workspace.around t)).trail (Workspace.around t).segments = d.approach t := by
  obtain ⟨hmoves, habsolute⟩ := Workspace.around_moves t
  rw [← (Place.ways_filter _ _).2.1]
  show (d.start (Workspace.around t)).trail (Workspace.around t).moves = _
  rw [hmoves, approach]
  by_cases hnone : t.moves = []
  · rw [hnone]
    rfl
  · rw [start, start, habsolute hnone]

structure LastMove (d : Disk) (t : Path) (front : List (List Char)) (s : List Char) : Prop where
  moves : t.moves = front ++ [s]
  approach : d.approach t = (d.start t).trail front
  turns : (d.start t).turns t.segments = (d.start t).turns front ++
    (if s = ['.', '.'] then [(d.start t).walk front] else [])
  trail : (d.start t).trail t.segments = d.approach t ++
    (if isName s then [d.destination t] else [])
  destination : d.destination t = ((d.start t).walk front).move s
  around : d.destination (Workspace.around t) = (d.start t).walk front
  turns_around : (d.start (Workspace.around t)).turns (Workspace.around t).segments =
    (d.start t).turns front

theorem lastMove {front : List (List Char)} {s : List Char} (h : t.moves = front ++ [s]) (d : Disk) :
    d.LastMove t front s := by
  obtain ⟨hwalk, htrail, hturns⟩ := Place.ways_filter (d.start t) t.segments
  have hfilter : t.segments.filter (!Path.isFiller ·) = front ++ [s] := h
  obtain ⟨hmoves, habsolute⟩ := Workspace.around_moves t
  have hfront : (Workspace.around t).segments.filter (!Path.isFiller ·) = front := by
    rw [h, List.dropLast_concat] at hmoves
    exact hmoves
  have hstart : d.start (Workspace.around t) = d.start t := by
    rw [start, start, habsolute (by simp [h])]
  have hdest : d.destination t = ((d.start t).walk front).move s := by
    rw [Disk.destination, ← hwalk, hfilter, Place.walk_append, Place.walk_cons, Place.walk_nil]
  have happroach : d.approach t = (d.start t).trail front := by
    rw [Disk.approach, h, List.dropLast_concat]
  refine ⟨h, happroach, ?_, ?_, hdest, ?_, ?_⟩
  · rw [← hturns, hfilter, Place.turns_append]
    simp [Place.turns]
  · rw [← htrail, hfilter, Place.trail_append, happroach, hdest]
    simp [Place.trail]
  · rw [Disk.destination, ← (Place.ways_filter _ _).1, hfront, hstart]
  · rw [← (Place.ways_filter _ _).2.2, hfront, hstart]

theorem EndsInName.lastMove (h : EndsInName t) (d : Disk) : ∃ front s, isName s = true ∧
    d.LastMove t front s ∧ d.destination t = (d.start t).walk front ++ [String.ofList s] := by
  obtain ⟨front, s, hsegments, hs⟩ := h
  have hmoves : t.moves = front.filter (!Path.isFiller ·) ++ [s] := by
    rw [Path.moves, ← filter_directorySegments, hsegments, List.filter_append]
    simp [Place.not_isFiller_of_isName hs]
  have hlast := Disk.lastMove hmoves d
  exact ⟨_, s, hs, hlast, by rw [hlast.destination, Place.move_name hs]⟩

section

variable {front : List (List Char)} {s : List Char}

theorem Steady.directory_before (h : d.Steady t) (hd : d.Closed) (hlast : d.LastMove t front s)
    (hthere : d.get? (d.destination t) ≠ none) :
    d.get? ((d.start t).walk front) = some .directory := by
  rcases Place.segment_cases s with hs | rfl | hs
  · have hmem : s ∈ t.moves := by simp [hlast.moves]
    simp [Path.moves, hs] at hmem
  · exact (h _ (by simp [hlast.turns])).1
  · have hdest := hlast.destination
    rw [Place.move_name hs] at hdest
    rw [hdest] at hthere
    simpa using hd _ (by simp) hthere

theorem Steady.locate (h : d.Steady t) (hd : d.Closed) (ht : t.text.isEmpty = false)
    (hdir : d.get? (d.destination t) = some .directory) : d.locate t = .ok (d.destination t) := by
  rw [Disk.locate, if_neg (by simp [ht])]
  exact follow_of_directory hd (fun q hq => (h q hq).1) hdir

/-- The way to a place that is there consists of directories. -/
theorem Steady.paved (h : d.Steady t) (hd : d.Closed)
    (hthere : d.get? (d.destination t) ≠ none) :
    ∀ v ∈ d.approach t, d.get? v = some .directory := by
  intro v hv
  rcases List.eq_nil_or_concat t.moves with hnil | ⟨front, s, hmoves⟩
  · simp [approach, hnil, Place.trail] at hv
  · have hlast := lastMove (hmoves.trans List.concat_eq_append) d
    rw [hlast.approach] at hv
    by_cases hin : v <+: (d.start t).walk front
    · exact hd.directory_above (h.directory_before hd hlast hthere) hin
    · have hturn := Place.mem_turns_of_trail hv (List.prefix_refl v) hin
      exact (h v (by rw [hlast.turns]; exact List.mem_append_left _ hturn)).1

theorem Steady.present_of_approach (h : d.Steady t) (hd : d.Closed)
    (hon : d.destination t ∈ d.approach t) : d.get? (d.destination t) ≠ none := by
  rcases List.eq_nil_or_concat t.moves with hnil | ⟨front, s, hmoves⟩
  · simp [approach, hnil, Place.trail] at hon
  · have hlast := lastMove (hmoves.trans List.concat_eq_append) d
    rw [hlast.approach] at hon
    by_cases hin : d.destination t <+: (d.start t).walk front
    · rcases Place.segment_cases s with hs | rfl | hs
      · have hmem : s ∈ t.moves := by simp [hlast.moves]
        simp [Path.moves, hs] at hmem
      · have hdir := (h ((d.start t).walk front) (by simp [hlast.turns])).1
        rw [hd.directory_above hdir hin]
        simp
      · rw [hlast.destination, Place.move_name hs] at hin
        exact absurd hin (Place.not_concat_below _ _)
    · have hturn := Place.mem_turns_of_trail hon (List.prefix_refl _) hin
      exact absurd rfl (h _ (by rw [hlast.turns]; exact List.mem_append_left _ hturn)).2

theorem Steady.not_before (h : d.Steady t) (hname : EndsInName t) :
    (∀ v ∈ d.approach t, ¬ d.destination t <+: v) ∧
      ∀ q ∈ (d.start t).turns t.segments, ¬ d.destination t <+: q := by
  obtain ⟨front, s, hs, hlast, hdest⟩ := hname.lastMove d
  have hout : ¬ d.destination t <+: (d.start t).walk front := by
    rw [hdest]
    exact Place.not_concat_below _ _
  have hturns : (d.start t).turns t.segments = (d.start t).turns front := by
    rw [hlast.turns, if_neg (Place.ne_up_of_isName hs), List.append_nil]
  have hnever : d.destination t ∉ (d.start t).turns front := fun hmem =>
    absurd rfl (h _ (hturns ▸ hmem)).2
  rw [hlast.approach, hturns]
  exact ⟨fun v hv hin => hnever (Place.mem_turns_of_trail hv hin hout),
    fun q hq hin => hnever (Place.mem_turns_of_turn hq hin hout)⟩

end

end Disk

end Carve
