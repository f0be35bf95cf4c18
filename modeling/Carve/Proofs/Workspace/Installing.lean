import Carve.Proofs.Workspace.Around
import Carve.Proofs.Workspace.Staging

/-!
# A complete directory in its place

The place where files are put together is a new one beside the target. What is complete there moves
to the target if that is absent, or empty and then taken away; and once it is taken away the move
does not fail.
-/

namespace Carve

open Disk (isName EndsInName)

namespace Disk

variable {d d' : Disk} {base : Place} {t : Path}

theorem le_foldl_max (ns : List Nat) (m : Nat) :
    m ≤ ns.foldl max m ∧ ∀ n ∈ ns, n ≤ ns.foldl max m := by
  induction ns generalizing m with
  | nil => simp
  | cons a ns ih =>
    obtain ⟨hm, hns⟩ := ih (max m a)
    refine ⟨Nat.le_trans (Nat.le_max_left m a) hm, fun n hn => ?_⟩
    rcases List.mem_cons.mp hn with rfl | hn
    · exact Nat.le_trans (Nat.le_max_right m n) hm
    · exact hns n hn

theorem length_unusedName (d : Disk) (base : Place) (t : Path) :
    t.text.length < (d.unusedName base t).length ∧
      ∀ n ∈ d.names base, n.length < (d.unusedName base t).length := by
  obtain ⟨hpath, hnames⟩ := le_foldl_max ((d.names base).map String.length) t.text.length
  have hlength : ((d.names base).map String.length).foldl max t.text.length <
      (d.unusedName base t).length := by
    have hfront : 0 < ".liteworkspace-".toList.length := by
      rw [String.length_toList]
      decide
    unfold unusedName
    rw [String.length_ofList, List.length_append, List.length_replicate]
    exact Nat.lt_add_of_pos_left hfront
  refine ⟨Nat.lt_of_le_of_lt hpath hlength, fun n hn => ?_⟩
  exact Nat.lt_of_le_of_lt (hnames _ (List.mem_map_of_mem hn)) hlength

theorem get?_unusedName (d : Disk) (base : Place) (t : Path) :
    d.get? (base ++ [d.unusedName base t]) = none := by
  by_contra hthere
  have hlong := (length_unusedName d base t).2 _ (mem_names.mpr hthere)
  omega

end Disk

namespace Workspace

/-- A new place beside the one that a path leads to. -/
structure Site (d : Disk) (t : Path) (base : Place) : Prop where
  closed : d.Closed
  steady : d.Steady t
  nonempty : base ≠ []
  fresh : d.get? base = none
  beside : EndsInName t → base.dropLast = (d.destination t).dropLast ∧ base ≠ d.destination t

section

variable {d d₁ d' : Disk} {t : Path} {base q : Place} {result : Except Fault Unit}

namespace Site

theorem absent (h : Site d t base) (hq : base <+: q) : d.get? q = none :=
  h.closed.absent_from h.fresh hq

theorem restored (h : Site d t base) (hd₁ : Beside d base d₁) (q : Place) :
    (d₁.clear base).get? q = d.get? q := by
  rw [Disk.get?_clear d₁ h.nonempty]
  by_cases hq : base <+: q
  · rw [if_pos hq, h.absent hq]
  · rw [if_neg hq, hd₁.elsewhere q hq]

theorem elsewhere_of_present (h : Site d t base) (hd₁ : Beside d base d₁)
    (hq : d.get? q ≠ none) : d₁.get? q = d.get? q :=
  hd₁.elsewhere q fun hin => hq (h.absent hin)

theorem apart (h : Site d t base) (hname : EndsInName t) :
    ∀ q, base <+: q → ¬ d.destination t <+: q := by
  obtain ⟨hsame, hne⟩ := h.beside hname
  obtain ⟨front, s, -, -, hdest⟩ := hname.lastMove d
  intro q hbase hin
  have hlength : base.length = (d.destination t).length := by
    have hlen := congrArg List.length hsame
    have hpos := List.length_pos_iff.mpr h.nonempty
    rw [List.length_dropLast, List.length_dropLast] at hlen
    rw [hdest, List.length_append, List.length_singleton] at hlen ⊢
    omega
  exact hne (List.prefix_of_prefix_length_le hbase hin (by omega) |>.eq_of_length hlength)

end Site

structure Moved (d d₁ : Disk) (base dest : Place) (d' : Disk) : Prop where
  closed : d'.Closed
  here : d'.here = d.here
  inside : ∀ r, d'.get? (dest ++ r) = d₁.get? (base ++ r)
  outside : ∀ q, ¬ dest <+: q → d'.get? q = d.get? q

structure Ready (d₁ : Disk) (dest : Place) (d₂ : Disk) : Prop where
  closed : d₂.Closed
  here : d₂.here = d₁.here
  absent : ∀ q, dest <+: q → d₂.get? q = none
  elsewhere : ∀ q, ¬ dest <+: q → d₂.get? q = d₁.get? q

theorem ready_of_absent (hd : d.Closed) {dest : Place} (h : d.get? dest = none) :
    Ready d dest d where
  closed := hd
  here := rfl
  absent _ hq := hd.absent_from h hq
  elsewhere _ _ := rfl

theorem ready_of_clear (hd : d.Closed) {dest : Place} (h : dest ≠ []) :
    Ready d dest (d.clear dest) where
  closed := Disk.closed_clear hd h
  here := rfl
  absent q hq := by rw [Disk.get?_clear d h, if_pos hq]
  elsewhere q hq := by rw [Disk.get?_clear d h, if_neg hq]

variable {d₂ : Disk}

theorem Site.moved (h : Site d t base) (hd₁ : Beside d base d₁)
    (hready : Ready d₁ (d.destination t) d₂) (hmove : d₂.moveTo base t = .ok d') :
    EndsInName t ∧ Moved d d₁ base (d.destination t) d' := by
  obtain ⟨hname, hspot, -, rfl⟩ := Disk.moveTo_eq_ok_iff.mp hmove
  have hhere : d₂.here = d.here := hready.here.trans hd₁.here
  rw [Disk.destination_congr hhere] at hspot ⊢
  have hapart := h.apart hname
  obtain ⟨front, s, -, -, -, habove, hdest⟩ := Disk.segments_of_spot hspot
  have hdest' : d.destination t ≠ [] := by simp [hdest]
  have hparent : (d.destination t).dropLast = (d₂.start t).walk front := by
    rw [hdest, List.dropLast_concat]
  have hout : ¬ base <+: (d.destination t).dropLast := fun hin =>
    hapart _ (hin.trans (List.dropLast_prefix _)) (List.prefix_refl _)
  refine ⟨hname, ?_, hhere, fun r => ?_, fun q hq => ?_⟩
  · exact Disk.closed_relocate hready.closed h.nonempty hdest' hready.absent hout
      (hparent ▸ habove)
  · rw [Disk.get?_relocate h.nonempty hdest' hready.absent, if_pos (List.prefix_append _ _),
      List.drop_left, hready.elsewhere _ (hapart _ (List.prefix_append _ _))]
  · rw [Disk.get?_relocate h.nonempty hdest' hready.absent, if_neg hq]
    by_cases hin : base <+: q
    · rw [if_pos hin, h.absent hin]
    · rw [if_neg hin, hready.elsewhere q hq, hd₁.elsewhere q hin]

theorem Site.movable (h : Site d t base) (hd₁ : Beside d base d₁)
    (hready : Ready d₁ (d.destination t) d₂) (hname : EndsInName t)
    (habove : d.get? (d.destination t).dropLast = some .directory) :
    ∃ d', d₂.moveTo base t = .ok d' := by
  have hhere : d₂.here = d.here := hready.here.trans hd₁.here
  have hsame : ∀ q, d.get? q = some .directory → ¬ d.destination t <+: q →
      d₂.get? q = some .directory := fun q hq hin => by
    rw [hready.elsewhere q hin, h.elsewhere_of_present hd₁ (by simp [hq]), hq]
  obtain ⟨front, s, hsegments, hs, hdest⟩ := hname.destination d
  rw [hdest, List.dropLast_concat] at habove
  have hturns : ∀ q ∈ (d.start t).turns front, d₂.get? q = some .directory := by
    intro q hq
    have hturn : q ∈ (d.start t).turns t.segments := by
      rw [← Disk.turns_directorySegments, hsegments, Place.turns_append]
      exact List.mem_append_left _ hq
    exact hsame q (h.steady q hturn).1 ((h.steady.not_before hname).2 q hturn)
  have hparent : d₂.get? ((d.start t).walk front) = some .directory := by
    refine hsame _ habove ?_
    rw [hdest]
    exact Place.not_concat_below _ _
  refine ⟨_, Disk.moveTo_eq_ok_iff.mpr ⟨hname, ?_, ?_, rfl⟩⟩
  · rw [Disk.destination_congr hhere, Disk.start_congr hhere, hsegments, hdest]
    exact Disk.spot_of_follow hs (Disk.follow_of_directory hready.closed hturns hparent) hparent
  · rw [Disk.destination_congr hhere]
    exact hready.absent _ (List.prefix_refl _)

theorem outcome_install (base : Place) (t : Path) (d₁ : Disk) : (install base t).outcome d₁ =
    match if d₁.isPresent t then d₁.removeDirectory t else .ok d₁ with
    | .error refusal => (.error (.system refusal), d₁)
    | .ok d₂ =>
      match d₂.moveTo base t with
      | .ok d' => (.ok (), d')
      | .error refusal => (.error (.system refusal), d₂) := by
  unfold install
  rw [Edit.outcome_bind, Edit.outcome_get]
  dsimp only
  split
  · rw [Edit.outcome_bind, Edit.outcome_change]
    cases d₁.removeDirectory t with
    | error refusal => rfl
    | ok d₂ => exact Edit.outcome_change _ _ _
  · exact Edit.outcome_change _ _ _

theorem Site.at_target (h : Site d t base) (hd₁ : Beside d base d₁) (hname : EndsInName t) :
    d₁.get? (d.destination t) = d.get? (d.destination t) ∧
      (d₁.names (d.destination t) = [] ↔ d.names (d.destination t) = []) := by
  have hsame : ∀ q, d.destination t <+: q → d₁.get? q = d.get? q := fun q hq =>
    hd₁.elsewhere q fun hin => h.apart hname q hin hq
  refine ⟨hsame _ (List.prefix_refl _), ?_⟩
  rw [Disk.names_eq_nil_iff hd₁.closed, Disk.names_eq_nil_iff h.closed]
  exact forall_congr' fun q => ⟨fun hnone hq hne => hsame q hq ▸ hnone hq hne,
    fun hnone hq hne => (hsame q hq).trans (hnone hq hne)⟩

/-- Whether a complete directory can take the place that a path leads to. -/
structure Open (d : Disk) (t : Path) : Prop where
  named : EndsInName t
  above : d.get? (d.destination t).dropLast = some .directory
  nofile : ∀ c, d.get? (d.destination t) ≠ some (.file c)
  empty : d.names (d.destination t) = []

theorem Site.locate (h : Site d t base) (hd₁ : Beside d base d₁) (hname : EndsInName t)
    (hdir : d₁.get? (d.destination t) = some .directory) :
    d₁.locate t = .ok (d.destination t) := by
  have hturns : ∀ q ∈ (d.start t).turns t.segments, d₁.get? q = some .directory := fun q hq => by
    have hq := (h.steady q hq).1
    rw [h.elsewhere_of_present hd₁ (by simp [hq]), hq]
  rw [Disk.locate, if_neg (by simp [hname.nonempty]), Disk.start_congr hd₁.here]
  exact Disk.follow_of_directory hd₁.closed hturns hdir

theorem Open.directory (h : Open d t) (hthere : d.get? (d.destination t) ≠ none) :
    d.get? (d.destination t) = some .directory := by
  cases hentry : d.get? (d.destination t) with
  | none => exact absurd hentry hthere
  | some entry =>
    cases entry with
    | directory => rfl
    | file c => exact absurd hentry (h.nofile c)

theorem Site.removable (h : Site d t base) (hd₁ : Beside d base d₁) (hopen : Open d t)
    (hthere : d₁.get? (d.destination t) ≠ none) :
    d₁.removeDirectory t = .ok (d₁.clear (d.destination t)) := by
  obtain ⟨hentry, hnames⟩ := h.at_target hd₁ hopen.named
  have hdir : d₁.get? (d.destination t) = some .directory :=
    hentry.trans (hopen.directory (hentry ▸ hthere))
  rw [← Disk.destination_congr hd₁.here t] at hdir hnames ⊢
  refine Disk.removeDirectory_eq_ok_iff.mpr ⟨hopen.named, ?_, hdir, ?_, rfl⟩
  · rw [Disk.destination_congr hd₁.here] at hdir ⊢
    exact h.locate hd₁ hopen.named hdir
  · rw [Disk.destination_congr hd₁.here] at hnames ⊢
    exact hnames.mpr hopen.empty

/-- Installing moves the directory to where there was nothing or an empty directory. If it fails it
has done nothing, and it does not fail where it can succeed. -/
theorem install_outcome (h : Site d t base) (hd₁ : Beside d base d₁)
    (hrun : (install base t).outcome d₁ = (result, d')) :
    (result = .ok () → EndsInName t ∧ Moved d d₁ base (d.destination t) d' ∧
      (d.get? (d.destination t) = none ∨ d.get? (d.destination t) = some .directory ∧
        d.names (d.destination t) = [])) ∧
    (∀ e, result = .error e → d' = d₁ ∧ ¬ Open d t) := by
  rw [outcome_install] at hrun
  have hdest := Disk.destination_congr hd₁.here t
  by_cases hpresent : d₁.isPresent t = true
  · rw [if_pos hpresent] at hrun
    cases hremove : d₁.removeDirectory t with
    | error refusal =>
      rw [hremove] at hrun
      obtain ⟨rfl, rfl⟩ := Prod.mk.inj hrun
      refine ⟨fun hok => (by cases hok), fun _ _ => ⟨rfl, fun hopen => ?_⟩⟩
      have hthere := Disk.present_of_isPresent hpresent
      rw [hdest] at hthere
      have hallowed := h.removable hd₁ hopen hthere
      rw [hremove] at hallowed
      cases hallowed
    | ok d₂ =>
      obtain ⟨hname, -, hdir, hempty, rfl⟩ := Disk.removeDirectory_eq_ok_iff.mp hremove
      obtain ⟨front, s, hs, hlast, hplace⟩ := hname.lastMove d
      rw [hdest] at hdir hempty hremove
      obtain ⟨hentry, hnames⟩ := h.at_target hd₁ hname
      have hready : Ready d₁ (d.destination t) (d₁.clear (d.destination t)) :=
        ready_of_clear hd₁.closed (by simp [hplace])
      have habove : d.get? (d.destination t).dropLast = some .directory :=
        h.closed _ (by simp [hplace]) (by simp [← hentry, hdir])
      obtain ⟨d₃, hmove⟩ := h.movable hd₁ hready hname habove
      simp only [hremove, hmove] at hrun
      obtain ⟨rfl, rfl⟩ := Prod.mk.inj hrun
      exact ⟨fun _ => ⟨hname, (h.moved hd₁ hready hmove).2,
        .inr ⟨hentry ▸ hdir, hnames.mp hempty⟩⟩, fun _ he => (by cases he)⟩
  · rw [if_neg hpresent] at hrun
    dsimp only at hrun
    cases hmove : d₁.moveTo base t with
    | error refusal =>
      rw [hmove] at hrun
      obtain ⟨rfl, rfl⟩ := Prod.mk.inj hrun
      refine ⟨fun hok => (by cases hok), fun _ _ => ⟨rfl, fun hopen => ?_⟩⟩
      have hnone : d₁.get? (d.destination t) = none := by
        by_contra hthere
        have hentry := (h.at_target hd₁ hopen.named).1
        have hdir := hentry.trans (hopen.directory (hentry ▸ hthere))
        exact hpresent (Disk.isPresent_of_locate (h.locate hd₁ hopen.named hdir) hthere)
      obtain ⟨d₃, hallowed⟩ :=
        h.movable hd₁ (ready_of_absent hd₁.closed hnone) hopen.named hopen.above
      rw [hmove] at hallowed
      cases hallowed
    | ok d₃ =>
      rw [hmove] at hrun
      obtain ⟨rfl, rfl⟩ := Prod.mk.inj hrun
      obtain ⟨hname, -, hnone, -⟩ := Disk.moveTo_eq_ok_iff.mp hmove
      rw [hdest] at hnone
      have hmoved := h.moved hd₁ (ready_of_absent hd₁.closed hnone) hmove
      rw [(h.at_target hd₁ hname).1] at hnone
      exact ⟨fun _ => ⟨hname, hmoved.2, .inl hnone⟩, fun _ he => (by cases he)⟩

end

end Workspace

end Carve
