import Carve.Proofs.Workspace.Installing

/-!
# Writing a workspace

A workspace is written as a whole or not at all. What a refused write leaves behind are directories
on the way to a target that was not there; what a granted one leaves at the target is the workspace
and nothing else. Which of the two it is follows from the target and the paths of the files alone,
as long as no file stands on the way to the target.
-/

namespace Carve

open Disk (isName EndsInName)

namespace Workspace

section

variable {w : Workspace} {d d₁ d' : Disk} {t : Path} {base : Place} {result : Except Fault Unit}

/-- Whether a workspace is written to a target, and why it is not. -/
def verdict (w : Workspace) (d : Disk) (t : Path) : Except Fault Unit :=
  if d.names (d.destination t) ≠ [] then .error (.io (t.text ++ " exists and is not empty"))
  else match w.files.find? (!·.1.isContained) with
    | none => .ok ()
    | some f =>
      .error (.inconsistent ("refusing to write outside the workspace: " ++ f.1.text))

/-- At the target stands the workspace and nothing else. It was absent or empty before, and
elsewhere nothing is new but directories on the way to it. -/
structure Delivered (w : Workspace) (d : Disk) (t : Path) (d' : Disk) : Prop where
  contained : ∀ f ∈ w.files, f.1.isContained = true
  before : d.get? (d.destination t) = none ∨
    d.get? (d.destination t) = some .directory ∧ d.names (d.destination t) = []
  located : d'.locate t = .ok (d.destination t)
  holds : Holds d' (d.destination t) w.listing
  elsewhere : ∀ q, ¬ d.destination t <+: q → d'.get? q = d.get? q ∨
    d.get? q = none ∧ d'.get? q = some .directory ∧ q ∈ d.approach t

/-- Nothing has changed if there was something at the target. If there was not, there still is
nothing, and nothing is new but directories on the way to it. -/
structure Untouched (d : Disk) (t : Path) (d' : Disk) : Prop where
  grown : d.Grown d' (d.approach t)
  present : d.get? (d.destination t) ≠ none → ∀ q, d'.get? q = d.get? q
  absent : d.get? (d.destination t) = none → ∀ q, d.destination t <+: q → d'.get? q = none

/-- A path that ends in a name and has no file on it, so that the system has no reason to refuse
a directory there. -/
structure Admits (d : Disk) (t : Path) : Prop where
  named : EndsInName t
  clear : ∀ v ∈ (d.start t).trail t.segments, d.get? v = none ∨ d.get? v = some .directory

instance (d : Disk) (t : Path) : Decidable (Admits d t) :=
  decidable_of_iff (EndsInName t ∧
    ∀ v ∈ (d.start t).trail t.segments, d.get? v = none ∨ d.get? v = some .directory)
    ⟨fun h => ⟨h.1, h.2⟩, fun h => ⟨h.named, h.clear⟩⟩

theorem outcome_writeTo (w : Workspace) (t : Path) (d : Disk) : (w.writeTo t).outcome d =
    match d.isOccupied t with
    | .error refusal => (.error (.system refusal), d)
    | .ok true => (.error (.io (t.text ++ " exists and is not empty")), d)
    | .ok false =>
      match d.createAll (around t) with
      | (d₁, .error refusal) => (.error (.system refusal), d₁)
      | (d₁, .ok ()) =>
        match d₁.locate (around t) with
        | .error refusal => (.error (.system refusal), d₁)
        | .ok place =>
          let base := place ++ [d₁.unusedName place t]
          (Edit.mending (do w.stage base; install base t) (·.clear base)).outcome
            (d₁.put base .directory) := by
  unfold writeTo
  rw [Edit.outcome_bind, Edit.outcome_get]
  dsimp only
  cases d.isOccupied t with
  | error refusal => rfl
  | ok occupied =>
    cases occupied with
    | true => rfl
    | false =>
      dsimp only
      rw [Edit.outcome_bind, Edit.outcome_advance]
      obtain ⟨d₁, made⟩ := d.createAll (around t)
      cases made with
      | error refusal => rfl
      | ok =>
        dsimp only
        rw [Edit.outcome_bind, Edit.outcome_get]
        dsimp only
        cases d₁.locate (around t) with
        | error refusal => rfl
        | ok place => rfl

theorem split_start (hhere : d.get? d.here = some .directory) (t : Path) :
    d.get? (d.start t) = some .directory := by
  unfold Disk.start
  split
  · rfl
  · exact hhere

theorem text_around (t : Path) : (around t).text.isEmpty = false := by
  unfold around
  split
  · split
    · rfl
    · rename_i h
      simpa using h
  · rfl

theorem createAll_made (hd : d.Closed) (hhere : d.get? d.here = some .directory) (t : Path) :
    Disk.WayMade d (d.destination (around t)) (d.approach t) (d.createAll (around t)) := by
  rw [← Disk.approach_eq]
  exact Disk.makeWay_made hd (split_start hhere _) _

theorem createAll_of_present (hd : d.Closed) (hsteady : d.Steady t)
    (hthere : d.get? (d.destination t) ≠ none) : d.createAll (around t) = (d, .ok ()) := by
  have hpaved := hsteady.paved hd hthere
  rw [← Disk.approach_eq] at hpaved
  exact Disk.makeWay_of_paved hpaved

theorem untouched_of_way {made : Except Refusal Unit} (hd : d.Closed)
    (hhere : d.get? d.here = some .directory) (hsteady : d.Steady t)
    (hway : d.createAll (around t) = (d₁, made)) (heq : d'.here = d₁.here)
    (hsame : ∀ q, d'.get? q = d₁.get? q) : Untouched d t d' := by
  have hmade := createAll_made hd hhere t
  rw [hway] at hmade
  refine ⟨⟨heq.trans hmade.grown.here, fun q => hsame q ▸ hmade.grown.entries q⟩, ?_, ?_⟩
  · intro hthere q
    rw [createAll_of_present hd hsteady hthere] at hway
    obtain ⟨rfl, -⟩ := Prod.mk.inj hway
    exact hsame q
  · intro hnone q hq
    have hoff : d.destination t ∉ d.approach t := fun hon =>
      hsteady.present_of_approach hd hon hnone
    have hstill : d₁.get? (d.destination t) = none := (hmade.grown.off hoff).trans hnone
    rw [hsame, hmade.closed.absent_from hstill hq]

theorem site_of_way {place : Place} (hd : d.Closed) (hsteady : d.Steady t)
    (hlocate : d.locate (around t) = .ok place) :
    Site d t (place ++ [d.unusedName place t]) where
  closed := hd
  steady := hsteady
  nonempty := by simp
  fresh := Disk.get?_unusedName d place t
  beside hname := by
    obtain ⟨front, s, hs, hlast, hdest⟩ := hname.lastMove d
    have hplace : place = (d.start t).walk front :=
      (Disk.destination_of_locate hlocate).trans hlast.around
    rw [hdest, List.dropLast_concat, List.dropLast_concat]
    refine ⟨hplace, fun heq => ?_⟩
    obtain ⟨-, hsame⟩ := List.append_inj' heq rfl
    have hsegment : s ∈ t.segments := by
      have hmove : s ∈ t.moves := by simp [hlast.moves]
      exact (List.mem_filter.mp hmove).1
    have hlong := (Disk.length_unusedName d place t).1
    have hshort : s.length ≤ t.text.toList.length := Text.length_le_of_mem_split hsegment
    rw [List.singleton_inj.mp hsame, String.length_ofList] at hlong
    rw [String.length_toList] at hshort
    omega

theorem beside_of_site (h : Site d t base) (habove : d.get? base.dropLast = some .directory) :
    Beside d base (d.put base .directory) ∧ Holds (d.put base .directory) base [] := by
  have hput := Disk.get?_put d h.nonempty .directory
  refine ⟨⟨Disk.closed_put h.closed h.nonempty habove (.inl rfl), rfl, ?_, ?_⟩, ?_, ?_, ?_⟩
  · rw [hput, if_pos rfl]
  · intro q hq
    have hne : q ≠ base := by
      rintro rfl
      exact hq (List.prefix_refl _)
    rw [hput, if_neg hne]
  · intro f hf
    cases hf
  · intro r c hfile
    rw [hput, h.absent (List.prefix_append base r)] at hfile
    split at hfile <;> cases hfile
  · intro r
    rw [hput, h.absent (List.prefix_append base r)]
    simp

theorem Holds.moved {files : List (Path × String)} {dest : Place} (h : Holds d₁ base files)
    (hmoved : Moved d d₁ base dest d') : Holds d' dest files where
  file f hf := by rw [hmoved.inside, h.file f hf]
  only r c hr := h.only r c (hmoved.inside r ▸ hr)
  directories r := by rw [hmoved.inside, h.directories r]

structure Assembled (w : Workspace) (d : Disk) (t : Path) (d' : Disk) : Prop where
  contained : ∀ f ∈ w.files, f.1.isContained = true
  named : EndsInName t
  before : d.get? (d.destination t) = none ∨
    d.get? (d.destination t) = some .directory ∧ d.names (d.destination t) = []
  holds : Holds d' (d.destination t) w.listing
  closed : d'.Closed
  here : d'.here = d.here
  outside : ∀ q, ¬ d.destination t <+: q → d'.get? q = d.get? q

/-- What putting a workspace together and installing it comes to. -/
theorem assemble_outcome (h : Site d t base) (habove : d.get? base.dropLast = some .directory)
    (horder : Orderly w.files) (hown : ∀ f ∈ w.files, f.1.names ≠ [manifestName])
    (hrun : (Edit.mending (do w.stage base; install base t) (·.clear base)).outcome
      (d.put base .directory) = (result, d')) :
    (result = .ok () → Assembled w d t d') ∧
    (∀ e, result = .error e → d'.here = d.here ∧ ∀ q, d'.get? q = d.get? q) ∧
    (Open d t → (∀ f ∈ w.files, ¬ [manifestName] <+: f.1.names) →
      result = match w.files.find? (!·.1.isContained) with
        | none => .ok ()
        | some f => .error (.inconsistent
          ("refusing to write outside the workspace: " ++ f.1.text))) := by
  obtain ⟨hbeside, hempty⟩ := beside_of_site h habove
  rw [Edit.outcome_mending, Edit.outcome_bind] at hrun
  generalize hstage : (w.stage base).outcome (d.put base .directory) = staged at hrun
  obtain ⟨first, d₁⟩ := staged
  obtain ⟨hstaged, hresult⟩ := stage_outcome horder hown hbeside hempty hstage
  have hback : (d₁.clear base).here = d.here ∧ ∀ q, (d₁.clear base).get? q = d.get? q :=
    ⟨hstaged.here, h.restored hstaged⟩
  cases hbad : w.files.find? (!·.1.isContained) with
  | some f =>
    simp only [hbad] at hresult ⊢
    obtain rfl := hresult
    obtain ⟨rfl, rfl⟩ := Prod.mk.inj hrun
    exact ⟨fun hok => (by cases hok), fun _ _ => hback, fun _ _ => rfl⟩
  | none =>
    simp only [hbad] at hresult ⊢
    rcases hresult with ⟨rfl, hholds⟩ | ⟨⟨e, rfl⟩, f, hf, hbelow⟩
    · dsimp only at hrun
      generalize hinstall : (install base t).outcome d₁ = installed at hrun
      obtain ⟨second, d₂⟩ := installed
      obtain ⟨hok, herror⟩ := install_outcome h hstaged hinstall
      cases second with
      | ok =>
        obtain ⟨rfl, rfl⟩ := Prod.mk.inj hrun
        obtain ⟨hname, hmoved, hbefore⟩ := hok rfl
        have hcontained : ∀ f ∈ w.files, f.1.isContained = true := by simpa using hbad
        exact ⟨fun _ => ⟨hcontained, hname, hbefore, hholds.moved hmoved, hmoved.closed,
          hmoved.here, hmoved.outside⟩, fun _ he => (by cases he), fun _ _ => rfl⟩
      | error e =>
        obtain ⟨rfl, rfl⟩ := Prod.mk.inj hrun
        obtain ⟨rfl, hclosed⟩ := herror e rfl
        exact ⟨fun hok => (by cases hok), fun _ _ => hback, fun hopen => absurd hopen hclosed⟩
    · obtain ⟨rfl, rfl⟩ := Prod.mk.inj hrun
      exact ⟨fun hok => (by cases hok), fun _ _ => hback,
        fun _ hclear => absurd hbelow (hclear f hf)⟩

theorem isOccupied_cases (hd : d.Closed) (hhere : d.get? d.here = some .directory) (t : Path) :
    (∃ refusal c, d.isOccupied t = .error refusal ∧ d.get? (d.destination t) = some (.file c)) ∨
    (d.isOccupied t = .ok true ∧ d.names (d.destination t) ≠ []) ∨
    (d.isOccupied t = .ok false ∧
      ((∃ refusal, d.locate t = .error refusal) ∨ d.names (d.destination t) = [])) := by
  unfold Disk.isOccupied
  cases hlocate : d.locate t with
  | error refusal => exact .inr (.inr ⟨rfl, .inl ⟨refusal, rfl⟩⟩)
  | ok place =>
    obtain rfl := Disk.destination_of_locate hlocate
    dsimp only
    cases hentry : d.get? (d.destination t) with
    | none =>
      unfold Disk.locate at hlocate
      split at hlocate
      · cases hlocate
      · exact absurd hentry
          (Disk.present_of_follow hd (by simp [split_start hhere t]) hlocate)
    | some entry =>
      cases entry with
      | file c => exact .inl ⟨_, c, rfl, rfl⟩
      | directory =>
        dsimp only
        cases hnames : d.names (d.destination t) with
        | nil => exact .inr (.inr ⟨rfl, .inr rfl⟩)
        | cons n ns => exact .inr (.inl ⟨rfl, by simp⟩)

theorem Untouched.refl (t : Path) (hd : d.Closed) : Untouched d t d where
  grown := .refl _ _
  present _ _ := rfl
  absent hnone _ hq := hd.absent_from hnone hq

theorem Assembled.delivered (h : Assembled w d₁ t d') (hsteady : d.Steady t)
    (hgrown : d.Grown d₁ (d.approach t)) : Delivered w d t d' := by
  obtain ⟨hcontained, hname, hbefore, hholds, hclosed, hhere, houtside⟩ := h
  have hdest := Disk.destination_congr hgrown.here t
  rw [hdest] at hbefore hholds houtside
  have hturn : ∀ q ∈ (d.start t).turns t.segments, d'.get? q = some .directory := fun q hq => by
    have hdir := (hsteady q hq).1
    rw [houtside q ((hsteady.not_before hname).2 q hq), hgrown.stays (by simp [hdir]), hdir]
  refine ⟨hcontained, ?_, ?_, hholds, fun q hq => houtside q hq ▸ hgrown.entries q⟩
  · rcases hbefore with hnone | ⟨hdir, hempty⟩
    · exact .inl (hgrown.absent hnone)
    · by_cases hthere : d.get? (d.destination t) = none
      · exact .inl hthere
      · refine .inr ⟨hgrown.stays hthere ▸ hdir, List.eq_nil_iff_forall_not_mem.mpr fun n hn => ?_⟩
        have hn := Disk.mem_names.mp hn
        have hmem := Disk.mem_names.mpr (hgrown.stays hn ▸ hn)
        simp [hempty] at hmem
  · have hroot : d'.get? (d.destination t) = some .directory := by
      simpa using (hholds.directories []).mpr (.inl rfl)
    rw [Disk.locate, if_neg (by simp [hname.nonempty]),
      Disk.start_congr (hhere.trans hgrown.here)]
    exact Disk.follow_of_directory hclosed hturn hroot

theorem Admits.no_file (h : Admits d t) :
    (∀ c, d.get? (d.destination t) ≠ some (.file c)) ∧
      ∀ v ∈ d.approach t, ∀ c, d.get? v ≠ some (.file c) := by
  obtain ⟨front, s, hs, hlast, -⟩ := h.named.lastMove d
  have hclear : ∀ v ∈ (d.start t).trail t.segments, ∀ c, d.get? v ≠ some (.file c) := by
    intro v hv c hfile
    rcases h.clear v hv with hv | hv <;> simp [hfile] at hv
  rw [hlast.trail, if_pos hs] at hclear
  exact ⟨hclear _ (by simp), fun v hv => hclear v (List.mem_append_left _ hv)⟩

theorem Admits.opened (h : Admits d t) (hsteady : d.Steady t)
    (hmade : Disk.WayMade d (d.destination (around t)) (d.approach t) (d₁, .ok ()))
    (hempty : d.names (d.destination t) = []) : Open d₁ t := by
  obtain ⟨front, s, hs, hlast, hdest⟩ := h.named.lastMove d
  have hsame := Disk.destination_congr hmade.grown.here t
  refine ⟨h.named, ?_, fun c hfile => ?_, List.eq_nil_iff_forall_not_mem.mpr fun n hn => ?_⟩
  · rw [hsame, hdest, List.dropLast_concat, ← hlast.around]
    exact hmade.arrived rfl
  · rw [hsame, hmade.grown.file_iff] at hfile
    exact h.no_file.1 c hfile
  · rw [hsame, Disk.mem_names] at hn
    rcases hmade.grown.entries (d.destination t ++ [n]) with heq | ⟨-, -, hon⟩
    · have hmem := Disk.mem_names.mpr (heq ▸ hn)
      simp [hempty] at hmem
    · exact (hsteady.not_before h.named).1 _ hon (List.prefix_append _ _)

theorem Admits.locate_around (h : Admits d t) (hsteady : d.Steady t)
    (hmade : Disk.WayMade d (d.destination (around t)) (d.approach t) (d₁, .ok ())) :
    ∃ place, d₁.locate (around t) = .ok place := by
  obtain ⟨front, s, hs, hlast, -⟩ := h.named.lastMove d
  have hend := hmade.arrived rfl
  rw [Disk.destination, ← Disk.start_congr hmade.grown.here] at hend
  refine ⟨(d₁.start (around t)).walk (around t).segments, ?_⟩
  rw [Disk.locate, if_neg (by simp [text_around])]
  refine Disk.follow_of_directory hmade.closed (fun q hq => ?_) hend
  rw [Disk.start_congr hmade.grown.here, hlast.turns_around] at hq
  have hdir := (hsteady q (hlast.turns ▸ List.mem_append_left _ hq)).1
  rw [hmade.grown.stays (by simp [hdir]), hdir]

theorem writeTo_outcome (hd : d.Closed) (hhere : d.get? d.here = some .directory)
    (hsteady : d.Steady t) (horder : Orderly w.files)
    (hown : ∀ f ∈ w.files, f.1.names ≠ [manifestName])
    (hrun : (w.writeTo t).outcome d = (result, d')) :
    (result = .ok () → Delivered w d t d') ∧ (∀ e, result = .error e → Untouched d t d') ∧
    (Admits d t → (∀ f ∈ w.files, ¬ [manifestName] <+: f.1.names) → result = w.verdict d t) := by
  rw [outcome_writeTo] at hrun
  rcases isOccupied_cases hd hhere t with ⟨refusal, c, hocc, hfile⟩ | ⟨hocc, hnames⟩ | ⟨hocc, hfree⟩
  · rw [hocc] at hrun
    obtain ⟨rfl, rfl⟩ := Prod.mk.inj hrun
    exact ⟨fun hok => (by cases hok), fun _ _ => .refl t hd,
      fun hadmits => absurd hfile (hadmits.no_file.1 c)⟩
  · rw [hocc] at hrun
    obtain ⟨rfl, rfl⟩ := Prod.mk.inj hrun
    exact ⟨fun hok => (by cases hok), fun _ _ => .refl t hd,
      fun _ _ => by rw [verdict, if_pos hnames]⟩
  · rw [hocc] at hrun
    have hmade := createAll_made hd hhere t
    generalize hway : d.createAll (around t) = way at hrun hmade
    obtain ⟨d₁, made⟩ := way
    have huntouched : ∀ d', d'.here = d₁.here ∧ (∀ q, d'.get? q = d₁.get? q) → Untouched d t d' :=
      fun d' h => untouched_of_way hd hhere hsteady hway h.1 h.2
    cases made with
    | error refusal =>
      obtain ⟨rfl, rfl⟩ := Prod.mk.inj hrun
      refine ⟨fun hok => (by cases hok), fun _ _ => huntouched d₁ ⟨rfl, fun _ => rfl⟩,
        fun hadmits => ?_⟩
      obtain ⟨v, hv, c, hfile⟩ := hmade.obstacle refusal rfl
      exact absurd hfile (hadmits.no_file.2 v hv c)
    | ok =>
      dsimp only at hrun
      cases hlocate : d₁.locate (around t) with
      | error refusal =>
        rw [hlocate] at hrun
        obtain ⟨rfl, rfl⟩ := Prod.mk.inj hrun
        refine ⟨fun hok => (by cases hok), fun _ _ => huntouched d₁ ⟨rfl, fun _ => rfl⟩,
          fun hadmits => ?_⟩
        obtain ⟨place, hfound⟩ := hadmits.locate_around hsteady hmade
        rw [hlocate] at hfound
        cases hfound
      | ok place =>
        rw [hlocate] at hrun
        have hplace : place = d.destination (around t) :=
          (Disk.destination_of_locate hlocate).trans (Disk.destination_congr hmade.grown.here _)
        obtain ⟨hok, herror, hverdict⟩ := assemble_outcome
          (site_of_way hmade.closed (hsteady.grown hmade.grown) hlocate)
          (by rw [List.dropLast_concat, hplace]; exact hmade.arrived rfl) horder hown hrun
        refine ⟨fun h => (hok h).delivered hsteady hmade.grown,
          fun e he => huntouched d' (herror e he), fun hadmits hclear => ?_⟩
        have hempty : d.names (d.destination t) = [] := by
          rcases hfree with ⟨refusal, hnone⟩ | hempty
          · have hdir : d.get? (d.destination t) ≠ some .directory := fun hdir => by
              rw [hsteady.locate hd hadmits.named.nonempty hdir] at hnone
              cases hnone
            exact (Disk.names_eq_nil_iff hd).mpr fun q hq hne => hd.absent_below hdir hq hne.symm
          · exact hempty
        rw [verdict, if_neg (by simp [hempty])]
        exact hverdict (hadmits.opened hsteady hmade hempty) hclear

end

end Workspace

end Carve
