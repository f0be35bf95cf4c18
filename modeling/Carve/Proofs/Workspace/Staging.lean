import Carve.Proofs.Disk.Change
import Carve.Workspace.Write

/-!
# Files put together below a directory

Files of paths that go down and end in names are put below a directory one after another. Nothing
beside that directory changes. Files of which none stands where another needs a directory do not
get in each other's way: after them the directory holds these files and the directories that lead
to them, and nothing else.
-/

namespace Carve

open Disk (isName)

/-- The names that a path spells, one below the other. -/
def Path.names (p : Path) : Place := Place.spelled p.segments

def Path.Named (p : Path) : Prop := ∃ front s, p.segments = front ++ [s] ∧ isName s = true

theorem Path.downward_of_isContained {p : Path} (h : p.isContained = true) :
    p.isAbsolute = false ∧ ['.', '.'] ∉ p.segments := by
  unfold Path.isContained Path.components at h
  cases hs : p.segments with
  | nil => exact absurd hs (Text.split_ne_nil _ _)
  | cons first rest =>
    simp only [hs, List.all_append, Bool.and_eq_true] at h
    obtain ⟨hlead, hrest⟩ := h
    have hrelative : p.isAbsolute = false := by
      cases habsolute : p.isAbsolute with
      | false => rfl
      | true => simp [habsolute] at hlead
    refine ⟨hrelative, fun hup => ?_⟩
    rcases List.mem_cons.mp hup with rfl | hup
    · simp [hrelative, Component.ofSegment] at hlead
    · have hmem : Component.up ∈ (rest.filter (!isFiller ·)).map Component.ofSegment :=
        List.mem_map.mpr ⟨['.', '.'], List.mem_filter.mpr ⟨hup, rfl⟩, rfl⟩
      simpa using List.all_eq_true.mp hrest _ hmem

namespace Workspace

/-- A directory holds files if it holds these, the directories that lead to them, and nothing
else. -/
structure Holds (d : Disk) (base : Place) (files : List (Path × String)) : Prop where
  file : ∀ f ∈ files, d.get? (base ++ f.1.names) = some (.file (.text f.2))
  only : ∀ r c, d.get? (base ++ r) = some (.file c) → ∃ f ∈ files, f.1.names = r
  directories : ∀ r, d.get? (base ++ r) = some .directory ↔
    r = [] ∨ ∃ f ∈ files, r <+: f.1.names ∧ r ≠ f.1.names

/-- A disk on which only what lies below a directory differs from another one. -/
structure Beside (d₀ : Disk) (base : Place) (d : Disk) : Prop where
  closed : d.Closed
  here : d.here = d₀.here
  directory : d.get? base = some .directory
  elsewhere : ∀ q, ¬ base <+: q → d.get? q = d₀.get? q

/-- Neither file stands where the other one has its directories, or where it stands itself. -/
def Clear (f g : Path × String) : Prop := ¬ f.1.names <+: g.1.names ∧ ¬ g.1.names <+: f.1.names

/-- Files that can be written side by side as far as they may be written at all. -/
structure Orderly (files : List (Path × String)) : Prop where
  named : ∀ f ∈ files, f.1.isContained = true → f.1.Named
  clear : files.Pairwise fun f g => f.1.isContained = true → g.1.isContained = true → Clear f g

section

variable {d₀ d d' : Disk} {base : Place} {f : Path × String} {files : List (Path × String)}
  {result : Except Fault Unit}

structure Put (d : Disk) (base : Place) (f : Path × String) (d' : Disk) : Prop where
  free : d.get? (base ++ f.1.names) ≠ some .directory
  entries : ∀ r, d'.get? (base ++ r) =
    if r = f.1.names then some (.file (.text f.2))
    else if r <+: f.1.names then some .directory else d.get? (base ++ r)

def Obstructed (d : Disk) (base : Place) (f : Path × String) : Prop :=
  (∃ r c, r <+: f.1.names ∧ r ≠ f.1.names ∧ d.get? (base ++ r) = some (.file c)) ∨
    d.get? (base ++ f.1.names) = some .directory

theorem Beside.of_grown {on : List Place} (h : Beside d₀ base d) (hgrown : d.Grown d' on)
    (hclosed : d'.Closed) (hon : ∀ q ∈ on, base <+: q) : Beside d₀ base d' where
  closed := hclosed
  here := hgrown.here.trans h.here
  directory := by rw [hgrown.stays (by simp [h.directory]), h.directory]
  elsewhere q hq := by rw [hgrown.off fun hmem => hq (hon q hmem), h.elsewhere q hq]

theorem Beside.put {q : Place} {c : Content} (h : Beside d₀ base d) (hbase : base <+: q)
    (hne : q ≠ base) (habove : d.get? q.dropLast = some .directory)
    (hfree : d.get? q ≠ some .directory) : Beside d₀ base (d.put q (.file c)) := by
  have hroot : q ≠ [] := by
    rintro rfl
    exact hne (List.prefix_nil.mp hbase).symm
  refine ⟨Disk.closed_put h.closed hroot habove (.inr hfree), h.here, ?_, fun p hp => ?_⟩
  · rw [Disk.get?_put d hroot, if_neg (Ne.symm hne), h.directory]
  · have hpq : p ≠ q := by
      rintro rfl
      exact hp hbase
    rw [Disk.get?_put d hroot, if_neg hpq, h.elsewhere p hp]

theorem stageFile_refused (hf : f.1.isContained = false) :
    (stageFile base f).outcome d = (.error (.inconsistent
      ("refusing to write outside the workspace: " ++ f.1.text)), d) := by
  unfold stageFile
  simp only [hf, Bool.not_false, if_true]
  rfl

theorem stageFile_contained (hf : f.1.isContained = true) : stageFile base f = (do
    Edit.advance .system (·.makeWay base (wayTo f.1.segments))
    Edit.change .system (·.writeAt base f.1.segments (.text f.2))) := by
  unfold stageFile
  simp only [hf, Bool.not_true, if_false, Bool.false_eq_true]

theorem stageFile_outcome (hcontained : f.1.isContained = true) (hnamed : f.1.Named)
    (hd : Beside d₀ base d) (h : (stageFile base f).outcome d = (result, d')) :
    Beside d₀ base d' ∧ (result = .ok () → Put d base f d') ∧
      (∀ e, result = .error e → Obstructed d base f) := by
  obtain ⟨front, s, hsegments, hs⟩ := hnamed
  obtain ⟨-, hdown⟩ := Path.downward_of_isContained hcontained
  have hfront : ['.', '.'] ∉ front := fun hup => hdown (by simp [hsegments, hup])
  have hnames : f.1.names = Place.spelled front ++ [String.ofList s] := by
    rw [Path.names, hsegments, Place.spelled_append, Place.spelled_name hs, Place.spelled_nil]
  have hway : wayTo f.1.segments = front := by
    rw [wayTo, hsegments, Text.dropEndWhile_concat (by simp [hs]), List.dropLast_concat]
  have hmade := Disk.makeWay_made hd.closed hd.directory front
  rw [Place.walk_of_downward hfront] at hmade
  have htrail : ∀ q, q ∈ base.trail front ↔
      ∃ r, r ≠ [] ∧ r <+: Place.spelled front ∧ q = base ++ r := fun q =>
    Place.mem_trail_of_downward hfront
  have hproper : ∀ r : Place, r <+: Place.spelled front ↔ r <+: f.1.names ∧ r ≠ f.1.names := by
    intro r
    rw [hnames, List.prefix_concat_iff]
    constructor
    · intro hr
      refine ⟨.inr hr, fun heq => ?_⟩
      rw [heq] at hr
      exact Place.not_concat_below _ _ hr
    · rintro ⟨heq | hr, hne⟩
      · exact absurd heq hne
      · exact hr
  have hoff : base ++ f.1.names ∉ base.trail front := by
    rw [htrail]
    rintro ⟨r, -, hr, heq⟩
    exact ((hproper r).mp hr).2 (List.append_cancel_left heq).symm
  rw [stageFile_contained hcontained, Edit.outcome_bind, Edit.outcome_advance, hway] at h
  generalize hmake : d.makeWay base front = made at hmade h
  obtain ⟨d₁, result₁⟩ := made
  have hbeside := hd.of_grown hmade.grown hmade.closed fun q hq => by
    obtain ⟨r, -, -, rfl⟩ := (htrail q).mp hq
    exact List.prefix_append base r
  cases result₁ with
  | error refusal =>
    obtain ⟨rfl, rfl⟩ := Prod.mk.inj h
    refine ⟨hbeside, fun hok => (by cases hok), fun _ _ => .inl ?_⟩
    obtain ⟨v, hv, c, hfile⟩ := hmade.obstacle refusal rfl
    obtain ⟨r, -, hr, rfl⟩ := (htrail v).mp hv
    obtain ⟨hbelow, hne⟩ := (hproper r).mp hr
    exact ⟨r, c, hbelow, hne, hfile⟩
  | ok =>
    have hparent : d₁.get? (base ++ Place.spelled front) = some .directory := hmade.arrived rfl
    have hfollow : d₁.follow base front = .ok (base ++ Place.spelled front) := by
      rw [← Place.walk_of_downward hfront] at hparent ⊢
      refine Disk.follow_of_directory hmade.closed (fun t ht => ?_) hparent
      rw [Place.turns_of_downward hfront] at ht
      cases ht
    simp only [Edit.outcome_change, hsegments] at h
    rw [Disk.writeAt_eq front _ hs hfollow hparent, List.append_assoc, ← hnames] at h
    have hsame : d₁.get? (base ++ f.1.names) = d.get? (base ++ f.1.names) := hmade.grown.off hoff
    by_cases hdir : d₁.get? (base ++ f.1.names) = some .directory
    · rw [if_pos hdir] at h
      obtain ⟨rfl, rfl⟩ := Prod.mk.inj h
      exact ⟨hbeside, fun hok => (by cases hok), fun _ _ => .inr (hsame ▸ hdir)⟩
    · rw [if_neg hdir] at h
      obtain ⟨rfl, rfl⟩ := Prod.mk.inj h
      have hne : base ++ f.1.names ≠ base := by simp [hnames]
      have habove : (base ++ f.1.names).dropLast = base ++ Place.spelled front := by
        rw [hnames, ← List.append_assoc, List.dropLast_concat]
      refine ⟨hbeside.put (List.prefix_append _ _) hne (habove ▸ hparent) hdir,
        fun _ => ⟨hsame ▸ hdir, fun r => ?_⟩, fun _ he => (by cases he)⟩
      rw [Disk.get?_put d₁ (by simp [hnames])]
      by_cases hr : r = f.1.names
      · rw [if_pos (congrArg _ hr), if_pos hr]
      · rw [if_neg (fun heq => hr (List.append_cancel_left heq)), if_neg hr]
        by_cases hbelow : r <+: f.1.names
        · rw [if_pos hbelow]
          by_cases hroot : r = []
          · rw [hroot, List.append_nil, hbeside.directory]
          · exact hmade.paved rfl _ ((htrail _).mpr
              ⟨r, hroot, (hproper r).mpr ⟨hbelow, hr⟩, rfl⟩)
        · rw [if_neg hbelow]
          refine hmade.grown.off fun hmem => ?_
          obtain ⟨r', -, hr', heq⟩ := (htrail _).mp hmem
          obtain rfl := List.append_cancel_left heq
          exact hbelow ((hproper r).mp hr').1

theorem Holds.add (h : Holds d base files) (hput : Put d base f d')
    (hclear : ∀ g ∈ files, Clear g f) (hne : f.1.names ≠ []) :
    Holds d' base (files ++ [f]) where
  file g hg := by
    rcases List.mem_append.mp hg with hg | hg
    · obtain ⟨hgf, -⟩ := hclear g hg
      have hne : g.1.names ≠ f.1.names := fun heq => hgf (heq ▸ List.prefix_refl _)
      rw [hput.entries, if_neg hne, if_neg hgf]
      exact h.file g hg
    · obtain rfl := List.mem_singleton.mp hg
      rw [hput.entries, if_pos rfl]
  only r c hr := by
    rw [hput.entries] at hr
    split at hr
    · rename_i heq
      exact ⟨f, by simp, heq.symm⟩
    · split at hr
      · cases hr
      · obtain ⟨g, hg, hnames⟩ := h.only r c hr
        exact ⟨g, List.mem_append_left _ hg, hnames⟩
  directories r := by
    rw [hput.entries]
    by_cases hr : r = f.1.names
    · rw [if_pos hr]
      simp only [Option.some.injEq, reduceCtorEq, false_iff, not_or, not_exists, not_and, not_not]
      refine ⟨fun hroot => hne (hr ▸ hroot), fun g hg hbelow => ?_⟩
      rcases List.mem_append.mp hg with hg | hg
      · exact absurd (hr ▸ hbelow) (hclear g hg).2
      · rw [hr, List.mem_singleton.mp hg]
    · rw [if_neg hr]
      by_cases hbelow : r <+: f.1.names
      · rw [if_pos hbelow]
        exact ⟨fun _ => .inr ⟨f, by simp, hbelow, hr⟩, fun _ => rfl⟩
      · rw [if_neg hbelow, h.directories r]
        refine or_congr_right ⟨?_, ?_⟩
        · rintro ⟨g, hg, hgr⟩
          exact ⟨g, List.mem_append_left _ hg, hgr⟩
        · rintro ⟨g, hg, hgr, hgne⟩
          rcases List.mem_append.mp hg with hg | hg
          · exact ⟨g, hg, hgr, hgne⟩
          · obtain rfl := List.mem_singleton.mp hg
            exact absurd hgr hbelow

theorem Holds.not_obstructed (h : Holds d base files) (hclear : ∀ g ∈ files, Clear g f)
    (hne : f.1.names ≠ []) : ¬ Obstructed d base f := by
  rintro (⟨r, c, hr, -, hfile⟩ | hdir)
  · obtain ⟨g, hg, rfl⟩ := h.only r c hfile
    exact (hclear g hg).1 hr
  · rcases (h.directories _).mp hdir with hroot | ⟨g, hg, hbelow, -⟩
    · exact hne hroot
    · exact (hclear g hg).2 hbelow

theorem names_ne_nil_of_named (h : f.1.Named) : f.1.names ≠ [] := by
  obtain ⟨front, s, hsegments, hs⟩ := h
  rw [Path.names, hsegments, Place.spelled_append, Place.spelled_name hs]
  simp

/-- The files are put in their places up to the first one that may not be written. -/
theorem stageFiles_outcome {done rest : List (Path × String)} (horder : Orderly (done ++ rest))
    (hdone : ∀ f ∈ done, f.1.isContained = true) (hd : Beside d₀ base d)
    (hholds : Holds d base done)
    (h : (rest.forM (stageFile base) : Edit Fault Unit).outcome d = (result, d')) :
    Beside d₀ base d' ∧
      match rest.find? (!·.1.isContained) with
      | none => result = .ok () ∧ Holds d' base (done ++ rest)
      | some f => result = .error (.inconsistent
          ("refusing to write outside the workspace: " ++ f.1.text)) := by
  induction rest generalizing done d with
  | nil =>
    obtain ⟨rfl, rfl⟩ := Prod.mk.inj h
    exact ⟨hd, rfl, by rwa [List.append_nil]⟩
  | cons f rest ih =>
    have hcons : ((f :: rest).forM (stageFile base) : Edit Fault Unit) =
        (do stageFile base f; rest.forM (stageFile base)) := rfl
    rw [hcons, Edit.outcome_bind] at h
    by_cases hf : f.1.isContained = true
    · have hnamed := horder.named f (by simp) hf
      have hclear : ∀ g ∈ done, Clear g f := fun g hg =>
        (List.pairwise_append.mp horder.clear).2.2 g hg f List.mem_cons_self (hdone g hg) hf
      have hnames := names_ne_nil_of_named hnamed
      rw [List.find?_cons_of_neg (by simp [hf]), List.append_cons]
      rw [List.append_cons] at horder
      generalize hfirst : (stageFile base f).outcome d = first at h
      obtain ⟨first, d₁⟩ := first
      obtain ⟨hbeside, hput, hobstructed⟩ := stageFile_outcome hf hnamed hd hfirst
      cases first with
      | error e => exact absurd (hobstructed e rfl) (hholds.not_obstructed hclear hnames)
      | ok =>
        refine ih horder (fun g hg => ?_) hbeside (hholds.add (hput rfl) hclear hnames) h
        rcases List.mem_append.mp hg with hg | hg
        · exact hdone g hg
        · exact List.mem_singleton.mp hg ▸ hf
    · have hrefused : f.1.isContained = false := by simpa using hf
      rw [stageFile_refused hrefused] at h
      obtain ⟨rfl, rfl⟩ := Prod.mk.inj h
      rw [List.find?_cons_of_pos (by simp [hrefused])]
      exact ⟨hd, rfl⟩

def listing (w : Workspace) : List (Path × String) := w.files ++ [(⟨manifestName⟩, w.manifest)]

theorem names_manifestName : (Path.mk manifestName).names = [manifestName] := by decide

theorem eq_of_prefix_singleton {r : Place} {n : String} (h : r <+: [n]) (hr : r ≠ []) : r = [n] := by
  obtain ⟨m, r, rfl⟩ := List.exists_cons_of_ne_nil hr
  obtain ⟨rfl, hr⟩ := List.cons_prefix_cons.mp h
  rw [List.prefix_nil.mp hr]

theorem outcome_stage (w : Workspace) (base : Place) (d : Disk) : (w.stage base).outcome d =
    (do w.files.forM (stageFile base)
        stageFile base (⟨manifestName⟩, w.manifest) : Edit Fault Unit).outcome d := by
  have hcontained : (Path.mk manifestName).isContained = true := by decide
  have hsegments : (Path.mk manifestName).segments = [manifestName.toList] := by decide
  have hway : wayTo [manifestName.toList] = [] := by decide
  unfold stage
  rw [Edit.outcome_bind, Edit.outcome_bind]
  generalize (w.files.forM (stageFile base) : Edit Fault Unit).outcome d = first
  obtain ⟨first, d₁⟩ := first
  cases first with
  | error e => rfl
  | ok =>
    dsimp only
    rw [stageFile_contained hcontained, Edit.outcome_bind, Edit.outcome_advance, hsegments, hway]
    rfl

/-- A workspace is put together unless a file may not be written or the list of libraries has no
place beside the files. -/
theorem stage_outcome {w : Workspace} (horder : Orderly w.files)
    (hown : ∀ f ∈ w.files, f.1.names ≠ [manifestName]) (hd : Beside d₀ base d)
    (hempty : Holds d base []) (h : (w.stage base).outcome d = (result, d')) :
    Beside d₀ base d' ∧
      match w.files.find? (!·.1.isContained) with
      | none => result = .ok () ∧ Holds d' base w.listing ∨
          (∃ e, result = .error e) ∧ ∃ f ∈ w.files, [manifestName] <+: f.1.names
      | some f => result = .error (.inconsistent
          ("refusing to write outside the workspace: " ++ f.1.text)) := by
  rw [outcome_stage, Edit.outcome_bind] at h
  generalize hfiles : (w.files.forM (stageFile base) : Edit Fault Unit).outcome d = first at h
  obtain ⟨first, d₁⟩ := first
  obtain ⟨hbeside, hresult⟩ := stageFiles_outcome (by simpa using horder) (by simp) hd hempty hfiles
  cases hbad : w.files.find? (!·.1.isContained) with
  | some f =>
    simp only [hbad] at hresult ⊢
    obtain rfl := hresult
    obtain ⟨rfl, rfl⟩ := Prod.mk.inj h
    exact ⟨hbeside, rfl⟩
  | none =>
    simp only [hbad] at hresult ⊢
    obtain ⟨rfl, hholds⟩ := hresult
    rw [List.nil_append] at hholds
    have hgood : ∀ f ∈ w.files, f.1.isContained = true := by simpa using hbad
    have hcontained : (Path.mk manifestName).isContained = true := by decide
    have hnamed : (Path.mk manifestName).Named := ⟨[], manifestName.toList, by decide, by decide⟩
    obtain ⟨hbeside', hput, hobstructed⟩ := stageFile_outcome
      (f := (⟨manifestName⟩, w.manifest)) hcontained hnamed hbeside h
    refine ⟨hbeside', ?_⟩
    by_cases hway : ∃ f ∈ w.files, [manifestName] <+: f.1.names
    · cases result with
      | error e => exact .inr ⟨⟨e, rfl⟩, hway⟩
      | ok =>
        obtain ⟨f, hf, hbelow⟩ := hway
        refine absurd ((hholds.directories _).mpr (.inr ⟨f, hf, ?_, ?_⟩)) (hput rfl).free
        · rwa [names_manifestName]
        · rw [names_manifestName]
          exact (hown f hf).symm
    · have hclear : ∀ g ∈ w.files, Clear g (⟨manifestName⟩, w.manifest) := by
        intro g hg
        unfold Clear
        rw [names_manifestName]
        refine ⟨fun hbelow => ?_, fun hbelow => hway ⟨g, hg, hbelow⟩⟩
        have hnames := names_ne_nil_of_named (horder.named g hg (hgood g hg))
        exact hown g hg (eq_of_prefix_singleton hbelow hnames)
      cases result with
      | error e =>
        refine absurd (hobstructed e rfl) (hholds.not_obstructed hclear ?_)
        simp [names_manifestName]
      | ok => exact .inl ⟨rfl, hholds.add (hput rfl) hclear (by simp [names_manifestName])⟩

end

end Workspace

end Carve
