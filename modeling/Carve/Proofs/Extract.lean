import Carve.Extract
import Carve.Proofs.KeepFirst
import Carve.Proofs.Path
import Mathlib.Data.Finset.Card

/-!
# The files of a workspace

The members of a closure are sorted by their files, a step at a time, and no member is lost or
counted for another file. Files at different places do not get in each other's way.
-/

namespace Carve

namespace Workspace

theorem putFile_new {p : Path} {fs : List (Path × String)} (h : ∀ f ∈ fs, ¬ f.1.Same p)
    (text : String) : putFile p text fs = fs ++ [(p, text)] := by
  induction fs with
  | nil => rfl
  | cons f fs ih =>
    obtain ⟨q, old⟩ := f
    rw [putFile, if_neg (h (q, old) List.mem_cons_self),
      ih fun g hg => h g (List.mem_cons_of_mem _ hg)]
    rfl

theorem putFile_places (p : Path) (text : String) (fs : List (Path × String)) :
    (putFile p text fs).map (·.1.components) = fs.map (·.1.components) ++
      Reference.keepFirst id (fs.map (·.1.components)) [p.components] := by
  by_cases hold : ∃ f ∈ fs, f.1.Same p
  · have hmem : p.components ∈ fs.map (·.1.components) := by
      obtain ⟨f, hf, hsame⟩ := hold
      exact List.mem_map.mpr ⟨f, hf, hsame⟩
    rw [keepFirst_cons, id, if_pos hmem]
    clear hmem
    induction fs with
    | nil =>
      obtain ⟨f, hf, -⟩ := hold
      cases hf
    | cons f fs ih =>
      obtain ⟨q, old⟩ := f
      unfold putFile
      split
      · exact (List.append_nil _).symm
      · rename_i hdiff
        obtain ⟨g, hg, hsame⟩ := hold
        have hrest : g ∈ fs := by
          refine (List.mem_cons.mp hg).resolve_left ?_
          rintro rfl
          exact hdiff hsame
        exact congrArg (_ :: ·) (ih ⟨g, hrest, hsame⟩)
  · have hnew : ∀ f ∈ fs, ¬ f.1.Same p := fun f hf hsame => hold ⟨f, hf, hsame⟩
    have hfree : p.components ∉ fs.map (·.1.components) := by
      intro hmem
      obtain ⟨f, hf, hsame⟩ := List.mem_map.mp hmem
      exact hnew f hf hsame
    rw [keepFirst_cons, id, if_neg hfree, putFile_new hnew, List.map_append]
    rfl

theorem ofFiles_places (files : List (Path × String)) (libraries : List Coordinate) :
    (ofFiles files libraries).files.map (·.1.components) =
      Reference.keepFirst id [] (files.map (·.1.components)) := by
  have hstep : ∀ (w : Workspace) (f : Path × String),
      (w.put f.1 f.2).files.map (·.1.components) = w.files.map (·.1.components) ++
        Reference.keepFirst id ((w.files.map (·.1.components)).map id) [f.1.components] := by
    intro w f
    rw [List.map_id]
    exact putFile_places f.1 f.2 w.files
  have hrun := foldl_eq_keepFirst (fun w : Workspace => w.files.map (·.1.components))
    hstep files { libraries }
  rwa [← List.map_eq_flatMap] at hrun

theorem nodup_files (w : Workspace) : (w.files.map (·.1.components)).Nodup :=
  List.pairwise_map.mpr w.apart

theorem path_of_mem_ofFiles {files : List (Path × String)} {libraries : List Coordinate}
    {f : Path × String} (hf : f ∈ (ofFiles files libraries).files) : ∃ g ∈ files, g.1 = f.1 := by
  have main : ∀ (rest : List (Path × String)) (w : Workspace),
      ∀ g ∈ (rest.foldl (fun w f => w.put f.1 f.2) w).files,
        (∃ g' ∈ rest, g'.1 = g.1) ∨ ∃ g' ∈ w.files, g'.1 = g.1 := by
    intro rest
    induction rest with
    | nil => exact fun w g hg => .inr ⟨g, hg, rfl⟩
    | cons h rest ih =>
      intro w g hg
      rcases ih (w.put h.1 h.2) g hg with ⟨g', hg', heq⟩ | ⟨g', hg', heq⟩
      · exact .inl ⟨g', List.mem_cons_of_mem _ hg', heq⟩
      · rcases path_of_mem_putFile hg' with hnew | ⟨g'', hg'', heq'⟩
        · exact .inl ⟨h, List.mem_cons_self, hnew.symm.trans heq⟩
        · exact .inr ⟨g'', hg'', heq'.trans heq⟩
  rcases main files { libraries } f hf with hmem | ⟨g, hg, -⟩
  · exact hmem
  · cases hg

theorem length_ofFiles (files : List (Path × String)) (libraries : List Coordinate) :
    (ofFiles files libraries).files.length =
      (files.map (·.1.components)).toFinset.card := by
  rw [← List.length_map (·.1.components), ← List.toFinset_card_of_nodup
    (nodup_files _), ofFiles_places]
  congr 1
  ext place
  rw [List.mem_toFinset, List.mem_toFinset]
  refine ⟨mem_keepFirst, fun hplace => ?_⟩
  obtain ⟨place', hkept, rfl⟩ :
      ∃ b ∈ Reference.keepFirst id [] (files.map (·.1.components)), id b = place :=
    exists_keepFirst hplace List.not_mem_nil
  exact hkept

theorem putFile_find? {p q : Path} {text : String} {fs : List (Path × String)} :
    (putFile q text fs).find? (fun f => decide (f.1.Same p)) =
      if q.Same p then
        some (((fs.find? fun f => decide (f.1.Same p)).map (·.1)).getD q, text)
      else fs.find? fun f => decide (f.1.Same p) := by
  induction fs with
  | nil => by_cases h : q.Same p <;> simp [putFile, h]
  | cons f fs ih =>
    obtain ⟨r, old⟩ := f
    unfold putFile
    by_cases hrq : r.Same q
    · rw [if_pos hrq]
      by_cases hqp : q.Same p
      · simp [hqp, hrq.trans hqp]
      · have hrp : ¬ r.Same p := fun h => hqp (hrq.symm.trans h)
        simp [hqp, hrp]
    · rw [if_neg hrq]
      by_cases hrp : r.Same p
      · have hqp : ¬ q.Same p := fun h => hrq (hrp.trans h.symm)
        simp [hqp, hrp]
      · rw [List.find?_cons_of_neg (by simpa using hrp), ih,
          List.find?_cons_of_neg (by simpa using hrp)]

theorem ofFiles_get?_alone {files : List (Path × String)} {f : Path × String} (hf : f ∈ files)
    (halone : ∀ g ∈ files, g.1.Same f.1 → g = f) (libraries : List Coordinate) :
    (ofFiles files libraries).get? f.1 = some f := by
  have main : ∀ (rest : List (Path × String)) (w : Workspace),
      (∀ g ∈ rest, g.1.Same f.1 → g = f) → (w.get? f.1 = some f ∨ w.get? f.1 = none ∧ f ∈ rest) →
      (rest.foldl (fun w g => w.put g.1 g.2) w).get? f.1 = some f := by
    intro rest
    induction rest with
    | nil => exact fun w _ h => h.resolve_right fun hnone => List.not_mem_nil hnone.2
    | cons g rest ih =>
      intro w hrest hw
      refine ih _ (fun g' hg' => hrest g' (List.mem_cons_of_mem _ hg')) ?_
      have hput : (w.put g.1 g.2).get? f.1 = if g.1.Same f.1 then
          some (((w.get? f.1).map (·.1)).getD g.1, g.2) else w.get? f.1 := putFile_find?
      rw [hput]
      by_cases hsame : g.1.Same f.1
      · obtain rfl := hrest g List.mem_cons_self hsame
        rw [if_pos hsame]
        rcases hw with hw | ⟨hw, -⟩ <;> simp [hw]
      · rw [if_neg hsame]
        refine hw.imp id fun ⟨hnone, hmem⟩ => ⟨hnone, (List.mem_cons.mp hmem).resolve_left ?_⟩
        rintro rfl
        exact hsame (Path.Same.refl _)
  exact main files _ halone (Or.inr ⟨rfl, hf⟩)

end Workspace

namespace Extraction

variable {p : Path} {e : QName × Inclusion} {sels : List (Path × Selection)} {m : Member}
  {ms : List Member}

theorem mem_addTo {s : Path × Selection} (h : s ∈ addTo p e sels) :
    s ∈ sels ∨ s = (p, [e]) ∨ ∃ t ∈ sels, t.1.Same p ∧ s = (t.1, t.2 ++ [e]) := by
  induction sels with
  | nil => exact Or.inr (Or.inl (List.mem_singleton.mp h))
  | cons t rest ih =>
    unfold addTo at h
    split at h
    · rename_i hsame
      rcases List.mem_cons.mp h with rfl | h
      · exact Or.inr (Or.inr ⟨t, List.mem_cons_self, hsame, rfl⟩)
      · exact Or.inl (List.mem_cons_of_mem _ h)
    · rcases List.mem_cons.mp h with rfl | h
      · exact Or.inl List.mem_cons_self
      · rcases ih h with h | h | ⟨u, hu, hs⟩
        · exact Or.inl (List.mem_cons_of_mem _ h)
        · exact Or.inr (Or.inl h)
        · exact Or.inr (Or.inr ⟨u, List.mem_cons_of_mem _ hu, hs⟩)

theorem exists_mem_addTo (p : Path) (e : QName × Inclusion) (sels : List (Path × Selection)) :
    ∃ s ∈ addTo p e sels, s.1.Same p ∧ e ∈ s.2 := by
  induction sels with
  | nil => exact ⟨(p, [e]), by simp [addTo], Path.Same.refl p, by simp⟩
  | cons t rest ih =>
    unfold addTo
    split
    · rename_i hsame
      exact ⟨(t.1, t.2 ++ [e]), List.mem_cons_self, hsame, by simp⟩
    · obtain ⟨s, hs, hsame, he⟩ := ih
      exact ⟨s, List.mem_cons_of_mem _ hs, hsame, he⟩

theorem addTo_grows {s : Path × Selection} (hs : s ∈ sels) :
    ∃ t ∈ addTo p e sels, t.1 = s.1 ∧ s.2 ⊆ t.2 := by
  induction sels with
  | nil => cases hs
  | cons t rest ih =>
    unfold addTo
    split
    · rcases List.mem_cons.mp hs with rfl | hs
      · exact ⟨(s.1, s.2 ++ [e]), List.mem_cons_self, rfl, List.subset_append_left _ _⟩
      · exact ⟨s, List.mem_cons_of_mem _ hs, rfl, List.Subset.refl _⟩
    · rcases List.mem_cons.mp hs with rfl | hs
      · exact ⟨s, List.mem_cons_self, rfl, List.Subset.refl _⟩
      · obtain ⟨u, hu, hpath, hsub⟩ := ih hs
        exact ⟨u, List.mem_cons_of_mem _ hu, hpath, hsub⟩

theorem pairwise_addTo (h : sels.Pairwise fun s t => ¬ s.1.Same t.1) (p : Path)
    (e : QName × Inclusion) : (addTo p e sels).Pairwise fun s t => ¬ s.1.Same t.1 := by
  induction sels with
  | nil => simp [addTo]
  | cons t rest ih =>
    obtain ⟨ht, hrest⟩ := List.pairwise_cons.mp h
    unfold addTo
    split
    · exact List.pairwise_cons.mpr ⟨ht, hrest⟩
    · rename_i hdiff
      refine List.pairwise_cons.mpr ⟨fun s hs => ?_, ih hrest⟩
      rcases mem_addTo hs with hold | rfl | ⟨u, hu, -, rfl⟩
      · exact ht s hold
      · exact hdiff
      · exact ht u hu

/-- The members that are kept, by their files. -/
structure Sorted (ms : List Member) (sels : List (Path × Selection)) : Prop where
  apart : sels.Pairwise fun s t => ¬ s.1.Same t.1
  origin : ∀ s ∈ sels, ∃ m ∈ ms, m.inclusion ≠ .external ∧ m.decl.path? = some s.1
  entries : ∀ s ∈ sels, ∀ e ∈ s.2, ∃ m ∈ ms, (m.decl.id, m.inclusion) = e ∧
    ∃ p, m.decl.path? = some p ∧ s.1.Same p
  complete : ∀ m ∈ ms, m.inclusion ≠ .external → ∀ p, m.decl.path? = some p →
    ∃ s ∈ sels, s.1.Same p ∧ (m.decl.id, m.inclusion) ∈ s.2

theorem Sorted.pass (h : Sorted ms sels) (hm : m.inclusion = .external) :
    Sorted (ms ++ [m]) sels where
  apart := h.apart
  origin s hs := by
    obtain ⟨n, hn, hkept⟩ := h.origin s hs
    exact ⟨n, List.mem_append_left _ hn, hkept⟩
  entries s hs e he := by
    obtain ⟨n, hn, heq⟩ := h.entries s hs e he
    exact ⟨n, List.mem_append_left _ hn, heq⟩
  complete n hn hkept := by
    rcases List.mem_append.mp hn with hn | hn
    · exact h.complete n hn hkept
    · rw [List.mem_singleton.mp hn] at hkept
      exact absurd hm hkept

theorem Sorted.add (h : Sorted ms sels) (hm : m.inclusion ≠ .external)
    (hp : m.decl.path? = some p) :
    Sorted (ms ++ [m]) (addTo p (m.decl.id, m.inclusion) sels) where
  apart := pairwise_addTo h.apart _ _
  origin s hs := by
    have hold : ∀ t ∈ sels, ∃ n ∈ ms ++ [m], n.inclusion ≠ .external ∧
        n.decl.path? = some t.1 := by
      intro t ht
      obtain ⟨n, hn, hkept⟩ := h.origin t ht
      exact ⟨n, List.mem_append_left _ hn, hkept⟩
    rcases mem_addTo hs with hs | rfl | ⟨t, ht, -, rfl⟩
    · exact hold s hs
    · exact ⟨m, by simp, hm, hp⟩
    · exact hold t ht
  entries s hs e he := by
    have hold : ∀ t ∈ sels, e ∈ t.2 → ∃ n ∈ ms ++ [m], (n.decl.id, n.inclusion) = e ∧
        ∃ q, n.decl.path? = some q ∧ t.1.Same q := by
      intro t ht he
      obtain ⟨n, hn, heq⟩ := h.entries t ht e he
      exact ⟨n, List.mem_append_left _ hn, heq⟩
    have hnew : ∀ q : Path, q.Same p → e ∈ [(m.decl.id, m.inclusion)] →
        ∃ n ∈ ms ++ [m], (n.decl.id, n.inclusion) = e ∧ ∃ r, n.decl.path? = some r ∧ q.Same r :=
      fun q hq he => ⟨m, by simp, (List.mem_singleton.mp he).symm, p, hp, hq⟩
    rcases mem_addTo hs with hs | rfl | ⟨t, ht, hsame, rfl⟩
    · exact hold s hs he
    · exact hnew p (Path.Same.refl p) he
    · rcases List.mem_append.mp he with he | he
      · exact hold t ht he
      · exact hnew t.1 hsame he
  complete n hn hkept q hq := by
    rcases List.mem_append.mp hn with hn | hn
    · obtain ⟨s, hs, hsame, he⟩ := h.complete n hn hkept q hq
      obtain ⟨t, ht, hpath, hsub⟩ := addTo_grows (p := p) (e := (m.decl.id, m.inclusion)) hs
      exact ⟨t, ht, hpath ▸ hsame, hsub he⟩
    · obtain rfl := List.mem_singleton.mp hn
      obtain rfl := Option.some.inj (hp.symm.trans hq)
      exact exists_mem_addTo p _ sels

/-- A run of steps that pass over what stays outside and add what is kept sorts the members. -/
theorem foldlM_sorted {step : List (Path × Selection) → Member → Except Fault
      (List (Path × Selection))}
    (hpass : ∀ sels m, m.inclusion = .external → step sels m = .ok sels)
    (hadd : ∀ sels m p, m.inclusion ≠ .external → m.decl.path? = some p →
      step sels m = .ok (addTo p (m.decl.id, m.inclusion) sels)) :
    ∀ (rest done : List Member) (sels : List (Path × Selection)),
      (∀ m ∈ rest, m.inclusion ≠ .external → ∃ p, m.decl.path? = some p) → Sorted done sels →
      ∃ sels', rest.foldlM step sels = .ok sels' ∧ Sorted (done ++ rest) sels' := by
  intro rest
  induction rest with
  | nil =>
    intro done sels _ hsorted
    exact ⟨sels, rfl, by rwa [List.append_nil]⟩
  | cons m rest ih =>
    intro done sels hrest hsorted
    have hlater : ∀ n ∈ rest, n.inclusion ≠ .external → ∃ p, n.decl.path? = some p :=
      fun n hn => hrest n (List.mem_cons_of_mem _ hn)
    rw [List.foldlM_cons, List.append_cons]
    by_cases hm : m.inclusion = .external
    · rw [hpass sels m hm]
      exact ih (done ++ [m]) sels hlater (hsorted.pass hm)
    · obtain ⟨p, hp⟩ := hrest m List.mem_cons_self hm
      rw [hadd sels m p hm hp]
      exact ih (done ++ [m]) _ hlater (hsorted.add hm hp)

theorem selections_sorted (ms : List Member)
    (h : ∀ m ∈ ms, m.inclusion ≠ .external → ∃ p, m.decl.path? = some p) :
    ∃ sels, selections ms = .ok sels ∧ Sorted ms sels := by
  unfold selections
  refine foldlM_sorted ?_ ?_ ms [] [] h (by constructor <;> simp)
  · intro sels m hm
    simp only [hm]
  · intro sels m p hm hp
    cases hi : m.inclusion with
    | external => exact absurd hi hm
    | stub => simp only [hp]
    | full => simp only [hp]

theorem lookup_of_mem {sel : Selection} {id : QName} {i : Inclusion} (h : (id, i) ∈ sel)
    (hunique : ∀ j, (id, j) ∈ sel → j = i) : sel.lookup id = some i := by
  induction sel with
  | nil => cases h
  | cons e sel ih =>
    obtain ⟨id', j⟩ := e
    rw [List.lookup_cons]
    by_cases hid : id = id'
    · subst hid
      simpa using hunique j List.mem_cons_self
    · have hne : (id == id') = false := beq_eq_false_iff_ne.mpr hid
      rw [hne]
      refine ih ?_ fun j hj => hunique j (List.mem_cons_of_mem _ hj)
      simpa [hid] using h

/-- A member is looked up in the selection it went to. -/
theorem Sorted.lookup (h : Sorted ms sels) (hdistinct : (ms.map (·.decl.id)).Nodup)
    {s : Path × Selection} (hs : s ∈ sels) (hm : m ∈ ms)
    (he : (m.decl.id, m.inclusion) ∈ s.2) : s.2.lookup m.decl.id = some m.inclusion := by
  refine lookup_of_mem he fun j hj => ?_
  obtain ⟨n, hn, heq, -⟩ := h.entries s hs _ hj
  obtain ⟨hid, rfl⟩ := Prod.mk.inj heq
  rw [List.inj_on_of_nodup_map hdistinct hn hm hid]

theorem eq_ok_of_toOption {α ε : Type} {r : Except ε α} {a : α} (h : r.toOption = some a) :
    r = .ok a := by
  cases r with
  | error _ => cases h
  | ok b => exact congrArg _ (Option.some.inj h)

theorem mem_of_mapM {α β ε : Type} {f : α → Except ε β} {l : List α} {bs : List β}
    (h : l.mapM f = .ok bs) : ∀ b ∈ bs, ∃ a ∈ l, f a = .ok b := by
  induction l generalizing bs with
  | nil =>
    obtain rfl := Except.ok.inj h
    simp
  | cons a l ih =>
    rw [List.mapM_cons] at h
    cases hfirst : f a with
    | error e =>
      rw [hfirst] at h
      cases h
    | ok b =>
      cases hrest : l.mapM f with
      | error e =>
        rw [hfirst, hrest] at h
        cases h
      | ok cs =>
        rw [hfirst, hrest] at h
        obtain rfl := Except.ok.inj h
        intro c hc
        rcases List.mem_cons.mp hc with rfl | hc
        · exact ⟨a, List.mem_cons_self, hfirst⟩
        · obtain ⟨a', ha', heq⟩ := ih hrest c hc
          exact ⟨a', List.mem_cons_of_mem _ ha', heq⟩

theorem mapM_ok {α β ε : Type} [Inhabited β] {f : α → Except ε β} {l : List α}
    (h : ∀ a ∈ l, ∃ b, f a = .ok b) :
    ∃ g : α → β, l.mapM f = .ok (l.map g) ∧ ∀ a ∈ l, f a = .ok (g a) := by
  have hg : ∀ a ∈ l, f a = .ok ((f a).toOption.getD default) := by
    intro a ha
    obtain ⟨b, hb⟩ := h a ha
    rw [hb]
    rfl
  refine ⟨fun a => (f a).toOption.getD default, ?_, hg⟩
  clear h
  induction l with
  | nil => rfl
  | cons a l ih =>
    rw [List.mapM_cons, hg a List.mem_cons_self, ih fun b hb => hg b (List.mem_cons_of_mem _ hb)]
    rfl

end Extraction

end Carve
