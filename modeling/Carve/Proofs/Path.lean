import Carve.Path
import Carve.Proofs.Text.Slices
import Mathlib.Data.List.Pairwise

/-!
# Components of joined paths

A path that begins with a name stays below whatever it is joined to: its components come after the
others. Among files of different places each is found under its path.
-/

namespace Carve

namespace Text

theorem split_append_sep (sep : Char) (xs ys : List Char) :
    split sep (xs ++ sep :: ys) = split sep xs ++ split sep ys := by
  induction xs with
  | nil => simp [split]
  | cons c xs ih =>
    by_cases h : c = sep
    · simp [split, h, ih]
    · simp only [List.cons_append, split, h, if_false, ih]
      cases hs : split sep xs with
      | nil => exact absurd hs (split_ne_nil _ _)
      | cons part parts => rfl

theorem split_of_not_mem {sep : Char} {cs : List Char} (h : sep ∉ cs) : split sep cs = [cs] := by
  induction cs with
  | nil => rfl
  | cons c cs ih =>
    obtain ⟨hc, hrest⟩ := List.ne_and_not_mem_of_not_mem_cons h
    simp only [split, Ne.symm hc, if_false, ih hrest]

theorem not_mem_of_mem_split {sep : Char} {cs : List Char} :
    ∀ part ∈ split sep cs, sep ∉ part := by
  induction cs with
  | nil => simp [split]
  | cons c cs ih =>
    by_cases h : c = sep
    · simpa [split, h] using ih
    · simp only [split, h, if_false]
      cases hs : split sep cs with
      | nil => exact absurd hs (split_ne_nil _ _)
      | cons part parts =>
        rw [hs] at ih
        intro q hq
        rcases List.mem_cons.mp hq with rfl | hq
        · exact List.not_mem_cons_of_ne_of_not_mem (Ne.symm h) (ih part List.mem_cons_self)
        · exact ih q (List.mem_cons_of_mem _ hq)

theorem mem_split {sep c : Char} {cs : List Char} (h : c ∈ cs) :
    c = sep ∨ ∃ part ∈ split sep cs, c ∈ part := by
  induction cs with
  | nil => cases h
  | cons d cs ih =>
    by_cases hsep : d = sep
    · subst hsep
      rcases List.mem_cons.mp h with rfl | h
      · exact .inl rfl
      · simpa [split] using ih h
    · simp only [split, hsep, if_false]
      cases hs : split sep cs with
      | nil => exact absurd hs (split_ne_nil _ _)
      | cons part parts =>
        rw [hs] at ih
        rcases List.mem_cons.mp h with rfl | h
        · exact .inr ⟨_, List.mem_cons_self, List.mem_cons_self⟩
        · rcases ih h with hc | ⟨q, hq, hcq⟩
          · exact .inl hc
          · rcases List.mem_cons.mp hq with rfl | hq
            · exact .inr ⟨_, List.mem_cons_self, List.mem_cons_of_mem _ hcq⟩
            · exact .inr ⟨q, List.mem_cons_of_mem _ hq, hcq⟩

theorem length_le_of_mem_split {sep : Char} {part cs : List Char} (h : part ∈ split sep cs) :
    part.length ≤ cs.length := by
  have hpiece : part <:+: join [sep] (split sep cs) := infix_join h
  rw [join_split] at hpiece
  exact hpiece.length_le

/-- Cutting takes apart what was put together of parts without separators. -/
theorem split_join {sep : Char} {parts : List (List Char)} (hne : parts ≠ [])
    (h : ∀ part ∈ parts, sep ∉ part) : split sep (join [sep] parts) = parts := by
  induction parts with
  | nil => exact absurd rfl hne
  | cons part parts ih =>
    have hpart := split_of_not_mem (h part List.mem_cons_self)
    cases parts with
    | nil => exact hpart
    | cons q qs =>
      have hrest := ih (by simp) fun r hr => h r (List.mem_cons_of_mem _ hr)
      show split sep (part ++ [sep] ++ join [sep] (q :: qs)) = _
      rw [List.append_assoc, List.singleton_append, split_append_sep, hpart, hrest,
        List.singleton_append]

theorem parts_joined {sep : String} {c : Char} (hsep : sep.toList = [c]) {ss : List String}
    (hne : ss ≠ []) (h : ∀ s ∈ ss, c ∉ s.toList) : parts c (joined sep ss) = ss := by
  have hsplit : split c (join [c] (ss.map String.toList)) = ss.map String.toList :=
    split_join (by simpa using hne) (by simpa using h)
  unfold parts joined
  rw [String.toList_ofList, hsep, hsplit, List.map_map]
  simp

theorem dropEndWhile_append {α : Type} (p : α → Bool) (xs : List α) :
    ∃ tail, xs = dropEndWhile p xs ++ tail ∧ ∀ x ∈ tail, p x = true := by
  refine ⟨(xs.reverse.takeWhile p).reverse, ?_, fun x hx => ?_⟩
  · rw [dropEndWhile, ← List.reverse_append, List.takeWhile_append_dropWhile, List.reverse_reverse]
  · exact List.all_eq_true.mp List.all_takeWhile x (List.mem_reverse.mp hx)

theorem dropEndWhile_concat {α : Type} {p : α → Bool} {x : α} (h : p x = false) (xs : List α) :
    dropEndWhile p (xs ++ [x]) = xs ++ [x] := by
  simp [dropEndWhile, h]

theorem of_concat_dropEndWhile {α : Type} {p : α → Bool} {xs front : List α} {x : α}
    (h : dropEndWhile p xs = front ++ [x]) : p x = false := by
  have hhead : (xs.reverse.dropWhile p).head? = some x := by
    rw [← List.getLast?_reverse]
    exact (congrArg List.getLast? h).trans List.getLast?_concat
  have hnot := List.head?_dropWhile_not p xs.reverse
  rwa [hhead] at hnot

theorem parts_injective (sep : Char) {s t : String} (h : parts sep s = parts sep t) : s = t := by
  have hsplit : split sep s.toList = split sep t.toList :=
    List.map_inj_right (fun _ _ => String.ofList_inj.mp) |>.mp h
  rw [← String.toList_inj, ← join_split sep s.toList, hsplit, join_split]

end Text

namespace Path

open Text

structure IsName (s : String) : Prop where
  nonempty : s ≠ ""
  slashless : '/' ∉ s.toList
  proper : s ≠ "." ∧ s ≠ ".."

def inner (segments : List (List Char)) : List Component :=
  (segments.filter (!isFiller ·)).map .ofSegment

theorem inner_append (s t : List (List Char)) : inner (s ++ t) = inner s ++ inner t := by
  simp [inner]

theorem components_eq {p : Path} {first : List Char} {rest : List (List Char)}
    (h : p.segments = first :: rest) : p.components =
      (if p.isAbsolute then [.root] else if first = ['.'] then [.current]
        else if first.isEmpty then [] else [.ofSegment first]) ++ inner rest := by
  simp only [components, h, inner]

theorem segments_slash (s t : String) :
    (Path.mk (s ++ "/" ++ t)).segments = split '/' s.toList ++ split '/' t.toList := by
  simp [segments, split_append_sep]

theorem components_slash (s t : String) : (Path.mk (s ++ "/" ++ t)).components =
    (Path.mk (s ++ "/")).components ++ inner (split '/' t.toList) := by
  have habsolute : (Path.mk (s ++ "/" ++ t)).isAbsolute = (Path.mk (s ++ "/")).isAbsolute := by
    simp only [isAbsolute, String.toList_append]
    cases s.toList <;> rfl
  have hempty : (Path.mk (s ++ "/")).segments = split '/' s.toList ++ [[]] := by
    simpa [split] using segments_slash s ""
  unfold components
  rw [segments_slash, hempty, habsolute]
  cases hs : split '/' s.toList with
  | nil => exact absurd hs (split_ne_nil _ _)
  | cons first rest =>
    have hnone : inner [[]] = [] := rfl
    show _ ++ inner (rest ++ split '/' t.toList) = (_ ++ inner (rest ++ [[]])) ++ _
    rw [inner_append, inner_append, hnone, List.append_nil, List.append_assoc]

theorem components_trailing {s : String} (hs : s ≠ "") :
    (Path.mk (s ++ "/")).components = (Path.mk s).components := by
  have habsolute : (Path.mk (s ++ "/")).isAbsolute = (Path.mk s).isAbsolute := by
    simp only [isAbsolute, String.toList_append]
    cases hlist : s.toList with
    | nil => exact absurd (String.toList_eq_nil_iff.mp hlist) hs
    | cons c cs => rfl
  have hempty : (Path.mk (s ++ "/")).segments = split '/' s.toList ++ [[]] := by
    simpa [split] using segments_slash s ""
  have hsegments : (Path.mk s).segments = split '/' s.toList := rfl
  unfold components
  rw [hempty, hsegments, habsolute]
  cases hsplit : split '/' s.toList with
  | nil => exact absurd hsplit (split_ne_nil _ _)
  | cons first rest =>
    have hnone : inner [[]] = [] := rfl
    show _ ++ inner (rest ++ [[]]) = _ ++ inner rest
    rw [inner_append, hnone, List.append_nil]

theorem components_of_head {q : Path} {n : String} (h : q.components.head? = some (.name n)) :
    q.isAbsolute = false ∧ q.components = inner q.segments := by
  unfold components at h ⊢
  cases hs : q.segments with
  | nil => exact absurd hs (split_ne_nil _ _)
  | cons first rest =>
    rw [hs] at h
    dsimp only at h ⊢
    by_cases habsolute : q.isAbsolute = true
    · simp [habsolute] at h
    · rw [if_neg habsolute] at h ⊢
      refine ⟨by simpa using habsolute, ?_⟩
      by_cases hcurrent : first = ['.']
      · simp [hcurrent] at h
      · rw [if_neg hcurrent]
        by_cases hempty : first.isEmpty = true
        · simp [inner, isFiller, hempty]
        · simp [inner, isFiller, hempty, hcurrent]

/-- A path that begins with a name is put below. -/
theorem components_join (p : Path) {q : Path} {n : String}
    (h : q.components.head? = some (.name n)) :
    (p.join q).components = p.components ++ q.components := by
  obtain ⟨habsolute, hq⟩ := components_of_head h
  obtain ⟨text⟩ := p
  unfold join
  rw [if_neg (by simp [habsolute])]
  dsimp only
  split
  · rename_i hlast
    have hempty : text = "" := by simpa using hlast
    subst hempty
    rfl
  · rename_i hlast
    obtain ⟨front, hfront⟩ : ∃ front, text = front ++ "/" := by
      obtain ⟨cs, hcs⟩ := List.getLast?_eq_some_iff.mp hlast
      refine ⟨String.ofList cs, ?_⟩
      rw [← String.toList_inj, hcs]
      simp
    rw [hfront, components_slash, hq]
    rfl
  · rename_i hlast
    have hne : text ≠ "" := by
      rintro rfl
      simp at hlast
    rw [components_slash, components_trailing hne, hq]
    rfl

theorem IsName.components {s : String} (h : IsName s) : (Path.mk s).components = [.name s] := by
  obtain ⟨hnonempty, hslash, hdot, hdots⟩ := h
  have hsegments : (Path.mk s).segments = [s.toList] := split_of_not_mem hslash
  have habsolute : (Path.mk s).isAbsolute = false := by
    unfold isAbsolute
    rw [beq_eq_false_iff_ne]
    intro hhead
    exact hslash (List.mem_of_head? hhead)
  have hne : s.toList ≠ [] ∧ s.toList ≠ ['.'] ∧ s.toList ≠ ['.', '.'] := by
    refine ⟨?_, ?_, ?_⟩
    · exact fun h => hnonempty (String.toList_eq_nil_iff.mp h)
    · exact fun h => hdot (String.toList_inj.mp h)
    · exact fun h => hdots (String.toList_inj.mp h)
  unfold Path.components
  rw [hsegments, habsolute]
  simp [hne, Component.ofSegment]

theorem isName_of_mem {p : Path} {s : String} (h : .name s ∈ p.components) : IsName s := by
  have hsegment : ∃ seg ∈ p.segments, isFiller seg = false ∧ .name s = Component.ofSegment seg := by
    unfold components at h
    cases hs : p.segments with
    | nil => exact absurd hs (split_ne_nil _ _)
    | cons first rest =>
      rw [hs] at h
      dsimp only at h
      rcases List.mem_append.mp h with hlead | hrest
      · split at hlead
        · simp at hlead
        · split at hlead
          · simp at hlead
          · rename_i hcurrent
            split at hlead
            · simp at hlead
            · rename_i hempty
              exact ⟨first, by simp, by simp [isFiller, hcurrent, hempty],
                List.mem_singleton.mp hlead⟩
      · obtain ⟨seg, hseg, hname⟩ := List.mem_map.mp hrest
        obtain ⟨hmem, hfiller⟩ := List.mem_filter.mp hseg
        exact ⟨seg, List.mem_cons_of_mem _ hmem, by simpa using hfiller, hname.symm⟩
  obtain ⟨seg, hseg, hfiller, hname⟩ := hsegment
  have hup : seg ≠ ['.', '.'] := by
    rintro rfl
    cases hname
  rw [Component.ofSegment, if_neg hup] at hname
  obtain rfl := Component.name.inj hname
  have hproper : seg ≠ [] ∧ seg ≠ ['.'] := by simpa [isFiller] using hfiller
  refine ⟨?_, ?_, ?_, ?_⟩
  · exact fun h => hproper.1 (by simpa using congrArg String.toList h)
  · rw [String.toList_ofList]
    exact not_mem_of_mem_split seg hseg
  · exact fun h => hproper.2 (by simpa using congrArg String.toList h)
  · exact fun h => hup (by simpa using congrArg String.toList h)

theorem isName_fileName {p : Path} {s : String} (h : p.fileName? = some s) : IsName s := by
  unfold fileName? at h
  split at h
  · rename_i t hlast
    obtain rfl := Option.some.inj h
    exact isName_of_mem (List.mem_of_getLast? hlast)
  · cases h

theorem components_foldl_join (p : Path) {ss : List String} (h : ∀ s ∈ ss, IsName s) :
    (ss.foldl (fun p s => p.join ⟨s⟩) p).components = p.components ++ ss.map .name := by
  induction ss generalizing p with
  | nil => simp
  | cons s ss ih =>
    have hs := (h s List.mem_cons_self).components
    rw [List.foldl_cons, ih _ fun t ht => h t (List.mem_cons_of_mem _ ht),
      components_join p (n := s) (by simp [hs]), hs]
    simp

/-- Among different places each is told by its path. -/
theorem eq_of_apart {β : Type} {path : β → Path} {bs : List β}
    (h : bs.Pairwise fun b c => ¬ (path b).Same (path c)) {b c : β} (hb : b ∈ bs) (hc : c ∈ bs)
    (hsame : (path b).Same (path c)) : b = c := by
  have hsymm : Std.Symm fun b c : β => ¬ (path b).Same (path c) :=
    ⟨fun _ _ hdiff hsame => hdiff hsame.symm⟩
  by_contra hne
  exact h.forall hb hc hne hsame

theorem find?_of_apart {β : Type} {fs : List (Path × β)}
    (h : fs.Pairwise fun f g => ¬ f.1.Same g.1) {f : Path × β} (hf : f ∈ fs) :
    fs.find? (fun g => decide (g.1.Same f.1)) = some f := by
  induction fs with
  | nil => cases hf
  | cons g fs ih =>
    obtain ⟨hg, hrest⟩ := List.pairwise_cons.mp h
    rw [List.find?_cons]
    rcases List.mem_cons.mp hf with rfl | hf
    · simp [Same.refl]
    · have hno : decide (g.1.Same f.1) = false := by simpa using hg f hf
      rw [hno]
      exact ih hrest hf

end Path

end Carve
