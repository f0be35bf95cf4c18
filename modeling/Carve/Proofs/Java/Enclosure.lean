import Carve.Proofs.Java.Reading
import Carve.Proofs.Java.Scopes
import Carve.Proofs.Table

/-!
# Types around a declaration

A declaration of a file is enclosed in its parent and in whatever encloses that. Its name begins
with theirs and its use sites are among theirs. The table knows declarations by their names alone:
as long as no other declaration takes the name of a type of the file, the types around that it
tells are those of the file.
-/

namespace Carve

open QName

namespace Java

theorem isWithin_iff {id outer : QName} :
    isWithin id outer = true ↔ ∃ rest, id.text.toList = outer.text.toList ++ '.' :: rest := by
  unfold isWithin
  constructor
  · intro h
    split at h
    · rename_i c rest hstrip
      obtain rfl : c = '.' := by simpa using h
      exact ⟨rest, Text.stripStart_eq_some.mp hstrip⟩
    · contradiction
  · rintro ⟨rest, hrest⟩
    rw [Text.stripStart_eq_some.mpr hrest]
    rfl

theorem isWithin_trans {a b c : QName} (h : isWithin a b = true) (k : isWithin b c = true) :
    isWithin a c = true := by
  obtain ⟨rest, hrest⟩ := isWithin_iff.mp h
  obtain ⟨rest', hrest'⟩ := isWithin_iff.mp k
  exact isWithin_iff.mpr ⟨rest' ++ '.' :: rest, by rw [hrest, hrest']; simp⟩

theorem not_isWithin_self (id : QName) : isWithin id id = false := by
  rw [Bool.eq_false_iff]
  intro h
  obtain ⟨rest, hrest⟩ := isWithin_iff.mp h
  have := congrArg List.length hrest
  simp at this

theorem isWithin_member (owner : QName) (s : String) : isWithin (owner.member s) owner = true :=
  isWithin_iff.mpr ⟨s.toList, member_toList owner s⟩

theorem isWithin_of_below {id outer : QName} (h : Below outer id) : isWithin id outer = true := by
  obtain ⟨s, -, rfl⟩ := h
  exact isWithin_member outer s

theorem length_lt_member (owner : QName) (s : String) :
    owner.text.length < (owner.member s).text.length := by
  rw [← String.length_toList, ← String.length_toList, member_toList]
  simp

theorem length_of_below {id outer : QName} (h : Below outer id) :
    outer.text.length < id.text.length := by
  obtain ⟨s, -, rfl⟩ := h
  exact length_lt_member outer s

/-- The declaration stands in the body of the type or of a type enclosed in it. -/
inductive Encloses (f : SourceFile) (T : Entry) : Entry → Prop
  | member {D : Entry} : D ∈ f.entries → D.decl.parent = some T.decl.id → Encloses f T D
  | nested {M D : Entry} : Encloses f T M → M.decl.kind.isType = true → D ∈ f.entries →
      D.decl.parent = some M.decl.id → Encloses f T D

section

variable {f : SourceFile} {T D : Entry}

theorem Encloses.mem (h : Encloses f T D) : D ∈ f.entries := by
  cases h with
  | member hD => exact hD
  | nested _ _ hD => exact hD

/-- The use sites of what a type encloses are among its own. -/
theorem Encloses.sites_subset (hf : Consistent f) (hT : T ∈ f.entries)
    (htype : T.decl.kind.isType = true) (h : Encloses f T D) : D.sites ⊆ T.sites := by
  induction h with
  | member hD hparent => exact hf.covers _ hD T hT htype hparent
  | nested hM hMtype hD hparent ih =>
    exact fun s hs => ih (hf.covers _ hD _ hM.mem hMtype hparent hs)

theorem Encloses.isWithin (hf : Consistent f) (h : Encloses f T D) :
    isWithin D.decl.id T.decl.id = true := by
  induction h with
  | member hD hparent => exact isWithin_of_below (hf.named _ hD _ hparent)
  | nested _ _ hD hparent ih =>
    exact isWithin_trans (isWithin_of_below (hf.named _ hD _ hparent)) ih

end

def Kept (t : Table) (f : SourceFile) : Prop :=
  ∀ e ∈ f.entries, e.decl.kind.isType = true → t.declaration? e.decl.id.text = some e.decl

theorem kept_of_unique {files : List SourceFile} {f : SourceFile} (catalog : Catalog)
    (hf : f ∈ files) (hunique : ∀ e ∈ f.entries, e.decl.kind.isType = true →
      ∀ g ∈ files, ∀ e' ∈ g.entries, e'.decl.id = e.decl.id → e' = e) :
    Kept (Table.ofFiles files catalog) f := by
  intro e he htype
  rw [Table.declaration?_ofFiles]
  have hmem : e ∈ files.flatMap (·.entries) := List.mem_flatMap.mpr ⟨f, hf, he⟩
  cases hfind : (files.flatMap (·.entries)).find? (·.decl.id.text == e.decl.id.text) with
  | none =>
    have := List.find?_eq_none.mp hfind e hmem
    simp at this
  | some e' =>
    obtain ⟨g, hg, he'⟩ := List.mem_flatMap.mp (List.mem_of_find?_eq_some hfind)
    have htext : e'.decl.id.text = e.decl.id.text := by simpa using List.find?_some hfind
    have hid : e'.decl.id = e.decl.id := congrArg QName.mk htext
    rw [hunique e he htype g hg e' he' hid]
    rfl

/-- The types around a declaration that lie within another type, the innermost first. -/
def between (t : Table) (T D : Declaration) : List Declaration :=
  (chainOf t D).takeWhile fun N => isWithin N.id T.id

def rank (t : Table) (id : QName) : Nat :=
  t.rows.countP fun row => row.1.decl.id.text.length ≤ id.text.length

theorem countP_lt {α : Type} {p q : α → Bool} {a : α} : ∀ {as : List α},
    (∀ b ∈ as, p b = true → q b = true) → a ∈ as → p a = false → q a = true →
      as.countP p < as.countP q := by
  intro as
  induction as with
  | nil => exact fun _ ha => absurd ha List.not_mem_nil
  | cons b as ih =>
    intro hpq ha hp hq
    have hrest : as.countP p ≤ as.countP q :=
      List.countP_mono_left fun c hc => hpq c (List.mem_cons_of_mem _ hc)
    simp only [List.countP_cons]
    rcases List.mem_cons.mp ha with rfl | ha
    · simp only [hp, hq, Bool.false_eq_true, if_false, if_true]
      omega
    · have hlt := ih (fun c hc => hpq c (List.mem_cons_of_mem _ hc)) ha hp hq
      have hb := hpq b List.mem_cons_self
      by_cases hpb : p b = true
      · rw [if_pos hpb, if_pos (hb hpb)]
        omega
      · rw [if_neg hpb]
        omega

theorem rank_lt {t : Table} {id outer : QName} (h : outer.text.length < id.text.length)
    (hid : (t.declaration? id.text).isSome) : rank t outer < rank t id := by
  obtain ⟨d, hd⟩ := Option.isSome_iff_exists.mp hid
  have hname := Table.declaration?_id hd
  obtain ⟨row, hrow, rfl⟩ := Option.map_eq_some_iff.mp hd
  refine countP_lt (fun row' _ hle => ?_) (List.mem_of_find?_eq_some hrow) ?_ ?_
  · have hle : row'.1.decl.id.text.length ≤ outer.text.length := by simpa using hle
    exact decide_eq_true (by omega)
  · exact decide_eq_false (by rw [hname]; exact Nat.not_le.mpr h)
  · exact decide_eq_true (Nat.le_of_eq (by rw [hname]))

section

variable {t : Table} {f : SourceFile} {T D : Entry}

theorem Kept.enclosing_succ (hkept : Kept t f) (hT : T ∈ f.entries)
    (htype : T.decl.kind.isType = true) (fuel : Nat) :
    enclosing t (fuel + 1) (some T.decl.id) = T.decl :: enclosing t fuel T.decl.parent := by
  rw [Java.enclosing_succ, hkept T hT htype]
  exact if_pos htype

theorem Kept.rank_parent (hkept : Kept t f) (hf : Consistent f) (hT : T ∈ f.entries)
    (htype : T.decl.kind.isType = true) {p : QName} (hp : T.decl.parent = some p) :
    rank t p < rank t T.decl.id :=
  rank_lt (length_of_below (hf.named T hT p hp)) (by rw [hkept T hT htype]; rfl)

/-- Going outwards names get shorter, so that no type comes twice and the search ends by itself. -/
theorem Kept.enclosing_stable (hkept : Kept t f) (hf : Consistent f) (fuel : Nat) :
    ∀ T ∈ f.entries, T.decl.kind.isType = true → rank t T.decl.id ≤ fuel →
      enclosing t fuel (some T.decl.id) = enclosing t (fuel + 1) (some T.decl.id) := by
  induction fuel with
  | zero =>
    intro T hT htype hrank
    have hpos : 0 < rank t T.decl.id := by
      obtain ⟨row, hrow, -⟩ := Option.map_eq_some_iff.mp (hkept T hT htype)
      have hmem : row ∈ t.rows := List.mem_of_find?_eq_some hrow
      have hid : row.1.decl.id.text = T.decl.id.text := by simpa using List.find?_some hrow
      exact List.countP_pos_iff.mpr ⟨row, hmem, by simp [hid]⟩
    omega
  | succ fuel ih =>
    intro T hT htype hrank
    rw [hkept.enclosing_succ hT htype, hkept.enclosing_succ hT htype]
    congr 1
    cases hp : T.decl.parent with
    | none => cases fuel <;> rfl
    | some p =>
      obtain ⟨P, hP, hPtype, rfl⟩ := hf.parents T hT p hp
      have := hkept.rank_parent hf hT htype hp
      exact ih P hP hPtype (by omega)

theorem chainOf_type {d : Declaration} (h : d.kind.isType = true) :
    chainOf t d = enclosing t (searchDepth t) (some d.id) := by
  rw [chainOf_def, if_pos h]

theorem Kept.chainOf_nested (hkept : Kept t f) (hf : Consistent f) (hT : T ∈ f.entries)
    (htype : T.decl.kind.isType = true) (hD : D ∈ f.entries) (hDtype : D.decl.kind.isType = true)
    (hparent : D.decl.parent = some T.decl.id) :
    chainOf t D.decl = D.decl :: chainOf t T.decl := by
  have hrank := hkept.rank_parent hf hD hDtype hparent
  have hsize : rank t D.decl.id ≤ t.size := List.countP_le_length
  rw [chainOf_type hDtype, chainOf_type htype, searchDepth, hkept.enclosing_succ hD hDtype, hparent,
    hkept.enclosing_stable hf (t.size + 1) T hT htype (by omega)]

theorem chainOf_member (htype : T.decl.kind.isType = true) (hD : D.decl.kind.isType = false)
    (hparent : D.decl.parent = some T.decl.id) : chainOf t D.decl = chainOf t T.decl := by
  simp only [chainOf_def, htype, hD, hparent, if_true, Bool.false_eq_true, if_false]

theorem Kept.chainOf_enclosed (hkept : Kept t f) (hf : Consistent f) (hT : T ∈ f.entries)
    (htype : T.decl.kind.isType = true) (h : Encloses f T D) :
    ∃ inner, chainOf t D.decl = inner ++ chainOf t T.decl ∧
      ∀ N ∈ inner, isWithin N.id T.decl.id = true := by
  induction h with
  | @member D hD hparent =>
    by_cases hDtype : D.decl.kind.isType = true
    · refine ⟨[D.decl], hkept.chainOf_nested hf hT htype hD hDtype hparent, ?_⟩
      simpa using (Encloses.member hD hparent).isWithin hf
    · exact ⟨[], chainOf_member htype (by simpa using hDtype) hparent, by simp⟩
  | @nested M D hM hMtype hD hparent ih =>
    obtain ⟨inner, hchain, hinner⟩ := ih
    by_cases hDtype : D.decl.kind.isType = true
    · refine ⟨D.decl :: inner, ?_, ?_⟩
      · rw [hkept.chainOf_nested hf hM.mem hMtype hD hDtype hparent, hchain, List.cons_append]
      · intro N hN
        rcases List.mem_cons.mp hN with rfl | hN
        · exact (Encloses.nested hM hMtype hD hparent).isWithin hf
        · exact hinner N hN
    · exact ⟨inner, (chainOf_member hMtype (by simpa using hDtype) hparent).trans hchain, hinner⟩

theorem Kept.chainOf_eq (hkept : Kept t f) (hf : Consistent f) (hT : T ∈ f.entries)
    (htype : T.decl.kind.isType = true) (h : Encloses f T D) :
    chainOf t D.decl = between t T.decl D.decl ++ chainOf t T.decl := by
  obtain ⟨inner, hchain, hinner⟩ := hkept.chainOf_enclosed hf hT htype h
  have hself : chainOf t T.decl = T.decl :: enclosing t (t.size + 1) T.decl.parent := by
    rw [chainOf_type htype, searchDepth, hkept.enclosing_succ hT htype]
  have hbetween : between t T.decl D.decl = inner := by
    unfold between
    rw [hchain, List.takeWhile_append_of_pos hinner, hself,
      List.takeWhile_cons_of_neg (by simp [not_isWithin_self]), List.append_nil]
  rw [hbetween, hchain]

theorem mem_between {T D N : Declaration} (h : N ∈ between t T D) :
    isWithin N.id T.id = true :=
  List.all_eq_true.mp List.all_takeWhile N h

end

end Java

end Carve
