import Mathlib.Data.List.TakeDrop
import Mathlib.Data.List.TakeWhile
import Carve.QName

/-!
# Segments of names

A name with one more segment than another determines the other, since no segment holds the
separator.
-/

namespace Carve

theorem Text.stripStart_eq_some {p cs rest : List Char} :
    Text.stripStart p cs = some rest ↔ cs = p ++ rest := by
  induction p generalizing cs with
  | nil => simp [Text.stripStart, eq_comm]
  | cons c p ih =>
    cases cs with
    | nil => simp [Text.stripStart]
    | cons d cs =>
      by_cases h : c = d
      · simp [Text.stripStart, h, ih]
      · simp [Text.stripStart, h, Ne.symm h]

theorem append_cons_inj {α : Type} {x : α} : ∀ {as bs cs ds : List α}, x ∉ bs → x ∉ ds →
    as ++ x :: bs = cs ++ x :: ds → as = cs ∧ bs = ds
  | [], bs, [], ds, _, _, h => ⟨rfl, (List.cons.inj h).2⟩
  | [], bs, c :: cs, ds, hb, _, h => by
    obtain ⟨-, rfl⟩ := List.cons.inj h
    exact absurd (by simp) hb
  | a :: as, bs, [], ds, _, hd, h => by
    obtain ⟨-, rfl⟩ := List.cons.inj h
    exact absurd (by simp) hd
  | a :: as, bs, c :: cs, ds, hb, hd, h => by
    obtain ⟨rfl, htail⟩ := List.cons.inj h
    obtain ⟨rfl, hlast⟩ := append_cons_inj hb hd htail
    exact ⟨rfl, hlast⟩

theorem Text.splitLast_append_cons {sep : Char} {front last : String} (h : sep ∉ last.toList) :
    splitLast sep (String.ofList (front.toList ++ sep :: last.toList)) = some (front, last) := by
  have hspan : ∀ c ∈ last.toList.reverse, decide (c ≠ sep) = true := by
    intro c hc
    rw [decide_eq_true_iff]
    rintro rfl
    exact h (List.mem_reverse.mp hc)
  unfold splitLast
  rw [List.span_eq_takeWhile_dropWhile, String.toList_ofList, List.reverse_append,
    List.reverse_cons, List.append_assoc, List.singleton_append, List.takeWhile_append_of_pos hspan,
    List.dropWhile_append_of_pos hspan]
  simp

theorem Text.exists_last_separator {sep : Char} {s : String} (h : sep ∈ s.toList) :
    ∃ front last : String, s.toList = front.toList ++ sep :: last.toList ∧ sep ∉ last.toList := by
  obtain ⟨tail, front, hsplit, hfirst⟩ := List.eq_append_cons_of_mem (List.mem_reverse.mpr h)
  refine ⟨String.ofList front.reverse, String.ofList tail.reverse, ?_, by simpa using hfirst⟩
  rw [← List.reverse_reverse s.toList, hsplit]
  simp

theorem Text.splitLast_of_eq_append {sep : Char} {s front last : String}
    (hs : s.toList = front.toList ++ sep :: last.toList) (hlast : sep ∉ last.toList) :
    splitLast sep s = some (front, last) := by
  rw [← splitLast_append_cons hlast, ← hs, String.ofList_toList]

theorem Text.splitLast_eq_none_iff {sep : Char} {s : String} :
    splitLast sep s = none ↔ sep ∉ s.toList := by
  constructor
  · intro h hmem
    obtain ⟨front, last, hs, hlast⟩ := exists_last_separator hmem
    rw [splitLast_of_eq_append hs hlast] at h
    cases h
  · intro h
    have hall : ∀ c ∈ s.toList.reverse, decide (c ≠ sep) = true := by
      intro c hc
      rw [decide_eq_true_iff]
      rintro rfl
      exact h (List.mem_reverse.mp hc)
    unfold splitLast
    rw [List.span_eq_takeWhile_dropWhile, List.dropWhile_eq_nil_iff.mpr hall]

theorem Text.splitLast_eq_some_iff {sep : Char} {s front last : String} :
    splitLast sep s = some (front, last) ↔
      s.toList = front.toList ++ sep :: last.toList ∧ sep ∉ last.toList := by
  refine ⟨fun h => ?_, fun h => splitLast_of_eq_append h.1 h.2⟩
  have hmem : sep ∈ s.toList := by
    by_contra hmem
    rw [splitLast_eq_none_iff.mpr hmem] at h
    cases h
  obtain ⟨front', last', hs, hlast⟩ := exists_last_separator hmem
  rw [splitLast_of_eq_append hs hlast] at h
  obtain ⟨rfl, rfl⟩ := Prod.mk.inj (Option.some.inj h)
  exact ⟨hs, hlast⟩

namespace QName

theorem member_toList (o : QName) (s : String) :
    (o.member s).text.toList = o.text.toList ++ '.' :: s.toList := by
  simp [member, String.toList_append]

/-- The last segment is split off in one way. -/
theorem member_inj {o o' : QName} {s s' : String} (h : '.' ∉ s.toList) (h' : '.' ∉ s'.toList)
    (heq : o.member s = o'.member s') : o = o' := by
  have hlist := congrArg (fun q : QName => q.text.toList) heq
  simp only [member_toList] at hlist
  obtain ⟨ho, -⟩ := append_cons_inj h h' hlist
  cases o; cases o'
  simpa using String.toList_inj.mp ho

theorem splitLast_member {o : QName} {s : String} (h : '.' ∉ s.toList) :
    Text.splitLast '.' (o.member s).text = some (o.text, s) := by
  have htext : (o.member s).text = String.ofList (o.text.toList ++ '.' :: s.toList) := by
    rw [← String.toList_inj, String.toList_ofList, member_toList]
  rw [htext, Text.splitLast_append_cons h]

theorem qualifier?_member {o : QName} {s : String} (h : '.' ∉ s.toList) :
    (o.member s).qualifier? = some o.text := by
  rw [qualifier?, splitLast_member h]
  rfl

theorem simple_member {o : QName} {s : String} (h : '.' ∉ s.toList) :
    (o.member s).simple = s := by
  rw [simple, splitLast_member h]

/-- The name of the owner with one more segment. -/
def Below (owner id : QName) : Prop := ∃ s : String, '.' ∉ s.toList ∧ id = owner.member s

theorem Below.owner_eq {o o' id : QName} (h : Below o id) (h' : Below o' id) : o = o' := by
  obtain ⟨s, hs, rfl⟩ := h
  obtain ⟨s', hs', heq⟩ := h'
  exact member_inj hs hs' heq

theorem below_alias {o id : QName} (h : Below o id) : Below o id.methodAlias := by
  obtain ⟨s, hs, rfl⟩ := h
  refine ⟨s ++ "()", ?_, ?_⟩
  · simpa [String.toList_append] using hs
  · simp [methodAlias, member, String.append_assoc]

end QName

end Carve
