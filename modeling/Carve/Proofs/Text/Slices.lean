import Carve.Text.Bytes
import Carve.Text.Split

/-!
# Slices between characters

A slice is defined exactly between two cuts, and what lies between two cuts contains what lies
between any two cuts in it. A text that is put together contains its parts.
-/

namespace Carve.Text

variable {cs piece part : List Char} {i j k l n : Nat}

/-- The place of a byte before or behind a character. -/
def Cut (cs : List Char) (i : Nat) : Prop := ∃ front rest, cs = front ++ rest ∧ byteLength front = i

theorem eq_nil_of_byteLength (h : byteLength cs = 0) : cs = [] := by
  cases cs with
  | nil => rfl
  | cons c cs =>
    have hc := c.utf8Size_pos
    simp only [byteLength] at h
    omega

/-- Of two beginnings of a text the one with fewer bytes begins the other. -/
theorem prefix_of_byteLength_le {front front' rest rest' : List Char}
    (h : front ++ rest = front' ++ rest') (hle : byteLength front ≤ byteLength front') :
    front <+: front' := by
  rcases List.append_eq_append_iff.mp h with ⟨more, hmore, -⟩ | ⟨more, hmore, -⟩
  · exact ⟨more, hmore.symm⟩
  · have hlen := congrArg byteLength hmore
    rw [byteLength_append] at hlen
    have hnil : more = [] := eq_nil_of_byteLength (by omega)
    simp [hmore, hnil]

theorem dropBytes_eq_some {rest : List Char} (h : dropBytes n cs = some rest) :
    ∃ front, cs = front ++ rest ∧ byteLength front = n := by
  induction cs generalizing n with
  | nil =>
    simp only [dropBytes] at h
    split at h
    · rename_i hn
      exact ⟨[], Option.some.inj h, hn.symm⟩
    · cases h
  | cons c cs ih =>
    simp only [dropBytes] at h
    split at h
    · rename_i hn
      exact ⟨[], Option.some.inj h, hn.symm⟩
    · split at h
      · obtain ⟨front, hsplit, hlen⟩ := ih h
        refine ⟨c :: front, by rw [hsplit, List.cons_append], ?_⟩
        simp only [byteLength]
        omega
      · cases h

theorem takeBytes_eq_some (h : takeBytes n cs = some piece) :
    ∃ rest, cs = piece ++ rest ∧ byteLength piece = n := by
  induction cs generalizing n piece with
  | nil =>
    simp only [takeBytes] at h
    split at h
    · rename_i hn
      obtain rfl := Option.some.inj h
      exact ⟨[], rfl, hn.symm⟩
    · cases h
  | cons c cs ih =>
    simp only [takeBytes] at h
    split at h
    · rename_i hn
      obtain rfl := Option.some.inj h
      exact ⟨c :: cs, rfl, hn.symm⟩
    · split at h
      · obtain ⟨piece', htake, rfl⟩ := Option.map_eq_some_iff.mp h
        obtain ⟨rest, hsplit, hlen⟩ := ih htake
        refine ⟨rest, by rw [hsplit, List.cons_append], ?_⟩
        simp only [byteLength]
        omega
      · cases h

theorem slice?_eq_some_iff : slice? cs i j = some piece ↔ ∃ front rest,
    cs = front ++ piece ++ rest ∧ byteLength front = i ∧ i + byteLength piece = j := by
  constructor
  · intro h
    unfold slice? at h
    split at h
    · obtain ⟨later, hdrop, htake⟩ := Option.bind_eq_some_iff.mp h
      obtain ⟨front, hfront, hi⟩ := dropBytes_eq_some hdrop
      obtain ⟨rest, hrest, hj⟩ := takeBytes_eq_some htake
      exact ⟨front, rest, by rw [hfront, hrest, List.append_assoc], hi, by omega⟩
    · cases h
  · rintro ⟨front, rest, rfl, rfl, rfl⟩
    exact slice?_append front piece rest

theorem slice?_of_cuts (hi : Cut cs i) (hj : Cut cs j) (hle : i ≤ j) :
    ∃ piece, slice? cs i j = some piece := by
  obtain ⟨front, rest, hfront, rfl⟩ := hi
  obtain ⟨front', rest', hfront', rfl⟩ := hj
  obtain ⟨piece, rfl⟩ := prefix_of_byteLength_le (hfront.symm.trans hfront') hle
  exact ⟨piece, slice?_eq_some_iff.mpr ⟨front, rest', hfront', rfl, (byteLength_append _ _).symm⟩⟩

theorem slice?_infix (h : slice? cs i j = some piece) : piece <:+: cs := by
  obtain ⟨front, rest, hsplit, -⟩ := slice?_eq_some_iff.mp h
  exact ⟨front, rest, hsplit.symm⟩

/-- A slice within the bounds of another is a part of it. -/
theorem slice?_infix_slice? (h : slice? cs i j = some piece) (hpart : slice? cs k l = some part)
    (hik : i ≤ k) (hlj : l ≤ j) : part <:+: piece := by
  obtain ⟨front, rest, hsplit, hi, hj⟩ := slice?_eq_some_iff.mp h
  obtain ⟨front', rest', hsplit', hk, hl⟩ := slice?_eq_some_iff.mp hpart
  have heq : front ++ (piece ++ rest) = front' ++ (part ++ rest') := by
    rw [← List.append_assoc, ← hsplit, hsplit', List.append_assoc]
  obtain ⟨skipped, rfl⟩ := prefix_of_byteLength_le heq (by omega)
  rw [List.append_assoc] at heq
  have htail : (skipped ++ part) ++ rest' = piece ++ rest := by
    rw [List.append_assoc, List.append_cancel_left heq]
  rw [byteLength_append] at hk
  obtain ⟨more, rfl⟩ := prefix_of_byteLength_le htail (by rw [byteLength_append]; omega)
  exact ⟨skipped, more, rfl⟩

theorem slice?_prefix_slice? (h : slice? cs i j = some piece) (hpart : slice? cs i l = some part)
    (hlj : l ≤ j) : part <+: piece := by
  obtain ⟨front, rest, hsplit, hi, hj⟩ := slice?_eq_some_iff.mp h
  obtain ⟨front', rest', hsplit', hi', hl⟩ := slice?_eq_some_iff.mp hpart
  have heq : front ++ (piece ++ rest) = front' ++ (part ++ rest') := by
    rw [← List.append_assoc, ← hsplit, hsplit', List.append_assoc]
  obtain ⟨skipped, rfl⟩ := prefix_of_byteLength_le heq (by omega)
  rw [byteLength_append] at hi'
  obtain rfl : skipped = [] := eq_nil_of_byteLength (by omega)
  rw [List.append_nil] at heq
  exact prefix_of_byteLength_le (List.append_cancel_left heq).symm (by omega)

theorem slice?_suffix_slice? (h : slice? cs i j = some piece) (hpart : slice? cs k j = some part)
    (hik : i ≤ k) : part <:+ piece := by
  obtain ⟨front, rest, hsplit, hi, hj⟩ := slice?_eq_some_iff.mp h
  obtain ⟨front', rest', hsplit', hk, hl⟩ := slice?_eq_some_iff.mp hpart
  have heq : front ++ (piece ++ rest) = front' ++ (part ++ rest') := by
    rw [← List.append_assoc, ← hsplit, hsplit', List.append_assoc]
  obtain ⟨skipped, rfl⟩ := prefix_of_byteLength_le heq (by omega)
  rw [List.append_assoc] at heq
  have htail : (skipped ++ part) ++ rest' = piece ++ rest := by
    rw [List.append_assoc, List.append_cancel_left heq]
  rw [byteLength_append] at hk
  obtain ⟨more, rfl⟩ := prefix_of_byteLength_le htail (by rw [byteLength_append]; omega)
  rw [byteLength_append, byteLength_append] at hj
  obtain rfl : more = [] := eq_nil_of_byteLength (by omega)
  exact ⟨skipped, by simp⟩

def Occurs (s t : String) : Prop := s.toList <:+: t.toList

theorem Occurs.refl (s : String) : Occurs s s := List.infix_refl _

theorem Occurs.trans {s t u : String} (h : Occurs s t) (k : Occurs t u) : Occurs s u :=
  List.IsInfix.trans h k

theorem Occurs.append_right {s t : String} (h : Occurs s t) (u : String) : Occurs s (t ++ u) := by
  unfold Occurs
  rw [String.toList_append]
  exact List.IsInfix.trans h (List.prefix_append _ _).isInfix

theorem Occurs.append_left {s t : String} (h : Occurs s t) (u : String) : Occurs s (u ++ t) := by
  unfold Occurs
  rw [String.toList_append]
  exact List.IsInfix.trans h (List.suffix_append _ _).isInfix

theorem infix_join {sep part : List Char} {parts : List (List Char)} (h : part ∈ parts) :
    part <:+: join sep parts := by
  induction parts with
  | nil => cases h
  | cons first rest ih =>
    cases rest with
    | nil => exact List.mem_singleton.mp h ▸ List.infix_refl _
    | cons second rest =>
      rw [join, List.append_assoc]
      · rcases List.mem_cons.mp h with rfl | h
        · exact (List.prefix_append _ _).isInfix
        · exact ((ih h).trans (List.suffix_append _ _).isInfix).trans
            (List.suffix_append _ _).isInfix
      · simp

theorem occurs_joined {s : String} {ss : List String} (h : s ∈ ss) (sep : String) :
    Occurs s (joined sep ss) := by
  unfold Occurs joined
  rw [String.toList_ofList]
  exact infix_join (List.mem_map_of_mem h)

end Carve.Text
