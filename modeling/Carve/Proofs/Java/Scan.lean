import Carve.Java.Token
import Carve.Proofs.Text.Marks

/-!
# Tokens and the text

Every token stands in the text where its extent says, and a token that is a word holds no mark but
a hyphen. A qualified name is therefore never a single word, nor is a name with parentheses.
-/

namespace Carve.Java.Token

/-- The text reads, between the marks of the token, what the token says. -/
def StandsIn (source : List Char) (t : Token) : Prop :=
  Text.slice? source t.extent.span.start t.extent.span.stop = some t.text.toList

/-- What a word is made of: in one word there is a hyphen. -/
def IsWordChar (c : Char) : Prop := isWordPart c = true ∨ c = '-'

instance (c : Char) : Decidable (IsWordChar c) := inferInstanceAs (Decidable (_ ∨ _))

theorem measure_word {cs : List Char} {n : Nat} (h : measure cs = (some .word, n)) :
    ∃ c rest, cs = c :: rest ∧ isLetter c = true ∧
      (n = (c :: rest.takeWhile isWordPart).length ∨
        (n = (c :: rest.takeWhile isWordPart).length + nonSealedTail.length ∧
          nonSealedTail <+: rest.dropWhile isWordPart)) := by
  unfold measure at h
  split at h
  · simp at h
  · rename_i c rest
    split at h
    · simp at h
    split at h
    · simp at h
    split at h
    · simp at h
    split at h
    · rename_i hletter
      dsimp only at h
      refine ⟨c, rest, rfl, hletter, ?_⟩
      split at h
      · rename_i hsealed
        simp only [Bool.and_eq_true] at hsealed
        refine Or.inr ⟨?_, List.isPrefixOf_iff_prefix.mp hsealed.1.2⟩
        simpa using h.symm
      · exact Or.inl (by simpa using h.symm)
    · split at h
      · simp at h
      split at h
      · simp at h
      split at h
      · simp at h
      split at h
      · simp at h
      split at h <;> simp at h

theorem wordChars_of_measure {c : Char} {rest : List Char} {n : Nat}
    (h : measure (c :: rest) = (some .word, n)) :
    ∀ d ∈ c :: rest.take (n - 1), IsWordChar d := by
  obtain ⟨c', rest', heq, hletter, hn⟩ := measure_word h
  obtain ⟨rfl, rfl⟩ := List.cons.inj heq
  have hc : IsWordChar c := Or.inl (by simp [isWordPart, hletter])
  have hword : ∀ d ∈ rest.takeWhile isWordPart, IsWordChar d := fun d hd =>
    Or.inl (List.all_eq_true.mp List.all_takeWhile d hd)
  have hmore : ∃ word, (∀ d ∈ word, IsWordChar d) ∧ word <+: rest ∧ word.length = n - 1 := by
    rcases hn with rfl | ⟨rfl, more, hsealed⟩
    · exact ⟨_, hword, List.takeWhile_prefix _, by simp⟩
    · refine ⟨rest.takeWhile isWordPart ++ nonSealedTail, fun d hd => ?_, ⟨more, ?_⟩, ?_⟩
      · have hall : nonSealedTail.all (fun d => decide (IsWordChar d)) = true := by decide
        have htail : ∀ d ∈ nonSealedTail, IsWordChar d := by simpa using hall
        exact (List.mem_append.mp hd).elim (hword d) (htail d)
      · rw [List.append_assoc, hsealed, List.takeWhile_append_dropWhile]
      · simp only [List.length_cons, List.length_append]; omega
  obtain ⟨word, hchars, hprefix, hlen⟩ := hmore
  rw [← hlen, ← List.prefix_iff_eq_take.mp hprefix]
  intro d hd
  rcases List.mem_cons.mp hd with rfl | hd
  · exact hc
  · exact hchars d hd

/-- Scanning goes through the text piece by piece, and what it has passed stays in front. -/
theorem scanFrom_stands (m : Mark) (cs : List Char) :
    ∀ front : List Char, m = Mark.origin.advance front →
      ∀ t ∈ scanFrom m cs, StandsIn (front ++ cs) t ∧
        (t.extent.start.In (front ++ cs) ∧ t.extent.stop.In (front ++ cs)) ∧
        (t.lexeme = .word → ∀ c ∈ t.text.toList, IsWordChar c) := by
  induction hn : cs.length using Nat.strongRecOn generalizing m cs with
  | _ n ih =>
    intro front hfront t ht
    unfold scanFrom at ht
    cases cs with
    | nil => simp at ht
    | cons c rest =>
      rcases hmeasure : measure (c :: rest) with ⟨lexeme, k⟩
      have hsplit : front ++ c :: rest =
          (front ++ c :: rest.take (k - 1)) ++ rest.drop (k - 1) := by simp
      have hstop : m.advance (c :: rest.take (k - 1)) =
          Mark.origin.advance (front ++ c :: rest.take (k - 1)) := by
        rw [Mark.advance_append, hfront]
      have hlater := ih (rest.drop (k - 1)).length
        (by subst hn; rw [List.length_drop, List.length_cons]; omega)
        (m.advance (c :: rest.take (k - 1))) (rest.drop (k - 1)) rfl _ hstop
      rw [← hsplit] at hlater
      simp only [hmeasure] at ht
      cases lexeme with
      | none => exact hlater t ht
      | some l =>
        rcases List.mem_cons.mp ht with rfl | ht
        · refine ⟨?_, ⟨⟨front, _, rfl, hfront⟩, _, _, hsplit, hstop⟩, ?_⟩
          · unfold StandsIn
            rw [hsplit]
            simp only [Extent.span, String.toList_ofList]
            rw [Mark.advance_offset, hfront, Mark.offset_of_origin]
            exact Text.slice?_append _ _ _
          · rintro rfl
            simpa using wordChars_of_measure hmeasure
        · exact hlater t ht

theorem scan_stands (source : List Char) {t : Token} (h : t ∈ scan source) :
    StandsIn source t ∧ (t.extent.start.In source ∧ t.extent.stop.In source) ∧
      (t.lexeme = .word → ∀ c ∈ t.text.toList, IsWordChar c) :=
  scanFrom_stands .origin source [] rfl t h

end Carve.Java.Token
