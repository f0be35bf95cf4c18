import Carve.Command.Subject
import Carve.Proofs.Path
import Carve.Proofs.QName
import Mathlib.Algebra.Group.Nat.Defs

/-!
# Places as they are written

A file, a line and a column are written with colons between them. Digits have no colon, so the last
two colons part the numbers from the file however many colons the file has. A text is refused only
when it has no two colons or one of its last two fields does not write a number from one up that 64
bits can hold; so a place that is read has a line and a column before it when they are counted from
zero.
-/

namespace Carve

theorem Text.parts_of_splitLast {sep : Char} {s front last : String}
    (h : splitLast sep s = some (front, last)) : parts sep s = parts sep front ++ [last] := by
  obtain ⟨hs, hlast⟩ := splitLast_eq_some_iff.mp h
  unfold parts
  rw [hs, split_append_sep, split_of_not_mem hlast, List.map_append, List.map_singleton,
    String.ofList_toList]

namespace SourceSite

open Text

variable {s : String} {n : Nat}

/-- Decimal digits that come to the number, perhaps behind a plus sign. -/
def Writes (s : String) (n : Nat) : Prop :=
  ∃ digits : List Char, digits ≠ [] ∧ (∀ c ∈ digits, c.isDigit = true) ∧
    (s.toList = digits ∨ s.toList = '+' :: digits) ∧ Nat.ofDigitChars 10 digits 0 = n

/-- The text writes this number, from which things are counted and which 64 bits can hold. -/
structure Counts (s : String) (n : Nat) : Prop where
  writes : Writes s n
  positive : 0 < n
  fits : n < 2 ^ 64

/-! ### Numbers -/

theorem le_maxNumber_iff : n ≤ maxNumber ↔ n < 2 ^ 64 := by
  have hmax : maxNumber + 1 = 2 ^ 64 := rfl
  omega

theorem digitsValue?_eq_some_iff {cs : List Char} :
    digitsValue? cs = some n ↔ cs ≠ [] ∧ (∀ c ∈ cs, c.isDigit = true) ∧
      Nat.ofDigitChars 10 cs 0 = n ∧ n < 2 ^ 64 := by
  have hvalue : cs.foldl (fun n c => n * 10 + (c.toNat - '0'.toNat)) 0 =
      Nat.ofDigitChars 10 cs 0 := by
    rw [Nat.ofDigitChars_eq_foldl]
    simp only [Nat.mul_comm 10]
  have hdigits : (cs.isEmpty || !cs.all Char.isDigit) = false ↔
      cs ≠ [] ∧ ∀ c ∈ cs, c.isDigit = true := by
    simp
  unfold digitsValue?
  rw [hvalue, ← and_assoc, ← hdigits, ← le_maxNumber_iff]
  cases cs.isEmpty || !cs.all Char.isDigit with
  | true => simp
  | false =>
    dsimp only
    by_cases hfits : Nat.ofDigitChars 10 cs 0 ≤ maxNumber
    · rw [if_neg Bool.false_ne_true, if_pos hfits, Option.some.injEq]
      exact ⟨fun h => ⟨rfl, h, h ▸ hfits⟩, fun h => h.2.1⟩
    · rw [if_neg Bool.false_ne_true, if_neg hfits]
      exact ⟨nofun, fun h => absurd (h.2.1 ▸ h.2.2) hfits⟩

theorem number?_eq_some_iff : number? s = some n ↔ Writes s n ∧ n < 2 ^ 64 := by
  have hplus : '+'.isDigit = false := rfl
  unfold number? Writes
  split
  · rename_i cs hcs
    rw [digitsValue?_eq_some_iff, hcs]
    constructor
    · rintro ⟨hne, hall, hvalue, hfits⟩
      exact ⟨⟨cs, hne, hall, .inr rfl, hvalue⟩, hfits⟩
    · rintro ⟨⟨digits, hne, hall, rfl | hsame, hvalue⟩, hfits⟩
      · exact absurd (hall '+' List.mem_cons_self) (by simp [hplus])
      · obtain rfl := (List.cons.inj hsame).2
        exact ⟨hne, hall, hvalue, hfits⟩
  · rename_i hunsigned
    rw [digitsValue?_eq_some_iff]
    constructor
    · rintro ⟨hne, hall, hvalue, hfits⟩
      exact ⟨⟨_, hne, hall, .inl rfl, hvalue⟩, hfits⟩
    · rintro ⟨⟨digits, hne, hall, hsame | hsigned, hvalue⟩, hfits⟩
      · exact hsame ▸ ⟨hne, hall, hvalue, hfits⟩
      · exact absurd hsigned (hunsigned digits)

theorem positive_eq_ok_iff {what : String} : positive what s = .ok n ↔ Counts s n := by
  have hcounts : Counts s n ↔ number? s = some n ∧ 0 < n := by
    rw [number?_eq_some_iff]
    exact ⟨fun h => ⟨⟨h.writes, h.fits⟩, h.positive⟩, fun h => ⟨h.1.1, h.2, h.1.2⟩⟩
  rw [hcounts]
  unfold positive
  cases hnumber : number? s with
  | none => simp
  | some m =>
    cases m with
    | zero =>
      simp only [Option.some.injEq]
      exact ⟨nofun, fun h => absurd h.1 (Nat.ne_of_lt h.2)⟩
    | succ m =>
      simp only [Except.ok.injEq, Option.some.injEq]
      exact ⟨fun h => ⟨h, h ▸ Nat.succ_pos m⟩, fun h => h.1⟩

theorem writes_toString (n : Nat) : Writes (toString n) n := by
  refine ⟨Nat.toDigits 10 n, Nat.toDigits_ne_nil, ?_, .inl ?_, Nat.ofDigitChars_ten_toDigits⟩
  · exact fun c hc => Nat.isDigit_of_mem_toDigits (by decide) (by decide) hc
  · rw [Nat.toString_eq_ofList_toDigits, String.toList_ofList]

theorem digitsValue?_toString (h : n < 2 ^ 64) : digitsValue? (toString n).toList = some n := by
  rw [digitsValue?_eq_some_iff, Nat.toString_eq_ofList_toDigits, String.toList_ofList]
  exact ⟨Nat.toDigits_ne_nil, fun c => Nat.isDigit_of_mem_toDigits (by decide) (by decide),
    Nat.ofDigitChars_ten_toDigits, h⟩

theorem Writes.colonless (h : Writes s n) : ':' ∉ s.toList := by
  obtain ⟨digits, -, hall, hs, -⟩ := h
  have hnone : ':' ∉ digits := fun hmem => absurd (hall ':' hmem) (by decide)
  rcases hs with hs | hs
  · rwa [hs]
  · rw [hs]
    simpa using hnone

/-! ### Fields -/

/-- What stands before the last two colons, between them and behind them. -/
structure Fields (s file line col : String) : Prop where
  text : s.toList = file.toList ++ ':' :: (line.toList ++ ':' :: col.toList)
  line : ':' ∉ line.toList
  col : ':' ∉ col.toList

theorem exists_fields (h : 2 ≤ s.toList.count ':') : ∃ file line col, Fields s file line col := by
  obtain ⟨front, col, hs, hcol⟩ :=
    exists_last_separator (List.count_pos_iff.mp (Nat.lt_of_lt_of_le Nat.zero_lt_two h))
  have hfront : 0 < front.toList.count ':' := by
    rw [hs, List.count_append, List.count_cons_self, List.count_eq_zero.mpr hcol] at h
    omega
  obtain ⟨file, line, hfile, hline⟩ := exists_last_separator (List.count_pos_iff.mp hfront)
  exact ⟨file, line, col, by rw [hs, hfile, List.append_assoc, List.cons_append], hline, hcol⟩

namespace Fields

variable {file line col : String} {site : SourceSite}

theorem splitLast (h : Fields s file line col) : ∃ front, Text.splitLast ':' s = some (front, col) ∧
    Text.splitLast ':' front = some (file, line) := by
  refine ⟨String.ofList (file.toList ++ ':' :: line.toList), ?_, ?_⟩
  · refine splitLast_eq_some_iff.mpr ⟨?_, h.col⟩
    rw [h.text, String.toList_ofList, List.append_assoc, List.cons_append]
  · exact splitLast_eq_some_iff.mpr ⟨String.toList_ofList, h.line⟩

theorem last_parts (h : Fields s file line col) : (parts ':' s).reverse.take 2 = [col, line] := by
  obtain ⟨front, hs, hfront⟩ := h.splitLast
  rw [parts_of_splitLast hs, parts_of_splitLast hfront]
  simp

theorem parse_eq_ok_iff (h : Fields s file line col) :
    parse s = .ok site ↔ site.file.text = file ∧ Counts line site.line ∧ Counts col site.col := by
  obtain ⟨front, hs, hfront⟩ := h.splitLast
  have hread : parse s = (positive "line" line).bind fun l =>
      (positive "column" col).bind fun c => .ok ⟨⟨file⟩, l, c⟩ := by
    unfold parse
    rw [hs]
    dsimp only
    rw [hfront]
    rfl
  have hline : positive "line" line = .ok site.line ↔ Counts line site.line := positive_eq_ok_iff
  have hcol : positive "column" col = .ok site.col ↔ Counts col site.col := positive_eq_ok_iff
  rw [hread, ← hline, ← hcol]
  obtain ⟨⟨path⟩, l, c⟩ := site
  cases positive "line" line with
  | error e => exact ⟨nofun, fun h => nomatch h.2.1⟩
  | ok l' =>
    cases positive "column" col with
    | error e => exact ⟨nofun, fun h => nomatch h.2.2⟩
    | ok c' => simp [Except.bind, eq_comm]

theorem exists_ok_iff (h : Fields s file line col) :
    (∃ site, parse s = .ok site) ↔ (∃ n, Counts line n) ∧ ∃ n, Counts col n := by
  simp only [h.parse_eq_ok_iff]
  constructor
  · rintro ⟨site, -, hline, hcol⟩
    exact ⟨⟨_, hline⟩, ⟨_, hcol⟩⟩
  · rintro ⟨⟨l, hline⟩, c, hcol⟩
    exact ⟨⟨⟨file⟩, l, c⟩, rfl, hline, hcol⟩

end Fields

/-! ### Places -/

theorem exists_error_iff : (∃ e, parse s = .error e) ↔ ¬ ∃ site, parse s = .ok site := by
  cases parse s <;> simp

theorem parse_of_count (h : s.toList.count ':' < 2) : parse s = .error (malformed s) := by
  unfold parse
  cases hs : splitLast ':' s with
  | none => rfl
  | some p =>
    obtain ⟨front, col⟩ := p
    have hfront : ':' ∉ front.toList := by
      rw [(splitLast_eq_some_iff.mp hs).1, List.count_append, List.count_cons_self] at h
      exact List.count_eq_zero.mp (by omega)
    dsimp only
    rw [splitLast_eq_none_iff.mpr hfront]

/-- Whatever file is named, a place is read as it is written. A text is refused exactly when there
are no two colons in it or when one of its last two fields does not count. A place that has been
read has a line and a column before it, where the index looks for it when it counts from zero. -/
theorem parse_decodes_places :
    (∀ (file : String) (line col : Nat), 0 < line → line < 2 ^ 64 → 0 < col → col < 2 ^ 64 →
      parse (file ++ ":" ++ toString line ++ ":" ++ toString col) = .ok ⟨⟨file⟩, line, col⟩) ∧
    (∀ s, (∃ e, parse s = .error e) ↔ s.toList.count ':' < 2 ∨
      ∃ field ∈ (parts ':' s).reverse.take 2, ¬ ∃ n, Counts field n) ∧
    ∀ s site, parse s = .ok site → ∃ row column, site.line = row + 1 ∧ site.col = column + 1 ∧
      ∀ (subject : Command.Subject) (x : Index), subject.target = none →
        subject.site = some site → subject.root x =
          (x.resolveSite (subject.project.join site.file) row column).mapError .fault := by
  refine ⟨fun file line col hline hline' hcol hcol' => ?_, fun s => ?_, fun s site h => ?_⟩
  · have hfields : Fields (file ++ ":" ++ toString line ++ ":" ++ toString col) file (toString line)
        (toString col) := by
      refine ⟨?_, (writes_toString line).colonless, (writes_toString col).colonless⟩
      simp [String.toList_append]
    exact hfields.parse_eq_ok_iff.mpr
      ⟨rfl, ⟨writes_toString line, hline, hline'⟩, ⟨writes_toString col, hcol, hcol'⟩⟩
  · rw [exists_error_iff]
    by_cases hcount : s.toList.count ':' < 2
    · rw [parse_of_count hcount]
      exact ⟨fun _ => .inl hcount, fun _ => nofun⟩
    · obtain ⟨file, line, col, hfields⟩ := exists_fields (Nat.le_of_not_lt hcount)
      rw [hfields.exists_ok_iff, hfields.last_parts, or_iff_right hcount]
      simp only [List.mem_cons, List.not_mem_nil, or_false, exists_eq_or_imp, exists_eq_left]
      tauto
  · have hcount : 2 ≤ s.toList.count ':' := by
      by_contra hfew
      rw [parse_of_count (Nat.lt_of_not_le hfew)] at h
      cases h
    obtain ⟨file, line, col, hfields⟩ := exists_fields hcount
    obtain ⟨-, hline, hcol⟩ := hfields.parse_eq_ok_iff.mp h
    refine ⟨site.line - 1, site.col - 1, (Nat.sub_add_cancel hline.positive).symm,
      (Nat.sub_add_cancel hcol.positive).symm, fun subject x htarget hsite => ?_⟩
    unfold Command.Subject.root
    rw [htarget, hsite]

/-- Colons and digits of the file stay with it, the column is as large as it may be, and the line
before the first one is refused. -/
theorem drive_place_decoded :
    parse "C:7:Shop.java:12:18446744073709551615" = .ok ⟨⟨"C:7:Shop.java"⟩, 12, 2 ^ 64 - 1⟩ ∧
      (∃ row column, 12 = row + 1 ∧ 2 ^ 64 - 1 = column + 1) ∧
      ("C:7:Shop.java:0:5".toList.count ':' < 2 ∨
        ∃ field ∈ (parts ':' "C:7:Shop.java:0:5").reverse.take 2, ¬ ∃ n, Counts field n) := by
  obtain ⟨hread, hrefused, hbefore⟩ := parse_decodes_places
  have htext : "C:7:Shop.java" ++ ":" ++ toString 12 ++ ":" ++ toString (2 ^ 64 - 1) =
      "C:7:Shop.java:12:18446744073709551615" := by rfl
  have hplace := htext ▸ hread "C:7:Shop.java" 12 (2 ^ 64 - 1) (by decide) (by decide) (by decide)
    (by decide)
  obtain ⟨row, column, hrow, hcolumn, -⟩ := hbefore _ _ hplace
  exact ⟨hplace, ⟨row, column, hrow, hcolumn⟩, (hrefused _).mp ⟨_, rfl⟩⟩

end SourceSite

end Carve
