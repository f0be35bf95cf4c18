import Carve.Proofs.Path
import Carve.Proofs.Text.Characters
import Carve.Proofs.Text.Replacing
import Carve.Proofs.Text.Trimming
import Carve.Testing.Draft

/-!
# Reading drafts

What a draft is read from: the code of a fenced block, which is trimmed, and the lines at whose
starts a package or a class is looked for.
-/

namespace Carve

namespace Text

theorem trim_lineFeed {c e : Char} {xs : List Char} (hhead : xs.head? = some c)
    (hc : isBlank c = false) (hlast : xs.getLast? = some e) (he : isBlank e = false) :
    trim (xs ++ ['\n']) = xs := by
  have hfeed : isBlank '\n' = true := rfl
  obtain ⟨front, rfl⟩ := List.getLast?_eq_some_iff.mp hlast
  have hstart : trimStart (front ++ [e] ++ ['\n']) = front ++ [e] ++ ['\n'] := by
    cases front with
    | nil => exact trimStart_of_head he _
    | cons b front =>
      obtain rfl : b = c := Option.some.inj hhead
      exact trimStart_of_head hc _
  rw [trim, hstart]
  simp [trimEnd, dropEndWhile, hfeed, he]

end Text

namespace Path

open Text

theorem foldl_join_text {start : String} {ss : List String} (hne : start ≠ "")
    (hend : start.toList.getLast? ≠ some '/') (h : ∀ s ∈ ss, s ≠ "" ∧ '/' ∉ s.toList) :
    ss.foldl (fun (p : Path) s => p.join ⟨s⟩) ⟨start⟩ = ⟨joined "/" (start :: ss)⟩ := by
  induction ss generalizing start with
  | nil => simp [joined, Text.join]
  | cons s ss ih =>
    obtain ⟨hs, hslash⟩ := h s List.mem_cons_self
    have hrelative : (Path.mk s).isAbsolute = false :=
      beq_false_of_ne fun hhead => hslash (List.mem_of_head? hhead)
    have hjoin : (Path.mk start).join ⟨s⟩ = ⟨start ++ "/" ++ s⟩ := by
      unfold join
      rw [if_neg (by simp [hrelative])]
      dsimp only
      split
      · rename_i hlast
        exact absurd (by simpa using hlast) hne
      · rename_i hlast
        exact absurd hlast hend
      · rfl
    have hlast : (start ++ "/" ++ s).toList.getLast? ≠ some '/' := by
      have hlist : s.toList ≠ [] := fun hnil => hs (String.toList_eq_nil_iff.mp hnil)
      simp only [String.toList_append, List.getLast?_append_of_ne_nil _ hlist]
      exact fun hmem => hslash (List.mem_of_getLast? hmem)
    rw [List.foldl_cons, hjoin, ih (by simp) hlast fun t ht => h t (List.mem_cons_of_mem _ ht)]
    cases ss <;> simp [joined, Text.join]

end Path

namespace Testing.Draft

open Text

section

variable {α : Type} {read : List Char → Option α}

theorem firstAtLine_within {piece : List Char} (h : '\n' ∉ piece) (rest : List Char) :
    firstAtLine read false (piece ++ rest) = firstAtLine read false rest := by
  induction piece with
  | nil => rfl
  | cons c piece ih =>
    obtain ⟨hc, hpiece⟩ := List.ne_and_not_mem_of_not_mem_cons h
    have hsame : (c == '\n') = false := beq_false_of_ne (Ne.symm hc)
    simpa [firstAtLine, hsame] using ih hpiece

theorem firstAtLine_here {cs : List Char} {a : α} (h : read cs = some a) :
    firstAtLine read true cs = some a := by
  cases cs with
  | nil => exact h
  | cons c cs => simp [firstAtLine, h]

end

def opened : List Char := "\x60\x60\x60java\n".toList

/-- Code between two fences is taken without its outer blanks. -/
theorem codeOf_fenced {code : List Char} (h : '\x60' ∉ code) (rest : List Char) :
    codeOf (opened ++ (code ++ (fence ++ rest))) = trim code := by
  have hbreak : breakOn fence (code ++ (fence ++ rest)) = some (code, rest) := breakOn_append h
  have hblock : blockAt? (opened ++ (code ++ (fence ++ rest))) =
      (breakOn fence (code ++ (fence ++ rest))).bind fun piece =>
        some (⟨"java".toList, piece.1⟩, piece.2) := rfl
  rw [hbreak] at hblock
  have hblocks : ∃ more, blocks (opened ++ (code ++ (fence ++ rest))) =
      ⟨"java".toList, code⟩ :: more := by
    unfold blocks
    generalize opened ++ (code ++ (fence ++ rest)) = cs at hblock ⊢
    cases cs with
    | nil => cases hblock
    | cons c cs => exact ⟨_, by rw [blocksFrom, hblock]; rfl⟩
  obtain ⟨more, hblocks⟩ := hblocks
  rw [codeOf, hblocks]
  rfl

/-- Letters, digits, `_` and `$` make up the names of classes. -/
def IsLetter (c : Char) : Prop := c.isAlphanum = true ∨ c = '_' ∨ c = '$'

instance (c : Char) : Decidable (IsLetter c) := inferInstanceAs (Decidable (_ ∨ _))

theorem IsLetter.not_blank {c : Char} (h : IsLetter c) : isBlank c = false := by
  rcases h with h | rfl | rfl
  · exact not_isBlank_of_isAlphanum h
  · rfl
  · rfl

theorem IsLetter.isNamePart {c : Char} (h : IsLetter c) : isNamePart c = true := by
  rcases h with h | rfl | rfl
  · simp [Draft.isNamePart, isWordChar_of_isAlphanum h]
  · simp [Draft.isNamePart, isWordChar_underscore]
  · simp [Draft.isNamePart]

/-- A name of letters that begins with no digit. -/
structure IsIdentifier (name : List Char) : Prop where
  start : ∃ c ∈ name.head?, isNameStart c = true
  letters : ∀ c ∈ name, IsLetter c

def leadingName? (cs : List Char) : Option (List Char) :=
  match trimStart cs with
  | c :: rest => if isNameStart c then some (c :: rest.takeWhile isNamePart) else none
  | [] => none

theorem classAt?_header {header name : List Char} (hname : IsIdentifier name)
    (hheader : ∀ cs, classAt? (header ++ cs) = leadingName? cs)
    (rest : List Char) : classAt? (header ++ (name ++ ' ' :: rest)) = some name := by
  obtain ⟨c, hc, hstart⟩ := hname.start
  obtain ⟨cs, rfl⟩ : ∃ cs, name = c :: cs := by
    cases name with
    | nil => cases hc
    | cons d cs => exact ⟨cs, by rw [Option.some.inj hc]⟩
  have hblank := (hname.letters c List.mem_cons_self).not_blank
  have hstop : isNamePart ' ' = false := by
    simp [isNamePart, isWordChar_punctuation (c := ' ') (by decide)]
  have hparts : ∀ d ∈ cs, isNamePart d = true := fun d hd =>
    (hname.letters d (List.mem_cons_of_mem _ hd)).isNamePart
  rw [hheader, leadingName?, List.cons_append, trimStart_of_head hblank]
  dsimp only
  rw [if_pos hstart, List.takeWhile_append_of_pos hparts]
  simp [hstop]

/-- Words joined by dots. -/
def IsPackage (name : List Char) : Prop :=
  ∀ part ∈ split '.' name, part ≠ [] ∧ ∀ c ∈ part, c.isAlphanum = true ∨ c = '_'

instance (name : List Char) : Decidable (IsPackage name) :=
  inferInstanceAs (Decidable (∀ part ∈ split '.' name, _))

theorem IsPackage.chars {name : List Char} (h : IsPackage name) :
    ∀ c ∈ name, c = '.' ∨ c.isAlphanum = true ∨ c = '_' := by
  intro c hc
  rcases mem_split hc with hdot | ⟨part, hpart, hmem⟩
  · exact .inl hdot
  · exact .inr ((h part hpart).2 c hmem)

theorem IsPackage.ne_nil {name : List Char} (h : IsPackage name) : name ≠ [] := by
  rintro rfl
  exact (h [] List.mem_cons_self).1 rfl

def packageWord : List Char := "package".toList

theorem packageAt?_word (cs : List Char) : packageAt? (packageWord ++ ' ' :: cs) =
    match trimStart ((trimStart cs).span fun c => isWordChar c || c == '.').2 with
    | ';' :: _ =>
      if ((trimStart cs).span fun c => isWordChar c || c == '.').1.isEmpty then none
      else some ((trimStart cs).span fun c => isWordChar c || c == '.').1
    | _ => none :=
  rfl

theorem packageAt?_line {name : List Char} (h : IsPackage name) (rest : List Char) :
    packageAt? (packageWord ++ ' ' :: (name ++ ';' :: rest)) = some name := by
  have hword : ∀ c ∈ name, (isWordChar c || c == '.') = true := by
    intro c hc
    rcases h.chars c hc with hdot | halnum | rfl
    · simp [hdot]
    · simp [isWordChar_of_isAlphanum halnum]
    · simp [isWordChar_underscore]
  have hstop : isWordChar ';' = false := isWordChar_punctuation (by decide)
  have hspan : (name ++ ';' :: rest).span (fun c => isWordChar c || c == '.') =
      (name, ';' :: rest) := by
    rw [List.span_eq_takeWhile_dropWhile, List.takeWhile_append_of_pos hword,
      List.dropWhile_append_of_pos hword, List.takeWhile_cons_of_neg (by simp [hstop]),
      List.dropWhile_cons_of_neg (by simp [hstop]), List.append_nil]
  have hstart : trimStart (name ++ ';' :: rest) = name ++ ';' :: rest := by
    cases name with
    | nil => rfl
    | cons c name =>
      refine trimStart_of_head ?_ _
      rcases h.chars c List.mem_cons_self with rfl | halnum | rfl
      · rfl
      · exact not_isBlank_of_isAlphanum halnum
      · rfl
  rw [packageAt?_word, hstart, hspan]
  have hnonempty : name.isEmpty = false := by simp [h.ne_nil]
  simp [trimStart, hnonempty, show isBlank ';' = false from rfl]

end Testing.Draft

end Carve
