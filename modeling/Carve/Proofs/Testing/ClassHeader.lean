import Carve.Proofs.Testing.Draft
import Carve.Proofs.Text.Trimming
import Mathlib.Computability.Language

/-!
# Headers of classes

The header of a class as a language: annotations, modifiers and the word `class`, each with the
blanks behind it. Every step of the reader takes off one word of a language and stops before a
character that is no blank, so a class is found exactly when some line of the text begins with a
header and a name.
-/

/-- Sets of texts, with their products and stars. -/
abbrev CharLanguage := Language Char

namespace Carve

open scoped Computability

namespace Text

theorem mem_blanks {c : Char} (h : isBlank c = true) : c.toNat ∈
    [9, 10, 11, 12, 13, 0x20, 0x85, 0xA0, 0x1680, 0x2000, 0x2001, 0x2002, 0x2003, 0x2004, 0x2005,
      0x2006, 0x2007, 0x2008, 0x2009, 0x200A, 0x2028, 0x2029, 0x202F, 0x205F, 0x3000] := by
  simp only [isBlank, Bool.or_eq_true, Bool.and_eq_true, decide_eq_true_eq, beq_iff_eq] at h
  simp only [List.mem_cons, List.not_mem_nil, or_false]
  omega

set_option maxRecDepth 8000 in
theorem not_isWordChar_of_isBlank {c : Char} (h : isBlank c = true) : isWordChar c = false := by
  have hnone : ∀ n ∈ [9, 10, 11, 12, 13, 0x20, 0x85, 0xA0, 0x1680, 0x2000, 0x2001, 0x2002, 0x2003,
      0x2004, 0x2005, 0x2006, 0x2007, 0x2008, 0x2009, 0x200A, 0x2028, 0x2029, 0x202F, 0x205F,
      0x3000], wordRuns.toList.any (·.holds n) = false := by
    decide +kernel
  rw [isWordChar_eq_any]
  exact hnone _ (mem_blanks h)

end Text

namespace Testing.Draft

open Text

variable {cs rest w : List Char}

def one (p : Char → Bool) : CharLanguage := {w | ∃ c, p c = true ∧ w = [c]}

def many (p : Char → Bool) : CharLanguage := one p * (one p)∗

def oneOf (words : List String) : CharLanguage := {w | ∃ s ∈ words, w = s.toList}

def blanks : CharLanguage := many isBlank

def arguments : CharLanguage := oneOf ["("] * (one (· ≠ ')'))∗ * oneOf [")"]

def mark : CharLanguage := oneOf ["@"] * many isWordChar * (1 + arguments) * blanks

def modifier : CharLanguage := oneOf ["public", "final", "abstract"] * blanks

def classWord : CharLanguage := oneOf ["class"] * blanks

/-- All that stands before the name. -/
def classHeader : CharLanguage := (one isBlank)∗ * mark∗ * modifier∗ * classWord

def classNames : CharLanguage := one isNameStart * (one isNamePart)∗

/-- At the start of some line of the code there is the header of a class of this name. -/
def Declares (code name : List Char) : Prop :=
  ∃ before head after, code = before ++ (head ++ (name ++ after)) ∧
    (before = [] ∨ before.getLast? = some '\n') ∧ head ∈ classHeader ∧ name ∈ classNames

theorem mem_kstar_one {p : Char → Bool} : w ∈ (one p)∗ ↔ ∀ c ∈ w, p c = true := by
  rw [Language.mem_kstar]
  constructor
  · rintro ⟨pieces, rfl, hpieces⟩ c hc
    obtain ⟨piece, hpiece, hc⟩ := List.mem_flatten.mp hc
    obtain ⟨d, hd, rfl⟩ := hpieces piece hpiece
    rwa [List.mem_singleton.mp hc]
  · intro h
    refine ⟨w.map ([·]), by rw [← List.flatMap_def, List.flatMap_singleton'], ?_⟩
    intro piece hpiece
    obtain ⟨c, hc, rfl⟩ := List.mem_map.mp hpiece
    exact ⟨c, h c hc, rfl⟩

theorem mem_one_mul_kstar {p q : Char → Bool} : w ∈ one p * (one q)∗ ↔
    ∃ c tail, w = c :: tail ∧ p c = true ∧ ∀ d ∈ tail, q d = true := by
  rw [Language.mem_mul]
  constructor
  · rintro ⟨_, ⟨c, hc, rfl⟩, tail, htail, rfl⟩
    exact ⟨c, tail, rfl, hc, mem_kstar_one.mp htail⟩
  · rintro ⟨c, tail, rfl, hc, htail⟩
    exact ⟨[c], ⟨c, hc, rfl⟩, tail, mem_kstar_one.mpr htail, rfl⟩

theorem mem_many {p : Char → Bool} : w ∈ many p ↔ w ≠ [] ∧ ∀ c ∈ w, p c = true := by
  unfold many
  rw [mem_one_mul_kstar]
  constructor
  · rintro ⟨c, tail, rfl, hc, htail⟩
    exact ⟨List.cons_ne_nil _ _, List.forall_mem_cons.mpr ⟨hc, htail⟩⟩
  · rintro ⟨hne, h⟩
    cases w with
    | nil => exact absurd rfl hne
    | cons c tail =>
      obtain ⟨hc, htail⟩ := List.forall_mem_cons.mp h
      exact ⟨c, tail, rfl, hc, htail⟩

theorem mem_oneOf_singleton {s : String} : w ∈ oneOf [s] ↔ w = s.toList := by
  constructor
  · rintro ⟨t, ht, rfl⟩
    rw [List.mem_singleton.mp ht]
  · rintro rfl
    exact ⟨s, List.mem_singleton_self s, rfl⟩

theorem mem_kstar_one_ne {d : Char} : w ∈ (one (· ≠ d))∗ ↔ d ∉ w := by
  rw [mem_kstar_one]
  constructor
  · intro h hd
    simpa using h d hd
  · intro h c hc
    exact decide_eq_true fun heq => h (heq ▸ hc)

theorem mem_arguments : w ∈ arguments ↔ ∃ inner, ')' ∉ inner ∧ w = '(' :: (inner ++ [')']) := by
  unfold arguments
  simp only [Language.mem_mul, mem_oneOf_singleton, mem_kstar_one_ne]
  constructor
  · rintro ⟨_, ⟨_, rfl, inner, hinner, rfl⟩, _, rfl, rfl⟩
    exact ⟨inner, hinner, rfl⟩
  · rintro ⟨inner, hinner, rfl⟩
    exact ⟨_, ⟨_, rfl, inner, hinner, rfl⟩, _, rfl, rfl⟩

theorem skipBlanks?_eq_some :
    skipBlanks? cs = some rest ↔ ∃ b ∈ blanks, cs = b ++ rest ∧ Sharp rest := by
  unfold blanks
  simp only [mem_many]
  constructor
  · intro h
    cases cs with
    | nil => cases h
    | cons c cs =>
      rw [skipBlanks?] at h
      split at h
      · rename_i hc
        obtain rfl := Option.some.inj h
        obtain ⟨bs, hbs, hcs⟩ := eq_append_trimStart cs
        refine ⟨c :: bs, ⟨List.cons_ne_nil _ _, List.forall_mem_cons.mpr ⟨hc, hbs⟩⟩, ?_,
          sharp_trimStart cs⟩
        rw [List.cons_append, ← hcs]
      · cases h
  · rintro ⟨b, ⟨hne, hb⟩, rfl, hrest⟩
    cases b with
    | nil => exact absurd rfl hne
    | cons c b =>
      obtain ⟨hc, hb⟩ := List.forall_mem_cons.mp hb
      rw [List.cons_append, skipBlanks?, if_pos hc, trimStart_append hb hrest]

/-- The step takes off exactly the words of the language, as long as what follows them is no
blank. -/
structure Skips (step : List Char → Option (List Char)) (words : CharLanguage) : Prop where
  starts : ∀ w ∈ words, ∃ c tail, w = c :: tail ∧ isBlank c = false
  sound : ∀ {cs rest}, step cs = some rest → ∃ w ∈ words, cs = w ++ rest ∧ Sharp rest
  complete : ∀ {w rest}, w ∈ words → Sharp rest → step (w ++ rest) = some rest

theorem drop_word {b : List Char} (hw : ∀ c ∈ w, isBlank c = false) (hb : b ∈ blanks)
    (hrest : Sharp rest) : trimStart ((w ++ (b ++ rest)).dropWhile (!isBlank ·)) = rest := by
  obtain ⟨hne, hb⟩ := mem_many.mp hb
  rw [List.dropWhile_append_of_pos fun c hc => by rw [hw c hc]; rfl]
  cases b with
  | nil => exact absurd rfl hne
  | cons c b =>
    have hc : isBlank c = true := hb c List.mem_cons_self
    rw [List.cons_append, List.dropWhile_cons_of_neg (by simp [hc]), ← List.cons_append,
      trimStart_append hb hrest]

theorem skips_skipWord? {words : List String} (hne : ∀ s ∈ words, s.toList ≠ [])
    (hwords : ∀ s ∈ words, ∀ c ∈ s.toList, isBlank c = false) :
    Skips (skipWord? words) (oneOf words * blanks) := by
  have hsound : ∀ {cs rest}, skipWord? words cs = some rest →
      ∃ s ∈ words, ∃ b ∈ blanks, cs = s.toList ++ (b ++ rest) ∧ Sharp rest := by
    intro cs rest h
    obtain ⟨s, hs, h⟩ := List.exists_of_findSome?_eq_some h
    obtain ⟨behind, hbehind, hskip⟩ := Option.bind_eq_some_iff.mp h
    obtain ⟨b, hb, rfl, hrest⟩ := skipBlanks?_eq_some.mp hskip
    exact ⟨s, hs, b, hb, stripStart_eq_some.mp hbehind, hrest⟩
  constructor
  case starts =>
    rintro _ ⟨_, ⟨s, hs, rfl⟩, b, -, rfl⟩
    cases hlist : s.toList with
    | nil => exact absurd hlist (hne s hs)
    | cons c tail => exact ⟨c, _, rfl, hwords s hs c (hlist ▸ List.mem_cons_self)⟩
  case sound =>
    intro cs rest h
    obtain ⟨s, hs, b, hb, rfl, hrest⟩ := hsound h
    refine ⟨s.toList ++ b, Language.append_mem_mul ⟨s, hs, rfl⟩ hb, ?_, hrest⟩
    rw [List.append_assoc]
  case complete =>
    rintro _ rest ⟨_, ⟨s, hs, rfl⟩, b, hb, rfl⟩ hrest
    rw [List.append_assoc]
    cases hskip : skipWord? words (s.toList ++ (b ++ rest)) with
    | none =>
      have hnone := List.findSome?_eq_none_iff.mp hskip s hs
      rw [stripStart_eq_some.mpr rfl, Option.bind_some,
        skipBlanks?_eq_some.mpr ⟨b, hb, rfl, hrest⟩] at hnone
      cases hnone
    | some rest' =>
      obtain ⟨s', hs', b', hb', heq, hrest'⟩ := hsound hskip
      have hdrop := drop_word (hwords s hs) hb hrest
      rw [heq, drop_word (hwords s' hs') hb' hrest'] at hdrop
      rw [hdrop]

theorem skips_modifier : Skips (skipWord? ["public", "final", "abstract"]) modifier :=
  skips_skipWord? (by decide) (by decide)

theorem skips_classWord : Skips (skipWord? ["class"]) classWord :=
  skips_skipWord? (by decide) (by decide)

theorem blanks_head {b : List Char} (hb : b ∈ blanks) : ∃ c tail, b = c :: tail ∧
    isBlank c = true := by
  obtain ⟨hne, hb⟩ := mem_many.mp hb
  cases b with
  | nil => exact absurd rfl hne
  | cons c tail => exact ⟨c, tail, rfl, hb c List.mem_cons_self⟩

theorem mem_mark : w ∈ mark ↔ ∃ name ∈ many isWordChar, ∃ b ∈ blanks,
    w = '@' :: (name ++ b) ∨
      ∃ inner, ')' ∉ inner ∧ w = '@' :: (name ++ '(' :: (inner ++ ')' :: b)) := by
  unfold mark
  simp only [Language.mem_mul, Language.mem_add, Language.mem_one, mem_oneOf_singleton,
    mem_arguments]
  constructor
  · rintro ⟨_, ⟨_, ⟨_, rfl, name, hname, rfl⟩, _, rfl | ⟨inner, hinner, rfl⟩, rfl⟩, b, hb, rfl⟩
    · exact ⟨name, hname, b, hb, .inl (by simp)⟩
    · exact ⟨name, hname, b, hb, .inr ⟨inner, hinner, by simp⟩⟩
  · rintro ⟨name, hname, b, hb, rfl | ⟨inner, hinner, rfl⟩⟩
    · exact ⟨_, ⟨_, ⟨_, rfl, name, hname, rfl⟩, _, .inl rfl, rfl⟩, b, hb, by simp⟩
    · exact ⟨_, ⟨_, ⟨_, rfl, name, hname, rfl⟩, _, .inr ⟨inner, hinner, rfl⟩, rfl⟩, b, hb,
        by simp⟩

theorem skipMark?_bare {name behind : List Char} (hname : name ∈ many isWordChar)
    (hbehind : ∀ c ∈ behind.head?, isWordChar c = false) (hparen : behind.head? ≠ some '(') :
    skipMark? ('@' :: (name ++ behind)) = skipBlanks? behind := by
  obtain ⟨hne, hname⟩ := mem_many.mp hname
  unfold skipMark?
  simp only [span_append_stop hname hbehind]
  rw [if_neg (by simpa using hne)]
  cases behind with
  | nil => rfl
  | cons c behind =>
    have hc : c ≠ '(' := fun heq => hparen (congrArg some heq)
    simp [hc]

theorem skipMark?_arguments {name inner : List Char} (hname : name ∈ many isWordChar)
    (hinner : ')' ∉ inner) (behind : List Char) :
    skipMark? ('@' :: (name ++ '(' :: (inner ++ ')' :: behind))) = skipBlanks? behind := by
  obtain ⟨hne, hname⟩ := mem_many.mp hname
  have hword : ∀ c ∈ ('(' :: (inner ++ ')' :: behind)).head?, isWordChar c = false := by
    rintro c ⟨⟩
    exact isWordChar_punctuation (by decide)
  unfold skipMark?
  simp only [span_append_stop hname hword]
  rw [if_neg (by simpa using hne), dropWhile_ne_append hinner]

theorem of_skipMark? (h : skipMark? cs = some rest) :
    ∃ name ∈ many isWordChar, ∃ behind, skipBlanks? behind = some rest ∧
      (cs = '@' :: (name ++ behind) ∨
        ∃ inner, ')' ∉ inner ∧ cs = '@' :: (name ++ '(' :: (inner ++ ')' :: behind))) := by
  unfold skipMark? at h
  split at h
  · rename_i behind
    have hsplit : behind = behind.takeWhile isWordChar ++ behind.dropWhile isWordChar :=
      List.takeWhile_append_dropWhile.symm
    have hword : ∀ c ∈ behind.takeWhile isWordChar, isWordChar c = true :=
      List.all_eq_true.mp List.all_takeWhile
    rw [List.span_eq_takeWhile_dropWhile] at h
    dsimp only at h
    split at h
    · cases h
    · rename_i hne
      refine ⟨_, mem_many.mpr ⟨by simpa using hne, hword⟩, ?_⟩
      split at h
      · rename_i inner hlater
        split at h
        · rename_i after hdrop
          obtain ⟨front, hfront, -, rfl⟩ := of_dropWhile_ne hdrop
          refine ⟨after, h, .inr ⟨front, hfront, ?_⟩⟩
          rw [← hlater, ← hsplit]
        · cases h
      · exact ⟨_, h, .inl (by rw [← hsplit])⟩
  · cases h

theorem skips_mark : Skips skipMark? mark := by
  constructor
  case starts =>
    intro w hw
    obtain ⟨name, -, b, -, rfl | ⟨inner, -, rfl⟩⟩ := mem_mark.mp hw
    · exact ⟨'@', _, rfl, rfl⟩
    · exact ⟨'@', _, rfl, rfl⟩
  case sound =>
    intro cs rest h
    obtain ⟨name, hname, behind, hskip, rfl | ⟨inner, hinner, rfl⟩⟩ := of_skipMark? h
    · obtain ⟨b, hb, rfl, hrest⟩ := skipBlanks?_eq_some.mp hskip
      exact ⟨_, mem_mark.mpr ⟨name, hname, b, hb, .inl rfl⟩, by simp, hrest⟩
    · obtain ⟨b, hb, rfl, hrest⟩ := skipBlanks?_eq_some.mp hskip
      exact ⟨_, mem_mark.mpr ⟨name, hname, b, hb, .inr ⟨inner, hinner, rfl⟩⟩, by simp, hrest⟩
  case complete =>
    intro w rest hw hrest
    obtain ⟨name, hname, b, hb, rfl | ⟨inner, hinner, rfl⟩⟩ := mem_mark.mp hw
    · have hskip := skipBlanks?_eq_some.mpr ⟨b, hb, rfl, hrest⟩
      obtain ⟨c, tail, rfl, hc⟩ := blanks_head hb
      have hword : ∀ d ∈ (c :: tail ++ rest).head?, isWordChar d = false := by
        rintro d ⟨⟩
        exact not_isWordChar_of_isBlank hc
      have hparen : (c :: tail ++ rest).head? ≠ some '(' := by
        rintro ⟨⟩
        cases hc
      rw [List.cons_append, List.append_assoc, skipMark?_bare hname hword hparen, hskip]
    · have hskip := skipMark?_arguments hname hinner (b ++ rest)
      rw [skipBlanks?_eq_some.mpr ⟨b, hb, rfl, hrest⟩] at hskip
      simpa using hskip

theorem repeatStep_sound {step : List Char → Option (List Char)} {words : CharLanguage}
    (h : Skips step words) (fuel : Nat) (hcs : Sharp cs) :
    ∃ w ∈ words∗, cs = w ++ repeatStep step fuel cs ∧ Sharp (repeatStep step fuel cs) := by
  induction fuel generalizing cs with
  | zero => exact ⟨[], Language.nil_mem_kstar words, rfl, hcs⟩
  | succ fuel ih =>
    unfold repeatStep
    split
    · rename_i rest hstep
      obtain ⟨w, hw, rfl, hrest⟩ := h.sound hstep
      obtain ⟨more, hmore, hsplit, hsharp⟩ := ih hrest
      refine ⟨w ++ more, ?_, ?_, hsharp⟩
      · have hle : words * words∗ ≤ words∗ := mul_kstar_le_kstar
        exact hle (Language.append_mem_mul hw hmore)
      · rw [List.append_assoc, ← hsplit]
    · exact ⟨[], Language.nil_mem_kstar words, rfl, hcs⟩

theorem Skips.sharp {step : List Char → Option (List Char)} {words : CharLanguage}
    (h : Skips step words) (hw : w ∈ words∗) (hrest : Sharp rest) : Sharp (w ++ rest) := by
  obtain ⟨pieces, rfl, hpieces⟩ := Language.mem_kstar.mp hw
  cases pieces with
  | nil => exact hrest
  | cons piece pieces =>
    obtain ⟨c, tail, rfl, hc⟩ := h.starts piece (hpieces piece List.mem_cons_self)
    exact sharp_cons hc

theorem repeatStep_complete {step : List Char → Option (List Char)} {words : CharLanguage}
    (h : Skips step words) (hw : w ∈ words∗) (hrest : Sharp rest) (hstop : step rest = none)
    {fuel : Nat} (hfuel : w.length ≤ fuel) : repeatStep step fuel (w ++ rest) = rest := by
  obtain ⟨pieces, rfl, hpieces⟩ := Language.mem_kstar.mp hw
  clear hw
  induction pieces generalizing fuel with
  | nil =>
    cases fuel with
    | zero => rfl
    | succ fuel => simp [repeatStep, hstop]
  | cons piece pieces ih =>
    obtain ⟨hpiece, hmore⟩ := List.forall_mem_cons.mp hpieces
    obtain ⟨c, tail, rfl, -⟩ := h.starts piece hpiece
    rw [List.flatten_cons, List.length_append, List.length_cons] at hfuel
    cases fuel with
    | zero => omega
    | succ fuel =>
      have hsharp : Sharp (pieces.flatten ++ rest) :=
        h.sharp (Language.join_mem_kstar hmore) hrest
      rw [List.flatten_cons, List.append_assoc, repeatStep, h.complete hpiece hsharp]
      exact ih hmore (by omega)

theorem of_firstAtLine {α : Type} {read : List Char → Option α} {start : Bool} {a : α}
    (h : firstAtLine read start cs = some a) :
    ∃ before after, cs = before ++ after ∧ read after = some a ∧
      (before = [] ∧ start = true ∨ before.getLast? = some '\n') := by
  induction cs generalizing start with
  | nil =>
    cases start with
    | true => exact ⟨[], [], rfl, h, .inl ⟨rfl, rfl⟩⟩
    | false => cases h
  | cons c cs ih =>
    rw [firstAtLine] at h
    split at h
    · rename_i b hread
      cases start with
      | true => exact ⟨[], c :: cs, rfl, hread.trans h, .inl ⟨rfl, rfl⟩⟩
      | false => cases hread
    · obtain ⟨before, after, rfl, hread, hbefore⟩ := ih h
      refine ⟨c :: before, after, rfl, hread, .inr ?_⟩
      rcases hbefore with ⟨rfl, hc⟩ | hlast
      · simpa using hc
      · simp [List.getLast?_cons, hlast]

theorem firstAtLine_isSome {α : Type} {read : List Char → Option α} {before after : List Char}
    {start : Bool} (hread : (read after).isSome)
    (hbefore : before = [] ∧ start = true ∨ before.getLast? = some '\n') :
    (firstAtLine read start (before ++ after)).isSome := by
  induction before generalizing start with
  | nil =>
    obtain rfl : start = true := by simpa using hbefore
    obtain ⟨a, ha⟩ := Option.isSome_iff_exists.mp hread
    rw [List.nil_append, firstAtLine_here ha]
    rfl
  | cons c before ih =>
    rw [List.cons_append, firstAtLine]
    split
    · rfl
    · refine ih ?_
      have hlast : (c :: before).getLast? = some '\n' := by simpa using hbefore
      cases before with
      | nil => exact .inl ⟨rfl, by simpa using hlast⟩
      | cons d before => exact .inr hlast

theorem not_isBlank_of_isNameStart {c : Char} (h : isNameStart c = true) : isBlank c = false := by
  simp only [isNameStart, Bool.or_eq_true, beq_iff_eq] at h
  rcases h with (h | rfl) | rfl
  · exact not_isBlank_of_isAlphanum (by simp [Char.isAlphanum, h])
  · rfl
  · rfl

theorem classAt?_sound {name : List Char} (h : classAt? cs = some name) :
    name ∈ classNames ∧ ∃ head ∈ classHeader, ∃ after, cs = head ++ (name ++ after) := by
  obtain ⟨bs, hbs, hcs⟩ := eq_append_trimStart cs
  obtain ⟨marks, hmarks, hmarked, hsharp⟩ :=
    repeatStep_sound skips_mark cs.length (sharp_trimStart cs)
  obtain ⟨modifiers, hmodifiers, hmodified, -⟩ := repeatStep_sound skips_modifier cs.length hsharp
  obtain ⟨behind, hclass, hname⟩ := Option.bind_eq_some_iff.mp h
  obtain ⟨word, hword, hsplit, -⟩ := skips_classWord.sound hclass
  cases behind with
  | nil => cases hname
  | cons c behind =>
    dsimp only at hname
    split at hname
    · rename_i hc
      obtain rfl := Option.some.inj hname
      have hparts : ∀ d ∈ behind.takeWhile isNamePart, isNamePart d = true :=
        List.all_eq_true.mp List.all_takeWhile
      refine ⟨mem_one_mul_kstar.mpr ⟨c, _, rfl, hc, hparts⟩, bs ++ marks ++ modifiers ++ word, ?_,
        behind.dropWhile isNamePart, ?_⟩
      · exact Language.append_mem_mul (Language.append_mem_mul (Language.append_mem_mul
          (mem_kstar_one.mpr hbs) hmarks) hmodifiers) hword
      · calc cs = bs ++ (marks ++ (modifiers ++ (word ++ c :: behind))) := by
              rw [← hsplit, ← hmodified, ← hmarked, ← hcs]
          _ = _ := by simp [List.takeWhile_append_dropWhile]
    · cases hname

theorem skipMark?_of_ne {c : Char} (h : c ≠ '@') (cs : List Char) : skipMark? (c :: cs) = none := by
  unfold skipMark?
  split
  · rename_i heq
    exact absurd (List.cons.inj heq).1 h
  · rfl

theorem mem_classWord : w ∈ classWord ↔ ∃ b ∈ blanks, w = "class".toList ++ b := by
  unfold classWord
  simp only [Language.mem_mul, mem_oneOf_singleton]
  constructor
  · rintro ⟨_, rfl, b, hb, rfl⟩
    exact ⟨b, hb, rfl⟩
  · rintro ⟨b, hb, rfl⟩
    exact ⟨_, rfl, b, hb, rfl⟩

/-- No mark stands behind the first modifier or the word `class`. -/
theorem skipMark?_modifiers {modifiers word : List Char} (hmodifiers : modifiers ∈ modifier∗)
    (hword : word ∈ classWord) (rest : List Char) :
    skipMark? (modifiers ++ (word ++ rest)) = none := by
  obtain ⟨pieces, rfl, hpieces⟩ := Language.mem_kstar.mp hmodifiers
  cases pieces with
  | nil =>
    obtain ⟨b, -, rfl⟩ := mem_classWord.mp hword
    exact skipMark?_of_ne (by decide) _
  | cons piece pieces =>
    obtain ⟨_, ⟨s, hs, rfl⟩, b, -, rfl⟩ := hpieces piece List.mem_cons_self
    have hstart : s = "public" ∨ s = "final" ∨ s = "abstract" := by simpa using hs
    rcases hstart with rfl | rfl | rfl <;> exact skipMark?_of_ne (by decide) _

theorem classAt?_complete {head name : List Char} (hhead : head ∈ classHeader)
    (hname : name ∈ classNames) (after : List Char) :
    (classAt? (head ++ (name ++ after))).isSome := by
  obtain ⟨_, ⟨_, ⟨bs, hbs, marks, hmarks, rfl⟩, modifiers, hmodifiers, rfl⟩, word, hword, rfl⟩ :=
    hhead
  obtain ⟨c, tail, rfl, hc, -⟩ := mem_one_mul_kstar.mp hname
  have hsharp : Sharp (c :: tail ++ after) := sharp_cons (not_isBlank_of_isNameStart hc)
  generalize hcs : bs ++ marks ++ modifiers ++ word ++ (c :: tail ++ after) = cs
  have hwords : Sharp (word ++ (c :: tail ++ after)) := by
    obtain ⟨d, more, rfl, hd⟩ := skips_classWord.starts word hword
    exact sharp_cons hd
  have hmodified := skips_modifier.sharp hmodifiers hwords
  have hstart : trimStart cs = marks ++ (modifiers ++ (word ++ (c :: tail ++ after))) := by
    rw [← hcs]
    simp only [List.append_assoc]
    exact trimStart_append (mem_kstar_one.mp hbs) (skips_mark.sharp hmarks hmodified)
  have hlength : marks.length ≤ cs.length ∧ modifiers.length ≤ cs.length := by
    rw [← hcs]
    simp only [List.length_append]
    omega
  have hmodifier : skipWord? ["public", "final", "abstract"] (word ++ (c :: tail ++ after)) =
      none := by
    obtain ⟨b, -, rfl⟩ := mem_classWord.mp hword
    rfl
  unfold classAt?
  dsimp only
  rw [hstart, repeatStep_complete skips_mark hmarks hmodified
      (skipMark?_modifiers hmodifiers hword _) hlength.1,
    repeatStep_complete skips_modifier hmodifiers hwords hmodifier hlength.2,
    skips_classWord.complete hword hsharp]
  simp [hc]

/-- The class that is found is declared. -/
theorem className?_sound {code name : List Char} (h : className? code = some name) :
    Declares code name := by
  obtain ⟨before, after, rfl, hread, hbefore⟩ := of_firstAtLine h
  obtain ⟨hname, head, hhead, later, rfl⟩ := classAt?_sound hread
  exact ⟨before, head, later, rfl, hbefore.imp_left And.left, hhead, hname⟩

/-- A class is found wherever one is declared. -/
theorem className?_isSome_iff {code : List Char} :
    (className? code).isSome ↔ ∃ name, Declares code name := by
  constructor
  · intro h
    obtain ⟨name, hname⟩ := Option.isSome_iff_exists.mp h
    exact ⟨name, className?_sound hname⟩
  · rintro ⟨name, before, head, after, rfl, hbefore, hhead, hname⟩
    exact firstAtLine_isSome (classAt?_complete hhead hname after)
      (hbefore.imp_left fun hnil => ⟨hnil, rfl⟩)

end Testing.Draft

end Carve
