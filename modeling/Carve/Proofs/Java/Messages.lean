import Carve.Java.Compile
import Carve.Proofs.Site
import Carve.Proofs.Text.Characters
import Carve.Proofs.Text.Lines
import Carve.Proofs.Text.Trimming

/-!
# Messages of a compiler and their texts

A message is shown on one line, behind its path and the number of its line if it has them. The
reader takes the longest path that leaves a message behind it. The path of a message that is shown
is the last piece of its line that ends like one, as neither the number nor the severity has a dot
and what the message says does not go on like the end of a path, so it is read as it was shown.
What stands on lines of another form between the messages makes no difference.
-/

namespace Carve.Java.Message

open Text

variable {m : Message} {front rest cs line digits detail : List Char} {severity : Severity}

/-! ### The form of a message -/

def pathEnd : List Char := ".java:".toList

/-- Nothing, or a path of a Java file and the number of a line. -/
inductive IsPlace : List Char → Prop
  | nowhere : IsPlace []
  | inFile {stem digits : List Char} : stem ≠ [] → digits ≠ [] → (∀ c ∈ digits, isDigit c = true) →
      IsPlace (stem ++ (pathEnd ++ (digits ++ ": ".toList)))

/-- The line says something of a severity, perhaps behind a place. -/
def HasForm (line : List Char) : Prop :=
  ∃ place severity detail, IsPlace place ∧
    line = place ++ (Severity.text severity).toList ++ ": ".toList ++ detail

theorem severityAt?_eq_some_iff :
    severityAt? cs = some (severity, rest) ↔ cs = severity.text.toList ++ ": ".toList ++ rest := by
  have herror : "error: ".toList = Severity.error.text.toList ++ ": ".toList := rfl
  have hwarning : "warning: ".toList = Severity.warning.text.toList ++ ": ".toList := rfl
  constructor
  · intro h
    unfold severityAt? at h
    split at h
    · rename_i detail hstrip
      obtain ⟨rfl, rfl⟩ := Prod.mk.inj (Option.some.inj h)
      rw [← herror]
      exact stripStart_eq_some.mp hstrip
    · obtain ⟨detail, hstrip, heq⟩ := Option.map_eq_some_iff.mp h
      obtain ⟨rfl, rfl⟩ := Prod.mk.inj heq
      rw [← hwarning]
      exact stripStart_eq_some.mp hstrip
  · rintro rfl
    unfold severityAt?
    cases severity with
    | error => rw [← herror, stripStart_eq_some.mpr rfl]
    | warning =>
      have hnone : stripStart "error: ".toList ("warning: ".toList ++ rest) = none := by
        simp [stripStart]
      rw [← hwarning, hnone, stripStart_eq_some.mpr rfl]
      rfl

theorem lineAt?_eq_some_iff : lineAt? cs = some (digits, rest) ↔
    digits ≠ [] ∧ (∀ c ∈ digits, isDigit c = true) ∧
      cs = ':' :: (digits ++ (": ".toList ++ rest)) := by
  constructor
  · intro h
    unfold lineAt? at h
    split at h
    · rename_i behind
      rw [List.span_eq_takeWhile_dropWhile] at h
      dsimp only at h
      split at h
      · cases h
      · rename_i hne
        obtain ⟨detail, hstrip, heq⟩ := Option.map_eq_some_iff.mp h
        obtain ⟨rfl, rfl⟩ := Prod.mk.inj heq
        refine ⟨by simpa using hne, List.all_eq_true.mp List.all_takeWhile, ?_⟩
        have hcolon : ": ".toList = [':', ' '] := rfl
        rw [hcolon, ← stripStart_eq_some.mp hstrip, List.takeWhile_append_dropWhile]
    · cases h
  · rintro ⟨hne, hall, rfl⟩
    have hstop : ∀ c ∈ (": ".toList ++ rest).head?, isDigit c = false := by
      rintro c ⟨⟩
      exact isDigit_colon
    have hempty : digits.isEmpty = false := by simpa using hne
    unfold lineAt?
    simp only [span_append_stop hall hstop, hempty]
    rfl

/-- Cut behind its path, the line is this message. -/
def Located (path rest : List Char) (m : Message) : Prop :=
  ∃ stem digits severity detail, stem ≠ [] ∧ path = stem ++ ".java".toList ∧ digits ≠ [] ∧
    (∀ c ∈ digits, isDigit c = true) ∧
    rest = ':' :: (digits ++ (": ".toList ++
      ((Severity.text severity).toList ++ ": ".toList ++ detail))) ∧
    m = ⟨some ⟨String.ofList path⟩, SourceSite.digitsValue? digits, severity, String.ofList detail⟩

theorem locatedAt?_eq_some_iff : locatedAt? front rest = some m ↔ Located front.reverse rest m := by
  unfold locatedAt?
  constructor
  · intro h
    obtain ⟨stem, hstem, hbehind⟩ := Option.bind_eq_some_iff.mp h
    split at hbehind
    · cases hbehind
    · rename_i hne
      obtain ⟨⟨digits, behind⟩, hline, hsaid⟩ := Option.bind_eq_some_iff.mp hbehind
      obtain ⟨⟨severity, detail⟩, hseverity, hm⟩ := Option.bind_eq_some_iff.mp hsaid
      obtain ⟨hdigits, hall, rfl⟩ := lineAt?_eq_some_iff.mp hline
      obtain rfl := severityAt?_eq_some_iff.mp hseverity
      obtain rfl := stripStart_eq_some.mp hstem
      exact ⟨stem.reverse, digits, severity, detail, by simpa using hne, by simp, hdigits, hall,
        rfl, (Option.some.inj hm).symm⟩
  · rintro ⟨stem, digits, severity, detail, hne, hpath, hdigits, hall, rfl, rfl⟩
    have hfront : front = ".java".toList.reverse ++ stem.reverse := by
      rw [← List.reverse_reverse front, hpath, List.reverse_append]
    have hempty : stem.reverse.isEmpty = false := by simpa using hne
    rw [hfront, stripStart_eq_some.mpr rfl]
    simp only [Option.bind_eq_bind, Option.bind_some, hempty, Bool.false_eq_true, if_false,
      lineAt?_eq_some_iff.mpr ⟨hdigits, hall, rfl⟩, severityAt?_eq_some_iff.mpr rfl]
    rfl

/-! ### The longest path -/

theorem located?_sound : ∀ {cs front : List Char}, located? front cs = some m →
    ∃ more rest, cs = more ++ rest ∧ Located (front.reverse ++ more) rest m
  | [], front, h => ⟨[], [], rfl, by simpa using locatedAt?_eq_some_iff.mp h⟩
  | c :: cs, front, h => by
    unfold located? at h
    split at h
    · rename_i longer hlonger
      obtain ⟨more, rest, rfl, hlocated⟩ := located?_sound (hlonger.trans h)
      exact ⟨c :: more, rest, rfl, by simpa using hlocated⟩
    · exact ⟨[], c :: cs, rfl, by simpa using locatedAt?_eq_some_iff.mp h⟩

theorem located?_append : ∀ {more front : List Char},
    located? (more.reverse ++ front) rest = some m → located? front (more ++ rest) = some m
  | [], _, h => h
  | c :: more, front, h => by
    have hlonger : located? (c :: front) (more ++ rest) = some m :=
      located?_append (by simpa using h)
    rw [List.cons_append, located?, hlonger]

theorem located?_of_last (hm : locatedAt? front cs = some m)
    (hlast : ∀ more rest m', cs = more ++ rest → more ≠ [] →
      ¬ Located (front.reverse ++ more) rest m') : located? front cs = some m := by
  cases cs with
  | nil => exact hm
  | cons c cs =>
    have hnone : located? (c :: front) cs = none := by
      rw [Option.eq_none_iff_forall_ne_some]
      intro m' hm'
      obtain ⟨more, rest, rfl, hlocated⟩ := located?_sound hm'
      exact hlast (c :: more) rest m' rfl (List.cons_ne_nil _ _) (by simpa using hlocated)
    rw [located?, hnone]
    exact hm

theorem located?_isSome (hm : locatedAt? front cs = some m) : ∃ m', located? front cs = some m' := by
  cases cs with
  | nil => exact ⟨m, hm⟩
  | cons c cs =>
    rw [located?]
    split
    · exact ⟨_, rfl⟩
    · exact ⟨m, hm⟩

theorem placed_eq (stem digits said detail : List Char) :
    stem ++ (pathEnd ++ (digits ++ ": ".toList)) ++ said ++ ": ".toList ++ detail =
      stem ++ ".java".toList ++
        ':' :: (digits ++ (": ".toList ++ (said ++ ": ".toList ++ detail))) := by
  have hend : pathEnd = ".java".toList ++ [':'] := rfl
  simp only [hend, List.append_assoc, List.cons_append, List.nil_append]

/-- A line is passed over unless it has the form of a message. -/
theorem ofLine?_eq_none_iff : ofLine? line = none ↔ ¬ HasForm line := by
  constructor
  · rintro h ⟨place, severity, detail, hplace, rfl⟩
    unfold ofLine? at h
    cases hplace with
    | nowhere =>
      have hread : severityAt? ([] ++ severity.text.toList ++ ": ".toList ++ detail) =
          some (severity, detail) := severityAt?_eq_some_iff.mpr rfl
      rw [hread] at h
      split at h <;> cases h
    | @inFile stem digits hstem hdigits hall =>
      obtain ⟨m, hm⟩ := located?_isSome (locatedAt?_eq_some_iff.mpr
        ⟨stem, digits, severity, detail, hstem, List.reverse_reverse _, hdigits, hall, rfl, rfl⟩)
      rw [← List.append_nil (List.reverse _)] at hm
      rw [placed_eq, located?_append hm] at h
      cases h
  · intro h
    unfold ofLine?
    cases hlocated : located? [] line with
    | some m =>
      obtain ⟨more, rest, rfl, stem, digits, severity, detail, hstem, rfl, hdigits, hall, rfl, -⟩ :=
        located?_sound hlocated
      exact absurd ⟨_, severity, detail, .inFile hstem hdigits hall, (placed_eq ..).symm⟩ h
    | none =>
      dsimp only
      rw [Option.map_eq_none_iff, Option.eq_none_iff_forall_ne_some]
      rintro ⟨severity, detail⟩ hread
      exact h ⟨[], severity, detail, .nowhere, severityAt?_eq_some_iff.mp hread⟩

theorem hasForm_of_dropReturn (h : HasForm (dropReturn line)) : HasForm line := by
  rcases dropReturn_eq_or line with heq | heq
  · rwa [heq] at h
  · obtain ⟨place, severity, detail, hplace, hline⟩ := h
    refine ⟨place, severity, detail ++ ['\r'], hplace, ?_⟩
    rw [heq, hline, List.append_assoc _ detail]

/-! ### Reading what is shown -/

/-- What can be told from its line: a message with both a path and a line or with neither. Its path
is that of a Java file, 64 bits can hold its line, and it says nothing that looks like the end of a
path. The line feeds of an output and the carriage returns before them belong to no message. -/
structure Legible (m : Message) : Prop where
  placed : m.path.isSome = m.line.isSome
  java : ∀ p ∈ m.path, ∃ stem, stem ≠ [] ∧ p.text.toList = stem ++ ".java".toList
  path : ∀ p ∈ m.path, '\n' ∉ p.text.toList
  line : ∀ n ∈ m.line, n < 2 ^ 64
  detail : '\n' ∉ m.detail.toList
  last : m.detail.toList.getLast? ≠ some '\r'
  apart : ¬ pathEnd <:+: m.detail.toList

theorem infix_of_not_mem {c : Char} {p front rest : List Char} (hc : c ∉ front)
    (h : c :: p <:+: front ++ rest) : c :: p <:+: rest := by
  induction front with
  | nil => exact h
  | cons d front ih =>
    obtain ⟨hd, hfront⟩ := List.ne_and_not_mem_of_not_mem_cons hc
    rcases List.infix_cons_iff.mp h with hhere | hlater
    · exact absurd (List.cons_prefix_cons.mp hhere).1 hd
    · exact ih hfront hlater

theorem suffix_of_not_mem {c : Char} {p xs ys : List Char} (hc : c ∉ p)
    (h : p <:+ xs ++ c :: ys) : p <:+ ys := by
  rcases List.suffix_or_suffix_of_suffix h (List.suffix_append xs (c :: ys)) with hp | hp
  · rcases List.suffix_cons_iff.mp hp with rfl | hp
    · exact absurd List.mem_cons_self hc
    · exact hp
  · exact absurd (hp.subset List.mem_cons_self) hc

theorem not_infix_said (hapart : ¬ pathEnd <:+: detail) :
    ¬ pathEnd <:+: (Severity.text severity).toList ++ ": ".toList ++ detail := by
  have hdotless : '.' ∉ (Severity.text severity).toList ++ ": ".toList := by
    cases severity <;> decide
  exact fun h => hapart (infix_of_not_mem hdotless h)

theorem Located.has_end {path : List Char} (h : Located path rest m) : pathEnd <:+: path ++ rest := by
  obtain ⟨stem, digits, severity, detail, -, rfl, -, -, rfl, -⟩ := h
  exact ⟨stem, digits ++ (": ".toList ++ (severity.text.toList ++ ": ".toList ++ detail)),
    by simp [pathEnd]⟩

theorem Located.has_end_behind {path more : List Char} (h : Located (path ++ ':' :: more) rest m) :
    pathEnd <:+: more ++ rest := by
  obtain ⟨stem, digits, severity, detail, -, hpath, -, -, rfl, -⟩ := h
  obtain ⟨stem', rfl⟩ := suffix_of_not_mem (by decide) (⟨stem, hpath.symm⟩ : ".java".toList <:+ _)
  exact ⟨stem', digits ++ (": ".toList ++ (severity.text.toList ++ ": ".toList ++ detail)),
    by simp [pathEnd]⟩

theorem located?_eq_none (h : ¬ pathEnd <:+: cs) : located? [] cs = none := by
  rw [Option.eq_none_iff_forall_ne_some]
  intro m hm
  obtain ⟨more, rest, rfl, hlocated⟩ := located?_sound hm
  exact h hlocated.has_end

theorem ofLine?_of_no_end (h : ¬ pathEnd <:+: cs) : ofLine? cs =
    (severityAt? cs).map fun (severity, detail) =>
      ⟨none, none, severity, String.ofList detail⟩ := by
  unfold ofLine?
  rw [located?_eq_none h]

theorem not_infix_of_not_mem {c : Char} (hend : c ∈ pathEnd) (hc : c ∉ cs) :
    ¬ pathEnd <:+: cs :=
  fun h => hc (h.subset hend)

theorem not_hasForm {c : Char} (hend : c ∈ pathEnd) (hc : c ∉ cs) (hnone : severityAt? cs = none) :
    ¬ HasForm cs := by
  rw [← ofLine?_eq_none_iff, ofLine?_of_no_end (not_infix_of_not_mem hend hc), hnone]
  rfl

theorem ofLine?_nowhere (hapart : ¬ pathEnd <:+: detail) :
    ofLine? (severity.text.toList ++ ": ".toList ++ detail) =
      some ⟨none, none, severity, String.ofList detail⟩ := by
  rw [ofLine?_of_no_end (not_infix_said hapart), severityAt?_eq_some_iff.mpr rfl]
  rfl

theorem ofLine?_inFile {stem : List Char} {n : Nat} (hstem : stem ≠ []) (hn : n < 2 ^ 64)
    (hapart : ¬ pathEnd <:+: detail) :
    ofLine? (stem ++ ".java".toList ++ ':' :: ((toString n).toList ++ (": ".toList ++
      (severity.text.toList ++ ": ".toList ++ detail)))) =
      some ⟨some ⟨String.ofList (stem ++ ".java".toList)⟩, some n, severity,
        String.ofList detail⟩ := by
  have hvalue := SourceSite.digitsValue?_toString hn
  obtain ⟨hdigits, hall, -⟩ := SourceSite.digitsValue?_eq_some_iff.mp hvalue
  have hnumber : '.' ∉ (toString n).toList ++ ": ".toList := by
    rw [List.mem_append, not_or]
    exact ⟨fun hmem => absurd (hall '.' hmem) (by decide), by decide⟩
  have hat : locatedAt? (stem ++ ".java".toList).reverse (':' :: ((toString n).toList ++
      (": ".toList ++ (severity.text.toList ++ ": ".toList ++ detail)))) =
      some ⟨some ⟨String.ofList (stem ++ ".java".toList)⟩, some n, severity,
        String.ofList detail⟩ := by
    refine locatedAt?_eq_some_iff.mpr ⟨stem, (toString n).toList, severity, detail, hstem,
      List.reverse_reverse _, hdigits, fun c hc => isDigit_of_isDigit (hall c hc), rfl, ?_⟩
    rw [hvalue, List.reverse_reverse]
  have hread := located?_of_last hat fun more rest m hcut hmore hlocated => by
    obtain ⟨c, more, rfl⟩ := List.exists_cons_of_ne_nil hmore
    obtain ⟨rfl, htail⟩ := List.cons.inj hcut
    rw [List.reverse_reverse] at hlocated
    have hpiece : pathEnd <:+: more.append rest := hlocated.has_end_behind
    rw [← htail, ← List.append_assoc] at hpiece
    exact not_infix_said hapart (infix_of_not_mem hnumber hpiece)
  unfold ofLine?
  rw [located?_append (by rwa [List.append_nil])]

/-- A message that can be told from its line is read as it was shown. -/
theorem Legible.ofLine?_text (h : Legible m) : ofLine? m.text.toList = some m := by
  obtain ⟨path, number, severity, detail⟩ := m
  have hdetail : String.ofList detail.toList = detail := String.ofList_toList
  cases path with
  | none =>
    obtain rfl : number = none := by simpa using h.placed
    have htext : (Message.mk none none severity detail).text.toList =
        severity.text.toList ++ ": ".toList ++ detail.toList := by
      simp [text]
    rw [htext, ofLine?_nowhere h.apart, hdetail]
  | some p =>
    obtain ⟨n, rfl⟩ : ∃ n, number = some n := by simpa [Option.isSome_iff_exists] using h.placed
    obtain ⟨stem, hstem, hp⟩ := h.java p rfl
    have htext : (Message.mk (some p) (some n) severity detail).text.toList =
        stem ++ ".java".toList ++ ':' :: ((toString n).toList ++ (": ".toList ++
          (severity.text.toList ++ ": ".toList ++ detail.toList))) := by
      simp [text, hp]
    have hpath : String.ofList (stem ++ ".java".toList) = p.text := by
      rw [← hp, String.ofList_toList]
    rw [htext, ofLine?_inFile hstem (h.line n rfl) h.apart, hdetail, hpath]

theorem Legible.text_eq_append (h : Legible m) :
    ∃ said, '\n' ∉ said ∧ m.text.toList = said ++ ": ".toList ++ m.detail.toList := by
  obtain ⟨path, number, severity, detail⟩ := m
  have hsaid : '\n' ∉ severity.text.toList := by
    cases severity <;> decide
  cases path with
  | none =>
    obtain rfl : number = none := by simpa using h.placed
    exact ⟨_, hsaid, by simp [text]⟩
  | some p =>
    obtain ⟨n, rfl⟩ : ∃ n, number = some n := by simpa [Option.isSome_iff_exists] using h.placed
    obtain ⟨-, hall, -⟩ :=
      SourceSite.digitsValue?_eq_some_iff.mp (SourceSite.digitsValue?_toString (h.line n rfl))
    have hnumber : '\n' ∉ (toString n).toList := fun hmem => absurd (hall _ hmem) (by decide)
    have hpath := h.path p rfl
    exact ⟨(p.text ++ ":" ++ toString n ++ ": ").toList ++ severity.text.toList,
      by simpa [hpath, hsaid] using hnumber, by simp [text]⟩

theorem Legible.not_mem_text (h : Legible m) : '\n' ∉ m.text.toList := by
  obtain ⟨said, hsaid, htext⟩ := h.text_eq_append
  rw [htext]
  simp [hsaid, h.detail]

theorem Legible.dropReturn_text (h : Legible m) : dropReturn m.text.toList = m.text.toList := by
  obtain ⟨said, -, htext⟩ := h.text_eq_append
  apply dropReturn_of_last
  rw [htext, List.getLast?_append]
  cases hlast : m.detail.toList.getLast? with
  | none => simp
  | some c =>
    rw [Option.some_or, ← hlast]
    exact h.last

/-- The messages stand in this order among lines that have not the form of one. -/
inductive Among : List Message → List String → Prop
  | none : Among [] []
  | message {ms ls} (m : Message) : Among ms ls → Among (m :: ms) (m.text :: ls)
  | other {ms ls} {l : String} : '\n' ∉ l.toList → ¬ HasForm l.toList → Among ms ls →
      Among ms (l :: ls)

theorem Among.not_mem {ms : List Message} {ls : List String} (h : Among ms ls)
    (hms : ∀ m ∈ ms, Legible m) : ∀ l ∈ ls, '\n' ∉ l.toList := by
  induction h with
  | none => simp
  | message m _ ih =>
    obtain ⟨hm, hms⟩ := List.forall_mem_cons.mp hms
    exact List.forall_mem_cons.mpr ⟨hm.not_mem_text, ih hms⟩
  | other hl _ _ ih => exact List.forall_mem_cons.mpr ⟨hl, ih hms⟩

theorem Among.ofLine?_dropReturn {ms : List Message} {ls : List String} (h : Among ms ls)
    (hms : ∀ m ∈ ms, Legible m) : ∀ l ∈ ls, ofLine? (dropReturn l.toList) = ofLine? l.toList := by
  induction h with
  | none => simp
  | message m _ ih =>
    obtain ⟨hm, hms⟩ := List.forall_mem_cons.mp hms
    exact List.forall_mem_cons.mpr ⟨by rw [hm.dropReturn_text], ih hms⟩
  | other _ hl _ ih =>
    refine List.forall_mem_cons.mpr ⟨?_, ih hms⟩
    rw [ofLine?_eq_none_iff.mpr hl, ofLine?_eq_none_iff.mpr (mt hasForm_of_dropReturn hl)]

theorem Among.filterMap {ms : List Message} {ls : List String} (h : Among ms ls)
    (hms : ∀ m ∈ ms, Legible m) : (ls.map String.toList).filterMap ofLine? = ms := by
  induction h with
  | none => rfl
  | message m _ ih =>
    obtain ⟨hm, hms⟩ := List.forall_mem_cons.mp hms
    rw [List.map_cons, List.filterMap_cons_some hm.ofLine?_text, ih hms]
  | other _ hl _ ih =>
    rw [List.map_cons, List.filterMap_cons_none (ofLine?_eq_none_iff.mpr hl), ih hms]

/-- Whatever else is put out, the messages are read as they are shown. -/
theorem ofOutput_among {ms : List Message} {ls : List String} (h : Among ms ls)
    (hms : ∀ m ∈ ms, Legible m) : ofOutput (joined "\n" ls) = ms := by
  cases ls with
  | nil =>
    cases h
    rfl
  | cons l ls =>
    have hsplit : split '\n' (joined "\n" (l :: ls)).toList = (l :: ls).map String.toList := by
      rw [joined, String.toList_ofList]
      refine split_join (by simp) fun part hpart => ?_
      obtain ⟨line, hline, rfl⟩ := List.mem_map.mp hpart
      exact h.not_mem hms line hline
    have hlines : ∀ line ∈ split '\n' (joined "\n" (l :: ls)).toList,
        ofLine? (dropReturn line) = ofLine? line := by
      rw [hsplit, List.forall_mem_map]
      exact h.ofLine?_dropReturn hms
    unfold ofOutput
    rw [filterMap_lines rfl hlines, hsplit, h.filterMap hms]

/-- Two errors among an excerpt, its mark and the number of errors. -/
theorem ofOutput_excerpt :
    let symbol : Message :=
      ⟨some ⟨"src/main/java/com/shop/Order.java"⟩, some 7, .error, "cannot find symbol"⟩
    let flag : Message := ⟨none, none, .error, "invalid flag: -Xbogus"⟩
    ofOutput (joined "\n" [symbol.text, "        return Missing.LIMIT;", "               ^",
      "  symbol:   variable Missing", flag.text, "1 error", ""]) = [symbol, flag] := by
  intro symbol flag
  have hsymbol : Legible symbol :=
    { placed := rfl
      java := by
        rintro p ⟨⟩
        exact ⟨"src/main/java/com/shop/Order".toList, by decide, by decide⟩
      path := by
        rintro p ⟨⟩
        decide
      line := by
        rintro n ⟨⟩
        decide
      detail := by decide
      last := by decide
      apart := not_infix_of_not_mem (c := '.') (by decide) (by decide) }
  have hflag : Legible flag :=
    { placed := rfl
      java := nofun
      path := nofun
      line := nofun
      detail := by decide
      last := by decide
      apart := not_infix_of_not_mem (c := '.') (by decide) (by decide) }
  have hamong : Among [symbol, flag] [symbol.text, "        return Missing.LIMIT;",
      "               ^", "  symbol:   variable Missing", flag.text, "1 error", ""] := by
    refine .message symbol (.other ?_ ?_ (.other ?_ ?_ (.other ?_ ?_ (.message flag
      (.other ?_ ?_ (.other ?_ ?_ .none))))))
    · decide
    · exact not_hasForm (c := ':') (by decide) (by decide) (by decide)
    · decide
    · exact not_hasForm (c := ':') (by decide) (by decide) (by decide)
    · decide
    · exact not_hasForm (c := '.') (by decide) (by decide) (by decide)
    · decide
    · exact not_hasForm (c := ':') (by decide) (by decide) (by decide)
    · decide
    · exact not_hasForm (c := ':') (by decide) (by decide) (by decide)
  exact ofOutput_among hamong (by simp [hsymbol, hflag])

end Carve.Java.Message
