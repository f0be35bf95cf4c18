import Carve.Proofs.Path
import Carve.Testing.Generation
import Mathlib.Data.List.Perm.Basic

/-!
# What a prompt carries

A prompt is told by what it has to show: the instructions, every library in its line and every file
of the workspace in a block of its own, the file of the target before all others. Exactly one text
shows this. It is the prompt, or it is too long, and then no service is asked.
-/

namespace Carve.Testing

namespace Prompt

variable {t : Target} {w : Workspace} {order : List (Path × String)} {f : Path × String}

/-- The file of the target, however its path is spelled. -/
def isOwn (t : Target) (f : Path × String) : Bool := decide (f.1.Same t.file)

structure Ordered (t : Target) (w : Workspace) (order : List (Path × String)) : Prop where
  once : order.Perm w.files
  first : ∀ f ∈ w.files, f.1.Same t.file → order.head? = some f
  others : order.filter (!isOwn t ·) = w.files.filter (!isOwn t ·)

/-- What becomes of a text that has to end with its line. -/
inductive Ended (text : String) : String → Prop
  | kept : ['\n'] <:+ text.toList → Ended text text
  | closed : ¬ ['\n'] <:+ text.toList → Ended text (text ++ "\n")

/-- A block shows a file: its path and, between fences, its text. -/
inductive Shows (f : Path × String) : String → Prop
  | block {code : String} : Ended f.2 code →
      Shows f ("\n// File: " ++ f.1.text ++ "\n" ++ "\x60\x60\x60" ++ "java\n" ++ code ++
        "\x60\x60\x60" ++ "\n")

inductive Lists : List Coordinate → List String → Prop
  | absent : Lists [] ["- none\n"]
  | present {libraries : List Coordinate} : libraries ≠ [] →
      Lists libraries (libraries.map fun l => "- " ++ l.text ++ "\n")

inductive Runs : Junit → String → Prop
  | four : Runs .four "JUnit 4"
  | five : Runs .five "JUnit 5 (Jupiter)"

inductive Sits : Option String → String → Prop
  | alone : Sits none ""
  | inside (package : String) :
      Sits (some package) (" in package " ++ ("\x60" ++ package ++ "\x60"))

/-- What is asked for, and the class that is to answer it. -/
inductive Asks (t : Target) (junit : Junit) : String → Prop
  | request {runner place : String} : Runs junit runner → Sits t.package place →
      Asks t junit ("Write a " ++ runner ++ " unit test for the " ++ t.kind.text ++ " " ++
        ("\x60" ++ t.id.text ++ "\x60") ++ ".\nName the test class " ++
        ("\x60" ++ (t.className ++ "Test") ++ "\x60") ++ place ++
        ". Answer with the complete test class in one " ++ "\x60\x60\x60" ++ "java block.\n" ++
        "Only the sources below and the listed libraries are on the classpath.\n\n")

/-- A text that shows what a prompt has to show. -/
inductive Carries (t : Target) (w : Workspace) (junit : Junit) : String → Prop
  | prompt {request : String} {lines blocks : List String} {order : List (Path × String)} :
      Asks t junit request → Lists w.libraries lines → Ordered t w order →
      List.Forall₂ Shows order blocks →
      Carries t w junit (request ++ ("Libraries:\n" ++ String.join lines) ++
        "\nSources:\n" ++ String.join blocks)

/-! ### The order of the files -/

theorem isOwn_iff : isOwn t f = true ↔ f.1.Same t.file := decide_eq_true_iff

theorem filter_others (h : order.filter (isOwn t) = []) : order.filter (!isOwn t ·) = order :=
  List.filter_eq_self.mpr fun f hf => by simpa using List.filter_eq_nil_iff.mp h f hf

theorem filter_isOwn : w.files.filter (isOwn t) = (w.get? t.file).toList := by
  have hhead : (w.files.filter (isOwn t)).head? = w.get? t.file := List.head?_filter
  have hown : ∀ f ∈ w.files.filter (isOwn t), f.1.Same t.file := fun f hf =>
    isOwn_iff.mp (List.mem_filter.mp hf).2
  have hapart := w.apart.filter (isOwn t)
  rw [← hhead]
  cases hfiles : w.files.filter (isOwn t) with
  | nil => rfl
  | cons f rest =>
    cases rest with
    | nil => rfl
    | cons g rest =>
      rw [hfiles] at hown hapart
      have hsame := (hown f (by simp)).trans (hown g (by simp)).symm
      exact absurd hsame ((List.pairwise_cons.mp hapart).1 g List.mem_cons_self)

theorem get?_of_same (hf : f ∈ w.files) (hsame : f.1.Same t.file) : w.get? t.file = some f := by
  have hmem : f ∈ w.files.filter (isOwn t) := List.mem_filter.mpr ⟨hf, isOwn_iff.mpr hsame⟩
  rw [filter_isOwn] at hmem
  exact Option.mem_toList.mp hmem

theorem sources_ordered (t : Target) (w : Workspace) : Ordered t w (sources t w) := by
  have hsources : sources t w = w.files.filter (isOwn t) ++ w.files.filter (!isOwn t ·) := by
    rw [filter_isOwn]
    rfl
  constructor
  · rw [hsources]
    exact List.filter_append_perm _ _
  · intro f hf hsame
    unfold sources
    rw [get?_of_same hf hsame]
    rfl
  · rw [hsources, List.filter_append]
    simp

theorem Ordered.eq_sources (ho : Ordered t w order) : order = sources t w := by
  have hown : (order.filter (isOwn t)).Perm (w.get? t.file).toList := by
    rw [← filter_isOwn]
    exact ho.once.filter _
  unfold sources
  change order = _ ++ w.files.filter (!isOwn t ·)
  rw [← ho.others]
  cases hget : w.get? t.file with
  | none =>
    rw [hget] at hown
    exact (filter_others hown.eq_nil).symm
  | some own =>
    rw [hget] at hown
    have hmem : own ∈ w.files := List.mem_of_find?_eq_some hget
    have hsame : isOwn t own = true := List.find?_some hget
    obtain ⟨rest, rfl⟩ := List.head?_eq_some_iff.mp (ho.first own hmem (isOwn_iff.mp hsame))
    rw [List.filter_cons_of_pos hsame] at hown
    have hnone := (List.cons.inj (List.perm_singleton.mp hown)).2
    rw [List.filter_cons_of_neg (by simp [hsame])]
    exact congrArg (own :: ·) (filter_others hnone).symm

/-! ### The text -/

theorem ended_iff {text code : String} : Ended text code ↔
    code = text ++ (if text.toList.getLast? == some '\n' then "" else "\n") := by
  have hlast : (text.toList.getLast? == some '\n') = true ↔ ['\n'] <:+ text.toList := by
    rw [beq_iff_eq, List.getLast?_eq_some_iff]
    exact exists_congr fun _ => eq_comm
  by_cases hends : ['\n'] <:+ text.toList
  · rw [if_pos (hlast.mpr hends), String.append_empty]
    constructor
    · rintro (_ | hno)
      · rfl
      · exact absurd hends hno
    · rintro rfl
      exact .kept hends
  · rw [if_neg fun hyes => hends (hlast.mp hyes)]
    constructor
    · rintro (hyes | _)
      · exact absurd hyes hends
      · rfl
    · rintro rfl
      exact .closed hends

theorem fileText_eq (f : Path × String) : fileText f =
    "\n// File: " ++ f.1.text ++ "\n" ++ "\x60\x60\x60" ++ "java\n" ++
      (f.2 ++ if f.2.toList.getLast? == some '\n' then "" else "\n") ++ "\x60\x60\x60" ++ "\n" := by
  rw [← String.append_assoc]
  rfl

theorem shows_iff {text : String} : Shows f text ↔ fileText f = text := by
  rw [fileText_eq]
  constructor
  · rintro ⟨hcode⟩
    rw [ended_iff.mp hcode]
  · rintro rfl
    exact .block (ended_iff.mpr rfl)

theorem forall₂_shows_iff {blocks : List String} :
    List.Forall₂ Shows order blocks ↔ order.map fileText = blocks := by
  have hshows : @Shows = fun f text => fileText f = text := by
    funext f text
    exact propext shows_iff
  rw [hshows, ← List.forall₂_map_left_iff, List.forall₂_eq_eq_eq]

theorem libraryList_eq {libraries : List Coordinate} {lines : List String}
    (h : Lists libraries lines) : libraryList libraries = "Libraries:\n" ++ String.join lines := by
  unfold libraryList
  cases h with
  | absent => rfl
  | present hsome => rw [if_neg (by simpa using hsome)]

theorem lists_exists (libraries : List Coordinate) : ∃ lines, Lists libraries lines := by
  cases libraries with
  | nil => exact ⟨_, .absent⟩
  | cons l ls => exact ⟨_, .present (List.cons_ne_nil l ls)⟩

theorem runs_iff {junit : Junit} {runner : String} : Runs junit runner ↔ junitName junit = runner := by
  constructor
  · rintro (_ | _) <;> rfl
  · rintro rfl
    cases junit
    · exact .four
    · exact .five

theorem sits_iff {package : Option String} {place : String} : Sits package place ↔
    (match package with | some p => " in package " ++ tick p | none => "") = place := by
  constructor
  · rintro (_ | _) <;> rfl
  · rintro rfl
    cases package with
    | none => exact .alone
    | some p => exact .inside p

theorem asks_iff {junit : Junit} {request : String} :
    Asks t junit request ↔ instructions t junit = request := by
  constructor
  · rintro ⟨hruns, hsits⟩
    rw [← runs_iff.mp hruns, ← sits_iff.mp hsits]
    rfl
  · rintro rfl
    exact .request (runs_iff.mpr rfl) (sits_iff.mpr rfl)

/-- There is one text that carries everything. -/
theorem carries_iff {junit : Junit} {text : String} :
    Carries t w junit text ↔ text = Prompt.text t w junit := by
  constructor
  · rintro ⟨hasks, hlines, hordered, hblocks⟩
    rw [← asks_iff.mp hasks, ← libraryList_eq hlines, ← forall₂_shows_iff.mp hblocks,
      hordered.eq_sources]
    rfl
  · rintro rfl
    obtain ⟨lines, hlines⟩ := lists_exists w.libraries
    have hcarries : Carries t w junit _ :=
      .prompt (asks_iff.mpr rfl) hlines (sources_ordered t w) (forall₂_shows_iff.mpr rfl)
    rwa [← libraryList_eq hlines] at hcarries

/-- A text is refused by its length alone. -/
theorem format_eq (t : Target) (w : Workspace) (s : ServiceSettings) : Prompt.format t w s =
    if s.maxPromptChars < (Prompt.text t w s.junit).length then
      .error (.promptTooLarge (Prompt.text t w s.junit).length s.maxPromptChars)
    else .ok (Prompt.text t w s.junit) := rfl

end Prompt

section

variable {t : Target} {w : Workspace} {s : ServiceSettings}

theorem attempt_of_error {m : Type → Type} [Monad m] {reason : Failure}
    (h : Prompt.format t w s = .error reason) (reply : String → m Reply) (cancelled : Bool) :
    attempt reply t w s cancelled = pure (.error reason) := by
  unfold attempt
  rw [h]

theorem generate_of_error {reason : Failure} (h : Prompt.format t w s = .error reason)
    (reply : String → Reply) (cancelled : Bool) :
    generate reply t w s cancelled = .error reason := by
  unfold generate
  rw [attempt_of_error (m := Id) h]
  rfl

theorem attempt_of_prompt {m : Type → Type} [Monad m] {prompt : String}
    (h : Prompt.format t w s = .ok prompt) (reply : String → m Reply) :
    attempt reply t w s false = reply prompt >>= fun r => pure (r.text.bind Draft.ofAnswer) := by
  unfold attempt
  rw [h]
  rfl

end

/-- There is one text that carries every file once. If it is short enough it is the prompt, and a
service is asked once for it as it is. Otherwise an attempt fails without anything being asked. -/
theorem format_carries_all (t : Target) (w : Workspace) (s : ServiceSettings) :
    ∃ text, (∀ text', Prompt.Carries t w s.junit text' ↔ text' = text) ∧
      (text.length ≤ s.maxPromptChars → Prompt.format t w s = .ok text ∧
        ∀ (m : Type → Type) [Monad m] (reply : String → m Reply),
          attempt reply t w s false =
            reply text >>= fun r => pure (r.text.bind Draft.ofAnswer)) ∧
      (s.maxPromptChars < text.length →
        Prompt.format t w s = .error (.promptTooLarge text.length s.maxPromptChars) ∧
        (∀ (m : Type → Type) [Monad m] (reply : String → m Reply) (cancelled : Bool),
          attempt reply t w s cancelled =
            pure (.error (.promptTooLarge text.length s.maxPromptChars))) ∧
        ∀ (reply : String → Reply) (cancelled : Bool),
          generate reply t w s cancelled =
            .error (.promptTooLarge text.length s.maxPromptChars)) := by
  have hformat := Prompt.format_eq t w s
  refine ⟨Prompt.text t w s.junit, fun _ => Prompt.carries_iff, ?_, ?_⟩
  · intro hfits
    rw [if_neg (Nat.not_lt.mpr hfits)] at hformat
    refine ⟨hformat, ?_⟩
    intro m _ reply
    exact attempt_of_prompt hformat reply
  · intro hlong
    rw [if_pos hlong] at hformat
    refine ⟨hformat, ?_, ?_⟩
    · intro m _ reply cancelled
      exact attempt_of_error hformat reply cancelled
    · intro reply cancelled
      exact generate_of_error hformat reply cancelled

def second : Target := ⟨⟨"p.B"⟩, .classType, some "p", "B", none, ⟨"p/./B.java"⟩⟩

def pair : Workspace where
  files := [(⟨"p/A.java"⟩, "class A \x7b\x7d\n"), (⟨"p//B.java"⟩, "class B \x7b\x7d")]
  apart := by decide +kernel

/-- The file of the target leads under the spelling of the workspace, and its line is ended. -/
@[irreducible]
def pairPrompt : String :=
  "Write a JUnit 5 (Jupiter) unit test for the class \x60p.B\x60.\n" ++
    "Name the test class \x60BTest\x60 in package \x60p\x60. " ++
    "Answer with the complete test class in one \x60\x60\x60java block.\n" ++
    "Only the sources below and the listed libraries are on the classpath.\n\n" ++
    "Libraries:\n- none\n\nSources:\n" ++
    "\n// File: p//B.java\n\x60\x60\x60java\nclass B \x7b\x7d\n\x60\x60\x60\n" ++
    "\n// File: p/A.java\n\x60\x60\x60java\nclass A \x7b\x7d\n\x60\x60\x60\n"

def counting (_ : String) : StateM Nat Reply := do
  modify (· + 1)
  return .answered ""

/-- One character decides whether the service is asked for the prompt or left alone. -/
theorem pair_prompt : Prompt.Carries second pair .five pairPrompt ∧
    Prompt.format second pair { maxPromptChars := pairPrompt.length } = .ok pairPrompt ∧
    ((attempt counting second pair { maxPromptChars := pairPrompt.length } false).run 0).2 = 1 ∧
    Prompt.format second pair { maxPromptChars := pairPrompt.length - 1 } =
      .error (.promptTooLarge pairPrompt.length (pairPrompt.length - 1)) ∧
    (attempt counting second pair { maxPromptChars := pairPrompt.length - 1 } false).run 0 =
      (.error (.promptTooLarge pairPrompt.length (pairPrompt.length - 1)), 0) := by
  have htext : Prompt.text second pair .five = pairPrompt := by decide +kernel
  have hcarries := Prompt.carries_iff.mpr htext.symm
  have hfull : pairPrompt ≠ "" := by decide +kernel
  have hlength : pairPrompt.length ≠ 0 := fun hzero => hfull (String.length_eq_zero_iff.mp hzero)
  have hsettled (n : Nat) : (pairPrompt.length ≤ n →
        Prompt.format second pair { maxPromptChars := n } = .ok pairPrompt ∧
        ((attempt counting second pair { maxPromptChars := n } false).run 0).2 = 1) ∧
      (n < pairPrompt.length →
        Prompt.format second pair { maxPromptChars := n } =
          .error (.promptTooLarge pairPrompt.length n) ∧
        (attempt counting second pair { maxPromptChars := n } false).run 0 =
          (.error (.promptTooLarge pairPrompt.length n), 0)) := by
    obtain ⟨text, hcarried, hmade, hrefused⟩ :=
      format_carries_all second pair { maxPromptChars := n }
    obtain rfl := (hcarried _).mp hcarries
    constructor
    · intro hfits
      refine ⟨(hmade hfits).1, ?_⟩
      rw [(hmade hfits).2]
      rfl
    · intro hlong
      refine ⟨(hrefused hlong).1, ?_⟩
      rw [(hrefused hlong).2.1]
      rfl
  obtain ⟨hformat, hasked⟩ := (hsettled _).1 (Nat.le_refl pairPrompt.length)
  obtain ⟨hrefused, hspared⟩ := (hsettled _).2 (Nat.sub_one_lt hlength)
  exact ⟨hcarries, hformat, hasked, hrefused, hspared⟩

end Carve.Testing
