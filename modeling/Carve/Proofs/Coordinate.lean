import Carve.Proofs.Text.Trimming
import Carve.Workspace
import Mathlib.Data.List.Nodup

/-!
# Coordinates and their texts

A coordinate is read by cutting a text at its colons and trimming what stands between them. So the
two or three parts of a coordinate that was read are not empty, have no colon and no blank at an
end, and of parts like these the text of a coordinate is put together in a way that reading takes
apart again. Coordinates that were read are therefore told apart by their texts, and no two
libraries of a workspace print the same line of its manifest.
-/

namespace Carve.Coordinate

open Text

/-- Something is written, without a colon and without a blank at either end. -/
structure IsPart (s : String) : Prop where
  written : s ≠ ""
  colonless : ':' ∉ s.toList
  first : ∀ c ∈ s.toList.head?, isBlank c = false
  last : ∀ c ∈ s.toList.getLast?, isBlank c = false

/-- The parts in the order in which they are written. -/
def parts (c : Coordinate) : List String := c.group :: c.artifact :: c.version.toList

variable {s t : String} {c d : Coordinate}

theorem exists_parts_eq_iff {ss : List String} :
    (∃ c : Coordinate, ss = c.parts) ↔ ss.length = 2 ∨ ss.length = 3 := by
  constructor
  · rintro ⟨⟨group, artifact, version⟩, rfl⟩
    cases version <;> simp [parts]
  · rintro (h | h)
    · obtain ⟨group, artifact, rfl⟩ := List.length_eq_two.mp h
      exact ⟨⟨group, artifact, none⟩, rfl⟩
    · obtain ⟨group, artifact, version, rfl⟩ := List.length_eq_three.mp h
      exact ⟨⟨group, artifact, some version⟩, rfl⟩

theorem text_eq_joined (c : Coordinate) : c.text = joined ":" c.parts := by
  obtain ⟨group, artifact, version⟩ := c
  rw [← String.toList_inj]
  cases version <;> simp [text, parts, joined, join]

/-- Two or three parts are taken for those of a coordinate unless one of them is empty. -/
theorem ofParts_eq_some_iff {ss : List String} :
    ofParts ss = some c ↔ ss = c.parts ∧ ∀ p ∈ ss, p ≠ "" := by
  constructor
  · intro h
    unfold ofParts at h
    split at h
    · split at h
      · cases h
      · obtain rfl := Option.some.inj h
        simp_all [parts]
    · split at h
      · cases h
      · obtain rfl := Option.some.inj h
        simp_all [parts]
    · cases h
  · rintro ⟨rfl, hwritten⟩
    obtain ⟨group, artifact, version⟩ := c
    cases version <;> simp_all [ofParts, parts]

theorem parse_eq_ok_iff :
    parse s = .ok c ↔ (Text.parts ':' s).map trimmed = c.parts ∧ ∀ p ∈ c.parts, p ≠ "" := by
  have hparse : parse s = .ok c ↔ parse? s = some c := by
    unfold parse
    cases parse? s <;> simp
  rw [hparse, parse?, ofParts_eq_some_iff]
  exact and_congr_right fun h => by rw [h]

/-! ### Parts -/

theorem IsPart.trimmed_eq (h : IsPart s) : trimmed s = s := by
  rw [trimmed, trim_of_ends h.first h.last, String.ofList_toList]

theorem isPart_trimmed (hcolon : ':' ∉ s.toList) (h : trimmed s ≠ "") : IsPart (trimmed s) := by
  have htext : (trimmed s).toList = trim s.toList := String.toList_ofList
  refine ⟨h, ?_, ?_, ?_⟩
  · rw [htext]
    exact fun hmem => hcolon ((trim_inside _).subset hmem)
  · rw [htext]
    exact sharp_trim _
  · rw [htext]
    exact fun _ => isBlank_last_trim

theorem colonless_of_mem_parts {p : String} (h : p ∈ Text.parts ':' s) : ':' ∉ p.toList := by
  obtain ⟨cs, hcs, rfl⟩ := List.mem_map.mp h
  rw [String.toList_ofList]
  exact not_mem_of_mem_split cs hcs

theorem trimmed_ne_empty_iff : trimmed s ≠ "" ↔ ∃ c ∈ s.toList, isBlank c = false := by
  rw [Ne, ← String.toList_inj, trimmed, String.toList_ofList]
  show ¬ trim s.toList = [] ↔ _
  rw [trim_eq_nil_iff]
  simp

theorem isPart_of_parse (h : parse s = .ok c) : ∀ p ∈ c.parts, IsPart p := by
  obtain ⟨hparts, hwritten⟩ := parse_eq_ok_iff.mp h
  intro p hp
  obtain ⟨q, hq, rfl⟩ := List.mem_map.mp (hparts ▸ hp)
  exact isPart_trimmed (colonless_of_mem_parts hq) (hwritten _ hp)

/-! ### Texts -/

/-- The text of a coordinate is cut where it was put together. -/
theorem parts_text (h : ∀ p ∈ c.parts, IsPart p) : Text.parts ':' c.text = c.parts := by
  rw [text_eq_joined]
  exact parts_joined rfl (List.cons_ne_nil _ _) fun p hp => (h p hp).colonless

theorem parse_text (h : ∀ p ∈ c.parts, IsPart p) : parse c.text = .ok c := by
  have htrimmed : c.parts.map trimmed = c.parts :=
    List.map_congr_left (fun p hp => (h p hp).trimmed_eq) |>.trans (List.map_id _)
  rw [parse_eq_ok_iff, parts_text h, htrimmed]
  exact ⟨rfl, fun p hp => (h p hp).written⟩

theorem parse_eq_ok_exists_iff : (∃ c, parse s = .ok c) ↔
    ((Text.parts ':' s).length = 2 ∨ (Text.parts ':' s).length = 3) ∧
      ∀ p ∈ Text.parts ':' s, ∃ ch ∈ p.toList, isBlank ch = false := by
  have hlength : ((Text.parts ':' s).map trimmed).length = (Text.parts ':' s).length :=
    List.length_map _
  have hwritten : (∀ p ∈ (Text.parts ':' s).map trimmed, p ≠ "") ↔
      ∀ p ∈ Text.parts ':' s, ∃ ch ∈ p.toList, isBlank ch = false := by
    rw [List.forall_mem_map]
    exact forall₂_congr fun p _ => trimmed_ne_empty_iff
  rw [← hlength, ← exists_parts_eq_iff, ← hwritten, ← exists_and_right]
  refine exists_congr fun c => ?_
  rw [parse_eq_ok_iff]
  exact and_congr_right fun h => by rw [h]

theorem text_inj (hc : parse s = .ok c) (hd : parse t = .ok d) (h : c.text = d.text) : c = d := by
  have hsame : parse c.text = .ok d := h ▸ parse_text (isPart_of_parse hd)
  exact Except.ok.inj ((parse_text (isPart_of_parse hc)).symm.trans hsame)

theorem manifest_eq_join (w : Workspace) :
    w.manifest = String.join ((w.libraries.map text).map (· ++ "\n")) := by
  rw [Workspace.manifest, List.map_map]
  rfl

/-- Reading a coordinate and writing it are inverse to each other. What can be read are the texts
with one or two colons that have something other than blanks before, between and behind them. The
lines of a manifest are the texts of the libraries, so they differ where the libraries do. -/
theorem read_coordinates_round_trip :
    (∀ s c, parse s = .ok c → (∀ p ∈ c.parts, IsPart p) ∧ parse c.text = .ok c) ∧
      (∀ s, (∃ c, parse s = .ok c) ↔
        ((Text.parts ':' s).length = 2 ∨ (Text.parts ':' s).length = 3) ∧
          ∀ p ∈ Text.parts ':' s, ∃ ch ∈ p.toList, isBlank ch = false) ∧
      (∀ s t c d, parse s = .ok c → parse t = .ok d → c.text = d.text → c = d) ∧
      ∀ w : Workspace, w.libraries.Nodup → (∀ c ∈ w.libraries, ∃ s, parse s = .ok c) →
        w.manifest = String.join ((w.libraries.map text).map (· ++ "\n")) ∧
          (w.libraries.map text).Nodup := by
  refine ⟨fun s c h => ⟨isPart_of_parse h, parse_text (isPart_of_parse h)⟩,
    fun s => parse_eq_ok_exists_iff, fun s t c d => text_inj, fun w hnodup hread => ?_⟩
  refine ⟨manifest_eq_join w, hnodup.map_on fun c hc d hd h => ?_⟩
  obtain ⟨s, hs⟩ := hread c hc
  obtain ⟨t, ht⟩ := hread d hd
  exact text_inj hs ht h

def gear : Coordinate := ⟨"org.acme", "gear", some "5 beta"⟩

theorem gear_round_trips :
    parse " org.acme :gear\t: 5 beta " = .ok gear ∧ parse gear.text = .ok gear ∧
      (∀ p ∈ gear.parts, IsPart p) ∧
      ({ libraries := [gear, jdk] } : Workspace).manifest = "org.acme:gear:5 beta\njdk:java.base\n" ∧
      ([gear, jdk].map text).Nodup := by
  obtain ⟨hback, -, -, hlines⟩ := read_coordinates_round_trip
  have hgear : parse " org.acme :gear\t: 5 beta " = .ok gear := by rfl
  have hjdk : parse "jdk : java.base" = .ok jdk := by rfl
  obtain ⟨hparts, htext⟩ := hback _ _ hgear
  obtain ⟨hmanifest, hnodup⟩ := hlines { libraries := [gear, jdk] } (by decide) (by
    intro c hc
    rcases List.mem_pair.mp hc with rfl | rfl
    · exact ⟨_, hgear⟩
    · exact ⟨_, hjdk⟩)
  exact ⟨hgear, htext, hparts, hmanifest.trans rfl, hnodup⟩

end Carve.Coordinate
