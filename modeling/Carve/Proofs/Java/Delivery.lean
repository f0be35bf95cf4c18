import Carve.Proofs.Java.Addresses
import Carve.Proofs.Workspace.Writing

/-!
# All or nothing

The workspace of a closure of Java sources is written to a directory as a whole or not at all. This
holds for target paths that go up only from directories that are there, and not from the target
itself; by other paths the way that is made to the target changes where they lead.
-/

namespace Carve.Java

open Workspace (Delivered Untouched Admits manifestName)

/-- If a workspace is written, the target was absent or empty, it holds the files of the workspace
and the list of its libraries and nothing else, and elsewhere there is nothing new but directories
on the way to it. If it is not written, nothing is new but directories on the way to a target that
was absent and still is. Where no file is in the way of the target, and the source root does not
begin with the name of the list, it is written unless the target holds something or a file would
come to stand outside. -/
theorem written_whole {top : Path} {sources : List SourceText} {catalog : Catalog}
    {e : Extraction} {c : Closure} {w : Workspace}
    (hw : c.workspace e writer (Index.ofSources top sources catalog) = .ok w)
    {d : Disk} (hd : d.Closed) (hhere : d.get? d.here = some .directory) (target : Path)
    (hsteady : d.Steady target) :
    (∀ d', (w.writeTo target).outcome d = (.ok (), d') → Delivered w d target d') ∧
    (∀ fault d', (w.writeTo target).outcome d = (.error fault, d') → Untouched d target d') ∧
    (Admits d target → e.sourceRoot.names.head? ≠ some manifestName →
      ((w.writeTo target).outcome d).1 = w.verdict d target) := by
  obtain ⟨horder, haddressed⟩ := workspace_orderly hw
  have hown : ∀ f ∈ w.files, f.1.names ≠ [manifestName] := by
    intro f hf
    obtain ⟨dirs, name, h⟩ := haddressed f hf
    exact h.names_ne
  refine ⟨fun d' hrun => ?_, fun fault d' hrun => ?_, fun hadmits hroot => ?_⟩
  · exact (Workspace.writeTo_outcome hd hhere hsteady horder hown hrun).1 rfl
  · exact (Workspace.writeTo_outcome hd hhere hsteady horder hown hrun).2.1 fault rfl
  · refine (Workspace.writeTo_outcome hd hhere hsteady horder hown (Prod.mk.eta).symm).2.2 hadmits ?_
    intro f hf
    obtain ⟨dirs, name, h⟩ := haddressed f hf
    exact h.clear_of_list hroot

def parcel : List SourceText :=
  [{ path := ⟨"src/main/java/p/T.java"⟩
     text := "package p; class T \x7b \x7d"
     provenance := { module := "m" } }]

def depot : Disk where
  entries := [(["out"], .directory), (["out", "keep.txt"], .file (.text "kept"))]

/-- Beside what is there the parcel is written in a directory of its own. -/
theorem parcel_written :
    ∃ c w d', Closure.resolve {} (Index.ofSources ⟨"/"⟩ parcel {}) "p.T" = .ok c ∧
      c.workspace {} writer (Index.ofSources ⟨"/"⟩ parcel {}) = .ok w ∧
      (w.writeTo ⟨"out/parcel"⟩).outcome depot = (.ok (), d') ∧
      Delivered w depot ⟨"out/parcel"⟩ d' := by
  have hverdict : ((Closure.resolve {} (Index.ofSources ⟨"/"⟩ parcel {}) "p.T").toOption.bind
      fun c => (c.workspace {} writer (Index.ofSources ⟨"/"⟩ parcel {})).toOption.bind
      fun w => (w.verdict depot ⟨"out/parcel"⟩).toOption) = some () := by decide +kernel
  obtain ⟨c, hc, hverdict⟩ := Option.bind_eq_some_iff.mp hverdict
  obtain ⟨w, hw, hverdict⟩ := Option.bind_eq_some_iff.mp hverdict
  have hc := Extraction.eq_ok_of_toOption hc
  have hw := Extraction.eq_ok_of_toOption hw
  have hsteady : depot.Steady ⟨"out/parcel"⟩ := by decide
  obtain ⟨hok, -, hgranted⟩ := written_whole hw (d := depot) (by decide) rfl ⟨"out/parcel"⟩ hsteady
  have hrun := (hgranted (by decide) (by decide)).trans (Extraction.eq_ok_of_toOption hverdict)
  refine ⟨c, w, _, hc, hw, Prod.ext hrun rfl, hok _ (Prod.ext hrun rfl)⟩

/-- The way to this target is made before a file of the workspace is refused. It leads to a
directory that was there all the while, and the target, which was not to be found before, is found
now and holds something. -/
theorem target_appears :
    ∃ c w, Closure.resolve {} (Index.ofSources ⟨"/"⟩ parcel {}) "p.T" = .ok c ∧
      c.workspace { sourceRoot := ⟨".."⟩ } writer (Index.ofSources ⟨"/"⟩ parcel {}) = .ok w ∧
      (∃ fault, ((w.writeTo ⟨"out/new/.."⟩).outcome depot).1 = .error fault) ∧
      depot.isPresent ⟨"out/new/.."⟩ = false ∧
      ((w.writeTo ⟨"out/new/.."⟩).outcome depot).2.isPresent ⟨"out/new/.."⟩ = true ∧
      ((w.writeTo ⟨"out/new/.."⟩).outcome depot).2.isPresent ⟨"out/new/../keep.txt"⟩ = true := by
  have hfacts : ((Closure.resolve {} (Index.ofSources ⟨"/"⟩ parcel {}) "p.T").toOption.bind fun c =>
      (c.workspace { sourceRoot := ⟨".."⟩ } writer (Index.ofSources ⟨"/"⟩ parcel {})).toOption.map
      fun w =>
        let run := (w.writeTo ⟨"out/new/.."⟩).outcome depot
        (run.1.toOption, run.2.isPresent ⟨"out/new/.."⟩, run.2.isPresent ⟨"out/new/../keep.txt"⟩)) =
      some (none, true, true) := by decide +kernel
  obtain ⟨c, hc, hfacts⟩ := Option.bind_eq_some_iff.mp hfacts
  obtain ⟨w, hw, hfacts⟩ := Option.map_eq_some_iff.mp hfacts
  obtain ⟨hfault, hfacts⟩ := Prod.mk.inj hfacts
  obtain ⟨htarget, hinside⟩ := Prod.mk.inj hfacts
  refine ⟨c, w, Extraction.eq_ok_of_toOption hc, Extraction.eq_ok_of_toOption hw, ?_, by decide,
    htarget, hinside⟩
  cases hrun : ((w.writeTo ⟨"out/new/.."⟩).outcome depot).1 with
  | error fault => exact ⟨fault, rfl⟩
  | ok =>
    rw [hrun] at hfault
    cases hfault

end Carve.Java
