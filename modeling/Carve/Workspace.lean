import Carve.Coordinate
import Carve.Path
/-!
A workspace: files by relative path, in order, and the libraries they need. Two spellings of one
path are one file, which keeps the first spelling and its place and takes the last text.
-/

namespace Carve

structure Workspace where
  files : List (Path × String) := []
  libraries : List Coordinate := []
  apart : files.Pairwise fun f g => ¬ f.1.Same g.1 := by simp
  deriving DecidableEq, Repr

namespace Workspace

def putFile (p : Path) (text : String) : List (Path × String) → List (Path × String)
  | [] => [(p, text)]
  | (q, old) :: rest =>
    if q.Same p then (q, text) :: rest else (q, old) :: putFile p text rest

theorem path_of_mem_putFile {p : Path} {text : String} {fs : List (Path × String)}
    {f : Path × String} (hf : f ∈ putFile p text fs) : f.1 = p ∨ ∃ g ∈ fs, g.1 = f.1 := by
  induction fs with
  | nil =>
    rw [List.mem_singleton.mp hf]
    exact .inl rfl
  | cons h fs ih =>
    obtain ⟨q, old⟩ := h
    unfold putFile at hf
    split at hf
    · rcases List.mem_cons.mp hf with rfl | hf
      · exact .inr ⟨(q, old), List.mem_cons_self, rfl⟩
      · exact .inr ⟨f, List.mem_cons_of_mem _ hf, rfl⟩
    · rcases List.mem_cons.mp hf with rfl | hf
      · exact .inr ⟨(q, old), List.mem_cons_self, rfl⟩
      · exact (ih hf).imp_right fun ⟨g, hg, hpath⟩ => ⟨g, List.mem_cons_of_mem _ hg, hpath⟩

theorem apart_putFile {fs : List (Path × String)} (h : fs.Pairwise fun f g => ¬ f.1.Same g.1)
    (p : Path) (text : String) : (putFile p text fs).Pairwise fun f g => ¬ f.1.Same g.1 := by
  induction fs with
  | nil => exact List.pairwise_singleton _ _
  | cons f fs ih =>
    obtain ⟨q, old⟩ := f
    obtain ⟨hfirst, hrest⟩ := List.pairwise_cons.mp h
    unfold putFile
    split
    · exact .cons hfirst hrest
    · rename_i hother
      refine .cons (fun g hg => ?_) (ih hrest)
      rcases path_of_mem_putFile hg with hnew | ⟨g', hg', hpath⟩
      · rwa [hnew]
      · exact hpath ▸ hfirst g' hg'

def put (w : Workspace) (p : Path) (text : String) : Workspace :=
  { w with files := putFile p text w.files, apart := apart_putFile w.apart p text }

def get? (w : Workspace) (p : Path) : Option (Path × String) :=
  w.files.find? fun f => decide (f.1.Same p)

def ofFiles (files : List (Path × String)) (libraries : List Coordinate) : Workspace :=
  files.foldl (fun w f => w.put f.1 f.2) { libraries }

def manifestName : String := "libraries.txt"

def manifest (w : Workspace) : String :=
  String.join (w.libraries.map fun c => c.text ++ "\n")

end Workspace

/-- A path that stays below the directory it is joined to. -/
def Path.isContained (p : Path) : Bool :=
  p.components.all fun
    | .name _ | .current => true
    | .root | .up => false

end Carve
