import Carve.Extract
import Carve.Proofs.Closure.Grades
import Carve.Proofs.Closure.Rounds
import Mathlib.Data.List.Induction

/-!
# The libraries of a closure

A library is taken down when the first of its types is admitted and remarked upon in the same
moment. Between any two steps of a search its list, its remarks and its nodes therefore tell the
same libraries in the same order, each once. The workspace goes through the members once more and
picks those that stay outside, which are the library types among them.
-/

namespace Carve

def Diagnostic.library? : Diagnostic → Option Coordinate
  | libraryLeft library => some library
  | _ => none

theorem Diagnostic.library?_eq_some {e : Diagnostic} {c : Coordinate} :
    e.library? = some c ↔ e = libraryLeft c := by
  cases e <;> simp [library?]

namespace Closure

variable {p : Policy} {x : Index} {root : Declaration}

section

variable {α : Type} [DecidableEq α]

theorem addNew_eraseDups (xs : List α) (a : α) :
    addNew xs.eraseDups a = (xs ++ [a]).eraseDups := by
  have hsingle : [a].eraseDups = [a] := by simp [List.eraseDups_cons]
  rw [List.eraseDups_append]
  unfold addNew
  by_cases ha : a ∈ xs <;> simp [ha, List.removeAll, hsingle]

theorem foldl_addNew (as : List α) (xs : List α) :
    as.foldl addNew xs.eraseDups = (xs ++ as).eraseDups := by
  induction as generalizing xs with
  | nil => simp
  | cons a as ih =>
    rw [List.foldl_cons, addNew_eraseDups, ih, List.append_assoc, List.singleton_append]

theorem nodup_eraseDups (xs : List α) : xs.eraseDups.Nodup := by
  induction xs using List.reverseRecOn with
  | nil => simp
  | append_singleton xs a ih => exact addNew_eraseDups xs a ▸ nodup_addNew ih a

end

def librariesIn (ns : List Admitted) : List Coordinate :=
  (ns.filterMap (·.decl.origin.coordinate?)).eraseDups

theorem mem_librariesIn {ns : List Admitted} {l : Coordinate} :
    l ∈ librariesIn ns ↔ ∃ a ∈ ns, a.decl.origin.coordinate? = some l := by
  simp [librariesIn]

theorem library?_note_other (s : Search) {e : Diagnostic} (he : e.library? = none) :
    (s.note e).diagnostics.filterMap (·.library?) = s.diagnostics.filterMap (·.library?) := by
  show (addNew s.diagnostics e).filterMap _ = _
  unfold addNew
  split <;> simp [he]

theorem library?_note_library (s : Search) (c : Coordinate) :
    (s.note (.libraryLeft c)).diagnostics.filterMap (·.library?) =
      addNew (s.diagnostics.filterMap (·.library?)) c := by
  have hmem : .libraryLeft c ∈ s.diagnostics ↔ c ∈ s.diagnostics.filterMap (·.library?) := by
    simp [Diagnostic.library?_eq_some]
  show (addNew s.diagnostics _).filterMap _ = _
  unfold addNew
  by_cases h : .libraryLeft c ∈ s.diagnostics
  · rw [if_pos h, if_pos (hmem.mp h)]
  · rw [if_neg h, if_neg (mt hmem.mpr h), List.filterMap_append]
    rfl

/-- The list of libraries and the remarks on them say what the nodes say. -/
structure Registered (s : Search) : Prop where
  libraries : s.libraries = librariesIn s.nodes
  remarks : s.diagnostics.filterMap (·.library?) = librariesIn s.nodes

namespace Registered

variable {s : Search}

theorem note (h : Registered s) {e : Diagnostic} (he : e.library? = none) :
    Registered (s.note e) :=
  ⟨h.libraries, (library?_note_other s he).trans h.remarks⟩

theorem enter (h : Registered s) (b : Admitted) : Registered (s.enter b) := by
  have hnodes : librariesIn (s.enter b).nodes = b.decl.origin.coordinate?.elim
      (librariesIn s.nodes) (addNew (librariesIn s.nodes)) := by
    rw [Search.enter_nodes, librariesIn, List.filterMap_append]
    cases hc : b.decl.origin.coordinate? with
    | none => simp [hc, librariesIn]
    | some c =>
      rw [List.filterMap_cons_some (f := fun a : Admitted => a.decl.origin.coordinate?) hc]
      exact (addNew_eraseDups _ c).symm
  unfold Search.enter at hnodes ⊢
  cases hc : b.decl.origin.coordinate? with
  | none =>
    rw [hc] at hnodes
    exact ⟨h.libraries.trans hnodes.symm, h.remarks.trans hnodes.symm⟩
  | some c =>
    rw [hc] at hnodes
    refine ⟨Eq.trans ?_ hnodes.symm, Eq.trans ?_ hnodes.symm⟩
    · exact congrArg (addNew · c) h.libraries
    · exact (library?_note_library s c).trans (congrArg (addNew · c) h.remarks)

theorem follow (h : Registered s) (a : Admitted) (r : Reference) :
    Registered (follow p x a s r) := by
  have hf := follow_follows (p := p) (x := x) a s r
  generalize Closure.follow p x a s r = s' at hf ⊢
  cases hf with
  | nameless => exact h.note rfl
  | own => exact h
  | known => exact ⟨h.libraries, h.remarks⟩
  | absent => exact h.note rfl
  | barred d e _ _ _ _ hb => exact h.note (by rcases cut_of_barrier hb with rfl | rfl <;> rfl)
  | admitted d => exact Registered.enter (s := s.reach d.id r.kind) ⟨h.libraries, h.remarks⟩ _

theorem followNode (h : Registered s) (a : Admitted) : Registered (followNode p x s a) := by
  have hall : ∀ (rs : List Reference) (s' : Search), Registered s' →
      Registered (rs.foldl (Closure.follow p x a) s') := by
    intro rs
    induction rs with
    | nil => exact fun _ hs => hs
    | cons r rs ih => exact fun _ hs => ih _ (hs.follow a r)
  have hstart : Registered { s with followed := s.followed + 1 } := ⟨h.libraries, h.remarks⟩
  unfold Closure.followNode
  split
  · exact hstart
  · exact hall _ _ hstart

theorem bring (h : Registered s) (more : List Admitted) :
    Registered (more.foldl Search.enter s) := by
  induction more generalizing s with
  | nil => exact h
  | cons b more ih => exact ih (h.enter b)

end Registered

theorem registered_searchOf (hx : x.Distinct) (hroot : x.get? root.id = some root)
    (hp : root.isLibrary = false) : Registered (searchOf p x root) :=
  searchOf_preserves hx hroot hp (fun _ a _ _ h => h.followNode a) (fun _ _ _ h => h.bring _)
    (Registered.enter ⟨rfl, rfl⟩ _)

theorem inclusion_eq_external {s : Search} {id : QName} {d : Declaration} :
    inclusion p s id d = .external ↔ d.isLibrary = true := by
  have hstub : 1 ≤ (p.inclusionForAll (s.kindsInto d.id)).rank :=
    (Inclusion.le_rank_foldl_dominant _ _ 1).mpr (Or.inl (Nat.le_refl 1))
  unfold inclusion
  cases hl : d.isLibrary with
  | true => simp
  | false =>
    simp only [Bool.false_eq_true, if_false, iff_false]
    split
    · exact nofun
    · intro he
      rw [he] at hstub
      exact absurd hstub (by decide)

theorem coordinate?_of_project {d : Declaration} (h : d.isLibrary = false) :
    d.origin.coordinate? = none := by
  unfold Declaration.isLibrary at h
  cases ho : d.origin with
  | project => rfl
  | library => simp [ho, Origin.isLibrary] at h

theorem coordinate?_of_inclusion (id : QName) (s : Search) (d : Declaration) :
    (match inclusion p s id d with
      | .external => d.origin.coordinate?
      | _ => none) = d.origin.coordinate? := by
  split
  · rfl
  · rename_i hi
    rw [coordinate?_of_project]
    exact Bool.eq_false_iff.mpr fun hl => hi (inclusion_eq_external.mpr hl)

/-- The workspace finds the libraries once more among the members. -/
theorem librariesOf_ofSearch (id : QName) (s : Search) :
    Extraction.librariesOf (ofSearch p id s).members = librariesIn s.nodes := by
  unfold Extraction.librariesOf librariesIn ofSearch
  rw [List.filterMap_map]
  have hfold := foldl_addNew (s.nodes.filterMap (·.decl.origin.coordinate?)) []
  rw [List.eraseDups_nil, List.nil_append] at hfold
  rw [← hfold]
  congr 2
  exact funext fun a : Admitted => coordinate?_of_inclusion id s a.decl

theorem workspace_libraries {c : Closure} {e : Extraction} {w : Writer} {ws : Workspace}
    (h : c.workspace e w x = .ok ws) : ws.libraries = Extraction.librariesOf c.members := by
  have hput : ∀ (files : List (Path × String)) (ws : Workspace),
      (files.foldl (fun ws f => ws.put f.1 f.2) ws).libraries = ws.libraries := by
    intro files
    induction files with
    | nil => exact fun _ => rfl
    | cons f files ih => exact fun ws => ih (ws.put f.1 f.2)
  unfold workspace at h
  cases hsels : Extraction.selections c.members with
  | error => simp [hsels, bind, Except.bind] at h
  | ok sels =>
    simp only [hsels, bind, Except.bind] at h
    split at h
    · cases h
    · obtain rfl := Except.ok.inj h
      exact hput _ _

/-- Whatever index was built, the libraries of a closure are those of its library types in the
order of the members, each once; the remarks on libraries name them in this order, and whatever
workspace is made of the closure lists them in this order. -/
theorem library_lists_agree (root : Path) (ops : List Index.Operation) (p : Policy)
    (name : String) (c : Closure) (hc : resolve p (Index.build root ops) name = .ok c) :
    c.libraries = (c.members.filterMap (·.decl.origin.coordinate?)).eraseDups ∧
      c.diagnostics.filterMap (·.library?) = c.libraries ∧ c.libraries.Nodup ∧
      ∀ (e : Extraction) (w : Writer) (ws : Workspace),
        c.workspace e w (Index.build root ops) = .ok ws → ws.libraries = c.libraries := by
  have hx := Index.build_distinct root ops
  obtain ⟨d, hd, hp⟩ := exists_of_resolve hc
  obtain ⟨-, hid⟩ := Index.get?_some hd
  have hroot : (Index.build root ops).get? d.id = some d := hid ▸ hd
  obtain rfl := Except.ok.inj ((resolve_eq_searchOf (p := p) hx hd hp).1.symm.trans hc)
  have hregistered := registered_searchOf (p := p) hx hroot hp
  have hlist : (ofSearch p d.id (searchOf p (Index.build root ops) d)).libraries =
      librariesIn (searchOf p (Index.build root ops) d).nodes := hregistered.libraries
  refine ⟨?_, ?_, ?_, fun e w ws hws => ?_⟩
  · rw [hlist, librariesIn, ofSearch, List.filterMap_map]
    rfl
  · rw [hlist]
    exact hregistered.remarks
  · rw [hlist]
    exact nodup_eraseDups _
  · rw [hlist, workspace_libraries hws, librariesOf_ofSearch]

section Desk

def deskClass (name : String) : Declaration :=
  { id := ⟨"office." ++ name⟩, name, kind := .classType, origin := .project "app",
    location := some
      { path := ⟨name ++ ".java"⟩, range := ⟨0, 0, 1, 0⟩, layout := { own := { span := ⟨0, 9⟩ } } } }

def deskUses (source : String) (target : QName) : Reference :=
  ⟨⟨"office." ++ source⟩, some target, .typeUse, target.simple, none⟩

def deskOperations : List Index.Operation :=
  [.unit { path := ⟨"Desk.java"⟩, text := "class Desk { }", topLevel := [⟨"office.Desk"⟩] },
    .unit { path := ⟨"Lamp.java"⟩, text := "class Lamp { }", topLevel := [⟨"office.Lamp"⟩] },
    .declaration (deskClass "Desk"), .declaration (deskClass "Lamp"),
    .declaration (.library ⟨"log.Log"⟩ ⟨"log", "log", none⟩),
    .declaration (.library ⟨"log.Level"⟩ ⟨"log", "log", none⟩),
    .declaration (.library ⟨"json.Json"⟩ ⟨"json", "json", none⟩),
    .references ⟨"office.Desk"⟩ [deskUses "Desk" ⟨"json.Json"⟩, deskUses "Desk" ⟨"office.Lamp"⟩,
      deskUses "Desk" ⟨"log.Log"⟩],
    .references ⟨"office.Lamp"⟩ [deskUses "Lamp" ⟨"log.Level"⟩, deskUses "Lamp" ⟨"json.Json"⟩]]

def deskIndex : Index := Index.build ⟨"/"⟩ deskOperations

def deskWriter : Writer := ⟨fun unit => unit.path, fun unit _ _ => unit.text⟩

theorem desk_library_lists_agree :
    ∃ c ws, resolve {} deskIndex "office.Desk" = .ok c ∧
      c.workspace {} deskWriter deskIndex = .ok ws ∧
      c.libraries = [⟨"json", "json", none⟩, ⟨"log", "log", none⟩] ∧
      c.libraries = (c.members.filterMap (·.decl.origin.coordinate?)).eraseDups ∧
      c.diagnostics.filterMap (·.library?) = c.libraries ∧ c.libraries.Nodup ∧
      ws.libraries = c.libraries := by
  have hc : resolve {} deskIndex "office.Desk" = .ok _ := rfl
  obtain ⟨hlist, hremarks, honce, hworkspace⟩ :=
    library_lists_agree ⟨"/"⟩ deskOperations {} "office.Desk" _ hc
  refine ⟨_, _, hc, rfl, rfl, hlist, hremarks, honce, hworkspace {} deskWriter _ rfl⟩

end Desk

end Closure

end Carve
