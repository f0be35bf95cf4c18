import Carve.Proofs.Java.Lookup
import Carve.Proofs.Java.Targets
import Carve.Proofs.Path

/-!
# What is left to libraries

A name that no file declares becomes a library type. The package that it is taken from is the
written one, the platform's, or the first one imported on demand that no file belongs to. Only the
platform's can be a package of the project. A type of the project can pass for a package, by a name
written like one or in an import of its members.
-/

namespace Carve.Java

/-- Written like a package: no segment begins with a capital letter. -/
def WrittenSmall (name : String) : Prop := ∀ s ∈ Text.parts '.' name, looksLikeType s = false

instance (name : String) : Decidable (WrittenSmall name) :=
  inferInstanceAs (Decidable (∀ s ∈ Text.parts '.' name, looksLikeType s = false))

theorem splitPackage_small {qualified package rest : String}
    (h : splitPackage qualified = (some package, rest)) : WrittenSmall package := by
  have hdotless : ∀ s ∈ Text.parts '.' qualified, '.' ∉ s.toList := by
    intro s hs
    obtain ⟨cs, hcs, rfl⟩ := List.mem_map.mp hs
    rw [String.toList_ofList]
    exact Text.not_mem_of_mem_split cs hcs
  unfold splitPackage at h
  rw [List.span_eq_takeWhile_dropWhile] at h
  dsimp only at h
  split at h
  · cases h
  · rename_i hparts
    have hfront : (Text.parts '.' qualified).takeWhile (!looksLikeType ·) ≠ [] := by
      intro hnil
      rw [hnil] at hparts
      exact hparts rfl
    obtain ⟨hpackage, -⟩ := Prod.mk.inj h
    obtain rfl := Option.some.inj hpackage
    intro s hs
    rw [Text.parts_joined rfl hfront fun s hs =>
      hdotless s ((List.takeWhile_prefix _).subset hs)] at hs
    simpa using List.mem_takeWhile_imp hs

section

variable (t : Table) (here : Place)

/-- The first package imported on demand that is no package of the project. -/
def widePackage? : Option String := here.imports.onDemand.find? (!t.isProjectPackage ·)

/-- How a name that no file declares comes to be one of a package. -/
inductive Arrival : String → String → Prop where
  /-- Written with its package, here or in an import. -/
  | qualified {package name : String} : WrittenSmall package →
      t.isProjectPackage package = false → Arrival package name
  /-- One of the names that need no import. -/
  | platform {name : String} : isLangType name = true → Arrival "java.lang" name
  /-- Left to an import on demand. -/
  | wide {package name : String} : widePackage? t here = some package → Arrival package name

/-- A library type has come in one of the ways of `Arrival`. -/
def TypeTarget.Arrived : TypeTarget → Prop
  | .library id _ => ∃ package name, '.' ∉ name.toList ∧ id = QName.member ⟨package⟩ name ∧
      Arrival t here package name
  | .project _ | .unknown => True

end

section

variable {t : Table} {here : Place}

theorem resolveInPackage_arrived {package : String} (hsmall : WrittenSmall package)
    (rest : String) : (resolveInPackage t package rest).Arrived t here := by
  unfold resolveInPackage
  split
  · trivial
  · split
    · trivial
    · rename_i hforeign
      have harrival : ∀ name, Arrival t here package name := fun _ =>
        .qualified hsmall (Bool.eq_false_iff.mpr hforeign)
      dsimp only
      split
      · rename_i head tail hsplit
        exact ⟨package, head, Text.splitFirst_dotless hsplit, rfl, harrival head⟩
      · rename_i hsplit
        exact ⟨package, rest, Text.not_mem_of_splitFirst hsplit, rfl, harrival rest⟩

theorem resolveSimple_arrived {name : String} (hname : '.' ∉ name.toList) :
    (resolveSimple t here name).Arrived t here := by
  unfold resolveSimple
  split
  · trivial
  · split
    · split
      · rename_i hsplit
        exact resolveInPackage_arrived (splitPackage_small hsplit) _
      · trivial
    · dsimp only
      split
      · trivial
      · split
        · rename_i hlang
          exact ⟨"java.lang", name, hname, rfl, .platform hlang⟩
        · split
          · trivial
          · split
            · rename_i package hwide
              exact ⟨package, name, hname, rfl, .wide hwide⟩
            · trivial

theorem resolveType_arrived (written : String) :
    (resolveType t here written).Arrived t here := by
  unfold resolveType
  dsimp only
  generalize stripGenerics written = name
  split
  · trivial
  · split
    · rename_i hdot
      exact resolveSimple_arrived (by simpa using hdot)
    · split
      · rename_i hsplit
        exact resolveInPackage_arrived (splitPackage_small hsplit) _
      · rename_i rest _
        have hhead : '.' ∉ ((Text.splitFirst '.' rest).getD (rest, "")).1.toList := by
          cases hsplit : Text.splitFirst '.' rest with
          | none => exact Text.not_mem_of_splitFirst hsplit
          | some pair => exact Text.splitFirst_dotless hsplit
        split
        · have hfirst : (resolveSimple t here _).Arrived t here := resolveSimple_arrived hhead
          split
          · split <;> trivial
          · exact hfirst
        · trivial

end

section

variable (files : List SourceFile)

def DeclaresPackage (package : String) : Prop := ∃ f ∈ files, f.imports.package = some package

def DeclaresType (name : String) : Prop :=
  ∃ f ∈ files, ∃ e ∈ f.entries, e.decl.kind.isType = true ∧ e.decl.id.text = name

end

theorem isProjectPackage_iff {files : List SourceFile} {catalog : Catalog} {package : String} :
    (Table.ofFiles files catalog).isProjectPackage package = true ↔
      DeclaresPackage files package := by
  rw [Table.isProjectPackage, List.contains_iff_mem, Table.mem_ofFiles_packages]
  rfl

/-- What stands before the last dot of a library type is no package of the project, unless the
project adds to `java.lang` and the name is one that every file sees. It is no type of the project
either, unless the type is named like a package or imported on demand, before any package that no
file belongs to. -/
theorem library_type_outside_project (files : List SourceFile) (catalog : Catalog) (here : Place)
    (written : String) {id : QName} {owner : Coordinate}
    (h : resolveType (.ofFiles files catalog) here written = .library id owner) :
    ∃ outer, id.qualifier? = some outer ∧
      (DeclaresPackage files outer → outer = "java.lang" ∧ isLangType id.simple = true) ∧
      (DeclaresType files outer →
        WrittenSmall outer ∨ widePackage? (.ofFiles files catalog) here = some outer) := by
  have harrived : (resolveType (.ofFiles files catalog) here written).Arrived
      (.ofFiles files catalog) here := resolveType_arrived written
  rw [h] at harrived
  obtain ⟨package, name, hname, rfl, harrival⟩ := harrived
  refine ⟨package, QName.qualifier?_member hname, ?_⟩
  rw [QName.simple_member hname]
  cases harrival with
  | qualified hsmall hforeign =>
    refine ⟨fun hpackage => ?_, fun _ => .inl hsmall⟩
    rw [isProjectPackage_iff.mpr hpackage] at hforeign
    cases hforeign
  | platform hlang => exact ⟨fun _ => ⟨rfl, hlang⟩, fun _ => .inl (by decide +kernel)⟩
  | wide hwide =>
    refine ⟨fun hpackage => ?_, fun _ => .inr hwide⟩
    have hforeign := List.find?_some hwide
    rw [isProjectPackage_iff.mpr hpackage] at hforeign
    cases hforeign

def TypeTarget.library? : TypeTarget → Option QName
  | .library id _ => some id
  | _ => none

theorem TypeTarget.library?_eq_some {target : TypeTarget} {id : QName}
    (h : target.library? = some id) : ∃ owner, target = .library id owner := by
  cases target with
  | library id' owner => exact ⟨owner, congrArg (TypeTarget.library · owner) (Option.some.inj h)⟩
  | project d => cases h
  | unknown => cases h

def boxed : SourceText :=
  { path := ⟨"src/p/Box.java"⟩
    text := "package p; class Box { static class Item { } }"
    provenance := { module := "m" } }

def packer : SourceText :=
  { path := ⟨"src/q/Packer.java"⟩
    text := "package q; import p.Box.*; import java.util.*; class Packer { List items; }"
    provenance := { module := "m" } }

/-- A type of the project whose members are imported on demand passes for the package of a list. -/
theorem box_passes_for_package :
    ∃ id owner, resolveType (.ofFiles [boxed.read, packer.read] {}) ⟨packer.read.imports, []⟩
        "List" = .library id owner ∧
      id.qualifier? = some "p.Box" ∧ DeclaresType [boxed.read, packer.read] "p.Box" ∧
      widePackage? (.ofFiles [boxed.read, packer.read] {}) ⟨packer.read.imports, []⟩ =
        some "p.Box" := by
  have hlibrary : (resolveType (.ofFiles [boxed.read, packer.read] {}) ⟨packer.read.imports, []⟩
      "List").library? = some ⟨"p.Box.List"⟩ := by decide +kernel
  obtain ⟨owner, h⟩ := TypeTarget.library?_eq_some hlibrary
  obtain ⟨outer, houter, -, htype⟩ := library_type_outside_project _ _ _ _ h
  have hbox : QName.qualifier? ⟨"p.Box.List"⟩ = some "p.Box" := by decide +kernel
  obtain rfl := Option.some.inj (houter.symm.trans hbox)
  have hdeclared : ∃ e ∈ boxed.read.entries, e.decl.kind.isType = true ∧
      e.decl.id.text = "p.Box" := by decide +kernel
  have hdeclares : DeclaresType [boxed.read, packer.read] "p.Box" :=
    ⟨boxed.read, List.mem_cons_self, hdeclared⟩
  exact ⟨_, owner, h, hbox, hdeclares, (htype hdeclares).resolve_left (by decide +kernel)⟩

end Carve.Java
