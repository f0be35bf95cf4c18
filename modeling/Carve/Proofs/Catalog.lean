import Carve.Catalog
import Carve.Proofs.QName
import Mathlib.Data.List.Induction

/-!
# The most specific owner

A catalog keeps its claims sorted by length, and claims of one length in the order of the settings.
All claims that cover a package are beginnings of its name, so that no two different ones have the
same length: the first claim that covers a package is the longest one, and of several spellings of
it the one that the settings list first.
-/

namespace Carve.Catalog

/-- The package is the claimed one or lies below it. -/
def Covers (claimed package : String) : Prop :=
  package = claimed ∨ ∃ rest, package = claimed ++ "." ++ rest

theorem covers_iff {claimed package : String} :
    covers claimed package = true ↔ Covers claimed package := by
  have hbelow : (∃ rest : String, package = claimed ++ "." ++ rest) ↔
      ∃ cs, package.toList = claimed.toList ++ '.' :: cs := by
    constructor
    · rintro ⟨rest, rfl⟩
      exact ⟨rest.toList, by simp⟩
    · rintro ⟨cs, hcs⟩
      exact ⟨String.ofList cs, String.toList_inj.mp (by simp [hcs])⟩
  rw [Covers, hbelow]
  unfold covers
  split
  · rename_i hstrip
    have hsame : package.toList = claimed.toList := by
      simpa using Text.stripStart_eq_some.mp hstrip
    exact iff_of_true rfl (Or.inl (String.toList_inj.mp hsame))
  · rename_i c cs hstrip
    have hlist := Text.stripStart_eq_some.mp hstrip
    rw [beq_iff_eq]
    constructor
    · rintro rfl
      exact Or.inr ⟨cs, hlist⟩
    · rintro (rfl | ⟨rest, hrest⟩)
      · simp at hlist
      · rw [hlist] at hrest
        exact (List.cons.inj (List.append_cancel_left hrest)).1
  · rename_i hstrip
    refine iff_of_false Bool.false_ne_true ?_
    have hnone : ∀ cs, package.toList ≠ claimed.toList ++ cs := by
      intro cs hcs
      rw [Text.stripStart_eq_some.mpr hcs] at hstrip
      cases hstrip
    rintro (rfl | ⟨rest, hrest⟩)
    · exact hnone [] (by simp)
    · exact hnone _ hrest

theorem Covers.isPrefix {claimed package : String} (h : Covers claimed package) :
    claimed.toList <+: package.toList := by
  rcases h with rfl | ⟨rest, rfl⟩
  · exact List.prefix_rfl
  · exact ⟨'.' :: rest.toList, by simp⟩

/-! ### Packages as they are written -/

/-- The written text without the stars that may follow the package. -/
structure Unstarred (written package : String) : Prop where
  stars : ∃ n, written.toList = package.toList ++ (List.replicate n ['.', '*']).flatten
  bare : ∀ front, package.toList ≠ front ++ ['.', '*']

theorem dropStars_stars (cs : List Char) :
    ∃ n, cs = (List.replicate n ['*', '.']).flatten ++ dropStars cs := by
  fun_induction dropStars cs with
  | case1 rest ih =>
    obtain ⟨n, hn⟩ := ih
    refine ⟨n + 1, ?_⟩
    rw [List.replicate_succ, List.flatten_cons, List.append_assoc, ← hn]
    rfl
  | case2 cs => exact ⟨0, rfl⟩

theorem dropStars_bare (cs rest : List Char) : dropStars cs ≠ '*' :: '.' :: rest := by
  fun_induction dropStars cs with
  | case1 rest ih => exact ih
  | case2 cs hbare => exact fun h => hbare rest h

theorem dropStars_append {cs : List Char} (hbare : ∀ rest, cs ≠ '*' :: '.' :: rest) (n : Nat) :
    dropStars ((List.replicate n ['*', '.']).flatten ++ cs) = cs := by
  induction n with
  | zero =>
    show dropStars cs = cs
    unfold dropStars
    split
    · rename_i rest
      exact absurd rfl (hbare rest)
    · rfl
  | succ n ih =>
    rw [List.replicate_succ, List.flatten_cons, List.append_assoc]
    exact ih

theorem reverse_stars (n : Nat) :
    (List.replicate n ['.', '*']).flatten.reverse = (List.replicate n ['*', '.']).flatten := by
  simp [List.reverse_flatten]

theorem unstarred_iff {written package : String} :
    Unstarred written package ↔ packageOf written = package := by
  constructor
  · rintro ⟨⟨n, hn⟩, hbare⟩
    have hbare' : ∀ rest, package.toList.reverse ≠ '*' :: '.' :: rest := by
      intro rest h
      refine hbare rest.reverse ?_
      rw [← List.reverse_reverse package.toList, h]
      simp
    rw [packageOf, hn, List.reverse_append, reverse_stars, dropStars_append hbare',
      List.reverse_reverse, String.ofList_toList]
  · rintro rfl
    obtain ⟨n, hn⟩ := dropStars_stars written.toList.reverse
    refine ⟨⟨n, ?_⟩, fun front h => ?_⟩
    · rw [← reverse_stars] at hn
      rw [packageOf, String.toList_ofList, ← List.reverse_reverse written.toList]
      conv_lhs => rw [hn]
      simp
    · refine dropStars_bare written.toList.reverse front.reverse ?_
      rw [packageOf, String.toList_ofList] at h
      rw [← List.reverse_reverse (dropStars _), h]
      simp

/-! ### Claims in order -/

/-- The longest claims come first. -/
def Sorted (cs : List Claim) : Prop := cs.Pairwise fun c d => weight d ≤ weight c

def ofWeight (n : Nat) (cs : List Claim) : List Claim := cs.filter (weight · == n)

theorem mem_place {c d : Claim} {cs : List Claim} : d ∈ place c cs ↔ d = c ∨ d ∈ cs := by
  induction cs with
  | nil => simp [place]
  | cons e es ih =>
    unfold place
    split
    · simp
    · simp only [List.mem_cons, ih]
      exact or_left_comm

theorem sorted_place {c : Claim} {cs : List Claim} (h : Sorted cs) : Sorted (place c cs) := by
  induction cs with
  | nil => exact List.pairwise_singleton _ _
  | cons e es ih =>
    obtain ⟨hhead, htail⟩ := List.pairwise_cons.mp h
    unfold place
    split
    · rename_i hlt
      refine List.pairwise_cons.mpr ⟨fun d hd => ?_, h⟩
      rcases List.mem_cons.mp hd with rfl | hd
      · exact Nat.le_of_lt hlt
      · exact Nat.le_trans (hhead d hd) (Nat.le_of_lt hlt)
    · rename_i hge
      refine List.pairwise_cons.mpr ⟨fun d hd => ?_, ih htail⟩
      rcases mem_place.mp hd with rfl | hd
      · exact Nat.not_lt.mp hge
      · exact hhead d hd

theorem ofWeight_place {c : Claim} {cs : List Claim} (h : Sorted cs) (n : Nat) :
    ofWeight n (place c cs) = ofWeight n (cs ++ [c]) := by
  induction cs with
  | nil => rfl
  | cons e es ih =>
    obtain ⟨hhead, htail⟩ := List.pairwise_cons.mp h
    unfold place
    split
    · rename_i hlt
      by_cases hn : weight c = n
      · have hnone : ofWeight n (e :: es) = [] := by
          refine List.filter_eq_nil_iff.mpr fun d hd => ?_
          have hd : weight d ≤ weight e := by
            rcases List.mem_cons.mp hd with rfl | hd
            · exact Nat.le_refl _
            · exact hhead d hd
          rw [beq_iff_eq]
          omega
        unfold ofWeight at hnone ⊢
        rw [List.filter_append, hnone, List.filter_cons, hnone]
        simp [hn]
      · simp [ofWeight, List.filter_append, List.filter_cons, hn]
    · have hrest := ih htail
      unfold ofWeight at hrest ⊢
      rw [List.cons_append, List.filter_cons, List.filter_cons, hrest]

def placed (cs : List Claim) : List Claim := cs.foldl (fun done c => place c done) []

theorem placed_concat (cs : List Claim) (c : Claim) : placed (cs ++ [c]) = place c (placed cs) := by
  simp [placed]

theorem sorted_placed (cs : List Claim) : Sorted (placed cs) := by
  induction cs using List.reverseRecOn with
  | nil => exact List.Pairwise.nil
  | append_singleton cs c ih =>
    rw [placed_concat]
    exact sorted_place ih

theorem ofWeight_placed (cs : List Claim) (n : Nat) : ofWeight n (placed cs) = ofWeight n cs := by
  induction cs using List.reverseRecOn with
  | nil => rfl
  | append_singleton cs c ih =>
    rw [placed_concat, ofWeight_place (sorted_placed cs)]
    unfold ofWeight at ih ⊢
    rw [List.filter_append, List.filter_append, ih]

theorem mem_placed {cs : List Claim} {c : Claim} : c ∈ placed cs ↔ c ∈ cs := by
  have hself : ∀ ds : List Claim, c ∈ ds ↔ c ∈ ofWeight (weight c) ds := by
    simp [ofWeight]
  rw [hself (placed cs), ofWeight_placed, ← hself]

/-! ### Claims that cover a package -/

/-- Of two beginnings of a text the one with more characters takes more bytes. -/
theorem weight_le_iff {c d : Claim} {package : String} (hc : Covers c.package package)
    (hd : Covers d.package package) :
    weight c ≤ weight d ↔ c.package.length ≤ d.package.length := by
  have hsize : ∀ {s t : String}, s.toList <+: t.toList → s.utf8ByteSize ≤ t.utf8ByteSize ∧
      s.length ≤ t.length ∧ (t.utf8ByteSize ≤ s.utf8ByteSize → t = s) := by
    rintro s t ⟨rest, hrest⟩
    obtain rfl : s ++ String.ofList rest = t := String.toList_inj.mp (by simp [hrest])
    refine ⟨by simp, by simp, fun hle => ?_⟩
    have hzero : (String.ofList rest).utf8ByteSize = 0 := by
      rw [String.utf8ByteSize_append] at hle
      omega
    rw [String.utf8ByteSize_eq_zero_iff.mp hzero, String.append_empty]
  unfold weight
  rcases List.prefix_or_prefix_of_prefix hc.isPrefix hd.isPrefix with h | h
  · exact iff_of_true (hsize h).1 (hsize h).2.1
  · constructor
    · intro hle
      exact Nat.le_of_eq (congrArg String.length ((hsize h).2.2 hle))
    · intro hle
      have hsame : d.package.toList = c.package.toList := by
        refine h.eq_of_length (Nat.le_antisymm h.length_le ?_)
        rw [String.length_toList, String.length_toList]
        exact hle
      exact Nat.le_of_eq (congrArg String.utf8ByteSize (String.toList_inj.mp hsame).symm)

theorem package_eq_of_weight {c d : Claim} {package : String} (hc : Covers c.package package)
    (hd : Covers d.package package) (h : weight c = weight d) : c.package = d.package := by
  have hlength : c.package.toList.length = d.package.toList.length := by
    rw [String.length_toList, String.length_toList]
    exact Nat.le_antisymm ((weight_le_iff hc hd).mp (Nat.le_of_eq h))
      ((weight_le_iff hd hc).mp (Nat.le_of_eq h.symm))
  rcases List.prefix_or_prefix_of_prefix hc.isPrefix hd.isPrefix with hp | hp
  · exact String.toList_inj.mp (hp.eq_of_length hlength)
  · exact (String.toList_inj.mp (hp.eq_of_length hlength.symm)).symm

/-- The longest claim that covers the package, the earliest one if it is made more than once. -/
structure Foremost (cs : List Claim) (package : String) (c : Claim) : Prop where
  covers : Covers c.package package
  longest : ∀ d ∈ cs, Covers d.package package → d.package.length ≤ c.package.length
  earliest : ∃ front rest, cs = front ++ c :: rest ∧ ∀ d ∈ front, d.package ≠ c.package

theorem Foremost.mem {cs : List Claim} {package : String} {c : Claim}
    (h : Foremost cs package c) : c ∈ cs := by
  obtain ⟨front, rest, rfl, -⟩ := h.earliest
  simp

theorem Foremost.unique {cs : List Claim} {package : String} {c d : Claim}
    (hc : Foremost cs package c) (hd : Foremost cs package d) : c = d := by
  have hsame : c.package = d.package := by
    refine package_eq_of_weight hc.covers hd.covers (Nat.le_antisymm ?_ ?_)
    · exact (weight_le_iff hc.covers hd.covers).mpr (hd.longest c hc.mem hc.covers)
    · exact (weight_le_iff hd.covers hc.covers).mpr (hc.longest d hd.mem hd.covers)
  have hfirst : ∀ {e : Claim}, Foremost cs package e → e.package = c.package →
      cs.find? (·.package == c.package) = some e := by
    intro e he hpackage
    obtain ⟨front, rest, hcs, hfront⟩ := he.earliest
    refine List.find?_eq_some_iff_append.mpr ⟨by simp [hpackage], front, rest, hcs, fun d hd => ?_⟩
    simpa [← hpackage] using hfront d hd
  exact Option.some.inj ((hfirst hc rfl).symm.trans (hfirst hd hsame.symm))

/-- What covers the package first in a sorted list without disorder is the foremost claim. -/
theorem find?_placed {cs : List Claim} {package : String} {c : Claim} :
    (placed cs).find? (fun d => Catalog.covers d.package package) = some c ↔
      Foremost cs package c := by
  have hfound : ∀ c, (placed cs).find? (fun d => Catalog.covers d.package package) = some c →
      Foremost cs package c := by
    intro c hc
    obtain ⟨hcovers, before, after, hsplit, hbefore⟩ := List.find?_eq_some_iff_append.mp hc
    have hcovers := covers_iff.mp hcovers
    have hnone : ∀ d ∈ before, ¬ Covers d.package package := fun d hd h => by
      simpa [covers_iff.mpr h] using hbefore d hd
    have hsorted := sorted_placed cs
    rw [hsplit] at hsorted
    refine ⟨hcovers, fun d hd hother => ?_, ?_⟩
    · have hd : d ∈ before ++ c :: after := hsplit ▸ mem_placed.mpr hd
      rcases List.mem_append.mp hd with hd | hd
      · exact absurd hother (hnone d hd)
      · refine (weight_le_iff hother hcovers).mp ?_
        rcases List.mem_cons.mp hd with rfl | hd
        · exact Nat.le_refl _
        · exact (List.pairwise_cons.mp (List.pairwise_append.mp hsorted).2.1).1 d hd
    · have horder : ofWeight (weight c) cs =
          ofWeight (weight c) before ++ c :: ofWeight (weight c) after := by
        rw [← ofWeight_placed, hsplit]
        simp [ofWeight, List.filter_append]
      obtain ⟨front, tail, hcs, hfront, htail⟩ := List.filter_eq_append_iff.mp horder
      obtain ⟨skipped, rest, htailsplit, hskipped, -, -⟩ := List.filter_eq_cons_iff.mp htail
      refine ⟨front ++ skipped, rest, by rw [hcs, htailsplit, List.append_assoc], ?_⟩
      intro d hd hsame
      have hweight : weight d = weight c := by rw [weight, weight, hsame]
      rcases List.mem_append.mp hd with hd | hd
      · have hmem : d ∈ ofWeight (weight c) before :=
          hfront ▸ List.mem_filter.mpr ⟨hd, by simp [hweight]⟩
        exact hnone d (List.mem_filter.mp hmem).1 (hsame ▸ hcovers)
      · exact hskipped d hd (by simp [hweight])
  refine ⟨hfound c, fun h => ?_⟩
  cases hfind : (placed cs).find? (fun d => Catalog.covers d.package package) with
  | some d => rw [(hfound d hfind).unique h]
  | none =>
    have hmiss := List.find?_eq_none.mp hfind c (mem_placed.mpr h.mem)
    exact absurd (covers_iff.mpr h.covers) hmiss

/-! ### Catalogs of the settings -/

def listed (entries : List LibraryEntry) : List (String × String) :=
  entries.flatMap fun e => e.packages.map fun written => (e.coordinate, written)

def claimOf (line : String × String) : Claim :=
  ⟨packageOf line.2, (Coordinate.parse? line.1).getD default⟩

/-- The owner that the settings give to the longest listed package that covers this one, by the
first line on which it is listed. -/
structure MostSpecific (lines : List (String × String)) (package claimed : String)
    (owner : Coordinate) : Prop where
  covers : Covers claimed package
  longest : ∀ l ∈ lines, ∀ other, Unstarred l.2 other → Covers other package →
    other.length ≤ claimed.length
  earliest : ∃ front l rest, lines = front ++ l :: rest ∧ Unstarred l.2 claimed ∧
    Coordinate.parse l.1 = .ok owner ∧ ∀ m ∈ front, ¬ Unstarred m.2 claimed

section

variable {entries : List LibraryEntry} {lines : List (String × String)} {l : String × String}
  {package claimed : String} {owner : Coordinate}

theorem claimOf_owner (h : Coordinate.parse l.1 = .ok owner) : (claimOf l).owner = owner := by
  unfold Coordinate.parse at h
  split at h
  · rename_i c hc
    rw [claimOf, hc]
    exact Except.ok.inj h
  · cases h

theorem addEntry_ok {e : LibraryEntry} (h : Coordinate.parse e.coordinate = .ok owner)
    (cs : List Claim) : addEntry ⟨placed cs⟩ e =
      .ok ⟨placed (cs ++ (e.packages.map fun written => (e.coordinate, written)).map claimOf)⟩ := by
  have hfold : ∀ (written : List String) (cs : List Claim),
      written.foldl (fun c p => c.insert (packageOf p) owner) ⟨placed cs⟩ =
        (⟨placed (cs ++ (written.map fun p => (e.coordinate, p)).map claimOf)⟩ : Catalog) := by
    intro written
    induction written with
    | nil => simp
    | cons p ps ih =>
      intro cs
      have hinsert : Catalog.insert ⟨placed cs⟩ (packageOf p) owner =
          ⟨placed (cs ++ [claimOf (e.coordinate, p)])⟩ := by
        rw [placed_concat, ← claimOf_owner (l := (e.coordinate, p)) h]
        rfl
      rw [List.foldl_cons, hinsert, ih]
      simp
  rw [addEntry, h]
  exact congrArg Except.ok (hfold e.packages cs)

theorem ofEntries_ok (h : ∀ e ∈ entries, ∃ c, Coordinate.parse e.coordinate = .ok c) :
    ofEntries entries = .ok ⟨placed ((listed entries).map claimOf)⟩ := by
  have hrun : ∀ done : List Claim, entries.foldlM addEntry ⟨placed done⟩ =
      .ok ⟨placed (done ++ (listed entries).map claimOf)⟩ := by
    induction entries with
    | nil => simp [listed, pure, Except.pure]
    | cons e es ih =>
      intro done
      obtain ⟨owner, howner⟩ := h e List.mem_cons_self
      have hrest := ih (fun e he => h e (List.mem_cons_of_mem _ he))
      rw [List.foldlM_cons, addEntry_ok howner]
      refine (hrest _).trans ?_
      simp [listed]
  exact hrun []

/-- The foremost claim is what the settings say. -/
theorem foremost_iff (h : ∀ l ∈ lines, ∃ c, Coordinate.parse l.1 = .ok c) :
    Foremost (lines.map claimOf) package ⟨claimed, owner⟩ ↔
      MostSpecific lines package claimed owner := by
  have hlongest : (∀ d ∈ lines.map claimOf, Covers d.package package →
      d.package.length ≤ claimed.length) ↔
      ∀ l ∈ lines, ∀ other, Unstarred l.2 other → Covers other package →
        other.length ≤ claimed.length := by
    simp only [List.forall_mem_map, unstarred_iff, forall_eq', claimOf]
  constructor
  · rintro ⟨hcovers, hlong, front, rest, hsplit, hfront⟩
    refine ⟨hcovers, hlongest.mp hlong, ?_⟩
    obtain ⟨before, later, rfl, rfl, hlater⟩ := List.map_eq_append_iff.mp hsplit
    obtain ⟨l, after, rfl, hl, -⟩ := List.map_eq_cons_iff.mp hlater
    obtain ⟨hclaimed, howner⟩ := Claim.mk.inj hl
    refine ⟨before, l, after, rfl, unstarred_iff.mpr hclaimed, ?_, fun m hm hsame => ?_⟩
    · obtain ⟨c, hc⟩ := h l (by simp)
      have hread : (claimOf l).owner = owner := howner
      rw [hc, ← claimOf_owner hc, hread]
    · exact hfront _ (List.mem_map_of_mem hm) (unstarred_iff.mp hsame)
  · rintro ⟨hcovers, hlong, before, l, after, rfl, hclaimed, howner, hfront⟩
    refine ⟨hcovers, hlongest.mpr hlong, before.map claimOf, after.map claimOf, ?_, ?_⟩
    · have hl : claimOf l = ⟨claimed, owner⟩ :=
        Claim.mk.injEq .. ▸ ⟨unstarred_iff.mp hclaimed, claimOf_owner howner⟩
      rw [List.map_append, List.map_cons, hl]
    · intro d hd hsame
      obtain ⟨m, hm, rfl⟩ := List.mem_map.mp hd
      exact hfront m hm (unstarred_iff.mpr hsame)

end

/-- A catalog answers with the most specific owner of a package, for a package of the platform that
nobody claims with the platform library, and with nothing for any other package. -/
theorem lookup?_most_specific (entries : List LibraryEntry)
    (h : ∀ e ∈ entries, ∃ c, Coordinate.parse e.coordinate = .ok c) :
    ∃ catalog, ofEntries entries = .ok catalog ∧ ∀ (package : String) (owner : Coordinate),
      catalog.lookup? package = some owner ↔
        (∃ claimed, MostSpecific (listed entries) package claimed owner) ∨
          ((∀ l ∈ listed entries, ∀ claimed, Unstarred l.2 claimed → ¬ Covers claimed package) ∧
            (Covers "java" package ∨ Covers "javax" package) ∧ owner = .jdk) := by
  refine ⟨_, ofEntries_ok h, fun package owner => ?_⟩
  have hvalid : ∀ l ∈ listed entries, ∃ c, Coordinate.parse l.1 = .ok c := by
    intro l hl
    obtain ⟨e, he, hle⟩ := List.mem_flatMap.mp hl
    obtain ⟨written, -, rfl⟩ := List.mem_map.mp hle
    exact h e he
  have hplatform : isPlatform package = true ↔ Covers "java" package ∨ Covers "javax" package := by
    rw [isPlatform, Bool.or_eq_true, covers_iff, covers_iff]
  rw [lookup?, ← hplatform]
  dsimp only
  cases hfind : (placed ((listed entries).map claimOf)).find?
      (fun d => covers d.package package) with
  | some c =>
    have hfirst := find?_placed.mp hfind
    obtain ⟨l, hl, rfl⟩ := List.mem_map.mp hfirst.mem
    dsimp only
    rw [Option.some.injEq]
    constructor
    · rintro rfl
      exact Or.inl ⟨_, (foremost_iff hvalid).mp hfirst⟩
    · rintro (⟨claimed, hspecific⟩ | ⟨hnone, -⟩)
      · rw [hfirst.unique ((foremost_iff hvalid).mpr hspecific)]
      · exact absurd hfirst.covers (hnone l hl _ (unstarred_iff.mpr rfl))
  | none =>
    have hnobody : ∀ l ∈ listed entries, ∀ claimed, Unstarred l.2 claimed →
        ¬ Covers claimed package := by
      intro l hl claimed hclaimed hcovers
      obtain rfl := unstarred_iff.mp hclaimed
      have hmem : claimOf l ∈ placed ((listed entries).map claimOf) :=
        mem_placed.mpr (List.mem_map_of_mem hl)
      exact List.find?_eq_none.mp hfind _ hmem (covers_iff.mpr hcovers)
    have hunclaimed : ¬ ∃ claimed, MostSpecific (listed entries) package claimed owner := by
      rintro ⟨claimed, hspecific⟩
      rw [find?_placed.mpr ((foremost_iff hvalid).mpr hspecific)] at hfind
      cases hfind
    dsimp only
    cases hjdk : isPlatform package with
    | false => simp [hunclaimed]
    | true =>
      rw [if_pos rfl, Option.some.injEq, or_iff_right hunclaimed]
      exact ⟨fun hsame => ⟨hnobody, rfl, hsame.symm⟩, fun hsame => hsame.2.2.symm⟩

def shelves : List LibraryEntry :=
  [⟨"org.frame:core:6", ["org.frame.*", "org.fr"]⟩, ⟨"org.frame:web", ["org.frame.web.*.*"]⟩,
    ⟨"other:web", ["org.frame.web", "java.time"]⟩]

/-- Of two lines that list a part of a framework the first one owns it. -/
theorem shelves_most_specific :
    (∀ e ∈ shelves, ∃ c, Coordinate.parse e.coordinate = .ok c) ∧
      ∃ catalog, ofEntries shelves = .ok catalog ∧
        catalog.lookup? "org.frame.web.bind" = some ⟨"org.frame", "web", none⟩ ∧
        ∃ claimed, MostSpecific (listed shelves) "org.frame.web.bind" claimed
          ⟨"org.frame", "web", none⟩ := by
  have hvalid : ∀ e ∈ shelves, ∃ c, Coordinate.parse e.coordinate = .ok c := by
    simp only [shelves, List.forall_mem_cons, List.not_mem_nil, false_imp_iff, implies_true,
      and_true]
    exact ⟨⟨⟨"org.frame", "core", some "6"⟩, rfl⟩, ⟨⟨"org.frame", "web", none⟩, rfl⟩,
      ⟨⟨"other", "web", none⟩, rfl⟩⟩
  obtain ⟨catalog, hok, hlookup⟩ := lookup?_most_specific shelves hvalid
  have hfound : (ofEntries shelves).toOption.bind (·.lookup? "org.frame.web.bind") =
      some ⟨"org.frame", "web", none⟩ := by decide +kernel
  rw [hok] at hfound
  refine ⟨hvalid, catalog, hok, hfound, ?_⟩
  refine ((hlookup _ _).mp hfound).resolve_right ?_
  rintro ⟨-, hjdk, -⟩
  rw [← covers_iff, ← covers_iff] at hjdk
  exact absurd hjdk (by decide +kernel)

end Carve.Catalog
