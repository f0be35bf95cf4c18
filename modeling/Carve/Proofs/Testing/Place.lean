import Carve.Proofs.Testing.ClassHeader

/-!
# The place of a draft

Whatever an answer says, the test that is read from it belongs below `src/test/java`. The package
and the class are words, so no directory and no file of the path goes up or leads anywhere else,
and the source is a piece of the answer.
-/

namespace Carve

namespace Path

open Text

theorem components_join_empty (p : Path) : (p.join ⟨""⟩).components = p.components := by
  have hrelative : (Path.mk "").isAbsolute = false := rfl
  obtain ⟨text⟩ := p
  unfold join
  rw [hrelative, if_neg Bool.false_ne_true]
  dsimp only
  split
  · rename_i hlast
    have hempty : text = "" := by simpa using hlast
    rw [hempty]
  · rw [String.append_empty]
  · rename_i hlast
    have hne : text ≠ "" := by
      rintro rfl
      simp at hlast
    rw [String.append_empty, components_trailing hne]

theorem components_foldl_join_names (p : Path) {ss : List String}
    (h : ∀ s ∈ ss, s ≠ "" → IsName s) :
    (ss.foldl (fun (p : Path) s => p.join ⟨s⟩) p).components =
      p.components ++ (ss.filter (· ≠ "")).map .name := by
  induction ss generalizing p with
  | nil => simp
  | cons s ss ih =>
    rw [List.foldl_cons, ih _ fun t ht => h t (List.mem_cons_of_mem _ ht)]
    by_cases hs : s = ""
    · rw [hs, components_join_empty, List.filter_cons_of_neg (by simp)]
    · have hname := (h s List.mem_cons_self hs).components
      rw [components_join p (n := s) (by rw [hname]; rfl), hname,
        List.filter_cons_of_pos (by simp [hs])]
      simp

end Path

namespace Testing.Draft

open Text

variable {cs rest name : List Char}

theorem of_packageAt? (h : packageAt? cs = some name) :
    ∀ c ∈ name, isWordChar c = true ∨ c = '.' := by
  obtain ⟨behind, -, h⟩ := Option.bind_eq_some_iff.mp h
  rw [List.span_eq_takeWhile_dropWhile] at h
  dsimp only at h
  split at h
  · split at h
    · cases h
    · obtain rfl := Option.some.inj h
      intro c hc
      simpa using List.all_eq_true.mp List.all_takeWhile c hc
  · cases h

theorem of_package? (h : package? cs = some name) : ∀ c ∈ name, isWordChar c = true ∨ c = '.' := by
  obtain ⟨-, after, -, hread, -⟩ := of_firstAtLine h
  exact of_packageAt? hread

/-- The name of a class: it begins with no digit and has only word characters and `$`. -/
structure IsClassName (name : String) : Prop where
  nonempty : name ≠ ""
  start : ∀ c ∈ name.toList.head?, isNameStart c = true
  letters : ∀ c ∈ name.toList, isWordChar c = true ∨ c = '$'

theorem isNamePart_of_isNameStart {c : Char} (h : isNameStart c = true) : isNamePart c = true := by
  simp only [isNameStart, isNamePart, Bool.or_eq_true, beq_iff_eq] at h ⊢
  refine h.imp_left fun h => ?_
  rcases h with h | rfl
  · exact isWordChar_of_isAlphanum (by simp [Char.isAlphanum, h])
  · exact isWordChar_underscore

theorem isClassName_of_mem (h : name ∈ classNames) : IsClassName (String.ofList name) := by
  obtain ⟨c, tail, rfl, hc, htail⟩ := mem_one_mul_kstar.mp h
  constructor
  case nonempty =>
    rw [ne_eq, ← String.toList_eq_nil_iff, String.toList_ofList]
    exact List.cons_ne_nil _ _
  case start =>
    rw [String.toList_ofList]
    rintro d ⟨⟩
    exact hc
  case letters =>
    rw [String.toList_ofList]
    intro d hd
    have hpart : isNamePart d = true := by
      rcases List.mem_cons.mp hd with rfl | hd
      · exact isNamePart_of_isNameStart hc
      · exact htail d hd
    simpa [isNamePart] using hpart

/-- The words of a package name. Dots at its ends and doubled ones part nothing. -/
def packageWords (package : Option String) : List String :=
  match package with
  | some p => (parts '.' p).filter (· ≠ "")
  | none => []

structure IsDirectory (s : String) : Prop extends Path.IsName s where
  backslashless : '\\' ∉ s.toList

theorem isDirectory_of_words {s : String} (hne : s ≠ "")
    (h : ∀ c ∈ s.toList, isWordChar c = true) : IsDirectory s := by
  have hnot : ∀ {c : Char}, isWordChar c = false → c ∉ s.toList := by
    intro c hc hmem
    exact Bool.false_ne_true (hc.symm.trans (h c hmem))
  have hdot : '.' ∉ s.toList := hnot (isWordChar_punctuation (by decide))
  constructor
  · refine ⟨hne, hnot (isWordChar_punctuation (by decide)), ?_, ?_⟩
    · rintro rfl
      exact hdot (by decide)
    · rintro rfl
      exact hdot (by decide)
  · exact hnot (isWordChar_punctuation (by decide))

theorem isDirectory_of_mem {p s : String} (hp : ∀ c ∈ p.toList, isWordChar c = true ∨ c = '.')
    (hs : s ∈ parts '.' p) (hne : s ≠ "") : IsDirectory s := by
  obtain ⟨part, hpart, rfl⟩ := List.mem_map.mp hs
  refine isDirectory_of_words hne fun c hc => ?_
  rw [String.toList_ofList] at hc
  have hmem : c ∈ p.toList := by
    rw [← join_split '.' p.toList]
    exact (infix_join hpart).subset hc
  refine (hp c hmem).resolve_right ?_
  rintro rfl
  exact not_mem_of_mem_split part hpart hc

theorem IsClassName.isName_file {name : String} (h : IsClassName name) :
    Path.IsName (name ++ ".java") := by
  have hdots : ∀ {s : String}, s = name ++ ".java" → 5 < s.length := by
    rintro s rfl
    have hpos : 0 < name.length := by
      rw [← String.length_toList, List.length_pos_iff, ne_eq, String.toList_eq_nil_iff]
      exact h.nonempty
    rw [String.length_append]
    exact Nat.lt_add_of_pos_left hpos
  refine ⟨fun heq => absurd (hdots heq.symm) (by decide), ?_,
    fun heq => absurd (hdots heq.symm) (by decide), fun heq => absurd (hdots heq.symm) (by decide)⟩
  rw [String.toList_append, List.mem_append]
  rintro (hslash | hslash)
  · rcases h.letters '/' hslash with hword | hdollar
    · rw [isWordChar_punctuation (by decide)] at hword
      cases hword
    · cases hdollar
  · exact absurd hslash (by decide)

theorem components_pathOf {package : Option String} {name : String}
    (hpackage : ∀ p ∈ package, ∀ c ∈ p.toList, isWordChar c = true ∨ c = '.')
    (hname : IsClassName name) : (pathOf package name).components =
      (["src", "test", "java"] ++ packageWords package ++ [name ++ ".java"]).map .name := by
  have hroot : testRoot.components = ["src", "test", "java"].map .name := rfl
  have hfile := hname.isName_file.components
  unfold pathOf packageWords
  dsimp only
  rw [Path.components_join _ (n := name ++ ".java") (by rw [hfile]; rfl), hfile]
  cases package with
  | none => rw [hroot]; simp
  | some p =>
    have hparts : ∀ s ∈ parts '.' p, s ≠ "" → Path.IsName s := fun s hs hne =>
      (isDirectory_of_mem (hpackage p rfl) hs hne).toIsName
    dsimp only
    rw [Path.components_foldl_join_names _ hparts, hroot]
    simp

theorem of_blockAt? {block : Block} (h : blockAt? cs = some (block, rest)) :
    block.code <:+: cs ∧ rest <:+ cs := by
  obtain ⟨opened, hopened, h⟩ := Option.bind_eq_some_iff.mp h
  have hsuffix : opened.dropWhile (· ≠ '\n') <:+ opened := List.dropWhile_suffix _
  rw [List.span_eq_takeWhile_dropWhile] at h
  dsimp only at h
  split at h
  · cases h
  · rename_i c body hbody
    obtain ⟨⟨code, after⟩, hbreak, heq⟩ := Option.bind_eq_some_iff.mp h
    obtain ⟨rfl, rfl⟩ := Prod.mk.inj (Option.some.inj heq)
    have hcode := eq_of_breakOn hbreak
    have hcs : body <:+ cs := by
      rw [stripStart_eq_some.mp hopened]
      exact ((hbody ▸ List.suffix_cons c body).trans hsuffix).trans (List.suffix_append _ _)
    constructor
    · exact (hcode ▸ ⟨[], fence ++ after, by simp⟩ : code <:+: body).trans hcs.isInfix
    · exact (hcode ▸ List.suffix_append _ _ : after <:+ body).trans hcs

/-- The code of every block is a piece of the text. -/
theorem infix_of_mem_blocksFrom {fuel : Nat} {block : Block} (h : block ∈ blocksFrom fuel cs) :
    block.code <:+: cs := by
  induction fuel generalizing cs with
  | zero => cases h
  | succ fuel ih =>
    cases cs with
    | nil => cases h
    | cons c cs =>
      rw [blocksFrom] at h
      split at h
      · rename_i first after hblock
        obtain ⟨hcode, hafter⟩ := of_blockAt? hblock
        rcases List.mem_cons.mp h with rfl | h
        · exact hcode
        · exact (ih h).trans hafter.isInfix
      · exact List.infix_cons (ih h)

theorem codeOf_infix (answer : List Char) : codeOf answer <:+: answer := by
  unfold codeOf
  refine (trim_inside _).trans ?_
  split
  · rename_i block hfind
    exact infix_of_mem_blocksFrom (List.mem_of_find?_eq_some hfind)
  · cases hhead : (blocks answer).head? with
    | none => exact List.infix_rfl
    | some block => exact infix_of_mem_blocksFrom (List.mem_of_head? hhead)

theorem trim_codeOf (answer : List Char) : trim (codeOf answer) = codeOf answer := trim_trim _

/-- A draft that belongs below the tests and is a piece of the answer. -/
structure Placed (answer : String) (d : Draft) : Prop where
  className : IsClassName d.className
  directories : ∀ s ∈ packageWords d.package, IsDirectory s
  components : d.relativePath.components =
    (["src", "test", "java"] ++ packageWords d.package ++ [d.className ++ ".java"]).map .name
  relative : d.relativePath.isAbsolute = false
  below : ∀ module : Path,
    (module.join d.relativePath).components = module.components ++ d.relativePath.components
  source : ∃ code, code <:+: answer.toList ∧ trim code = code ∧
    d.source.toList = code ++ ['\n'] ∧ d.className.toList <:+: code

/-- Every draft stays below the tests, whatever the answer. -/
theorem ofAnswer_placed {answer : String} {d : Draft} (h : ofAnswer answer = .ok d) :
    Placed answer d := by
  unfold ofAnswer at h
  dsimp only at h
  split at h
  · cases h
  · rename_i name hname
    obtain rfl := Except.ok.inj h
    obtain ⟨before, head, after, hcode, -, -, hclass⟩ := className?_sound hname
    have hclass := isClassName_of_mem hclass
    have hpackage : ∀ p ∈ (package? (codeOf answer.toList)).map String.ofList,
        ∀ c ∈ p.toList, isWordChar c = true ∨ c = '.' := by
      intro p hp
      obtain ⟨letters, hletters, rfl⟩ := Option.map_eq_some_iff.mp hp
      rw [String.toList_ofList]
      exact of_package? hletters
    have hcomponents := components_pathOf hpackage hclass
    have hhead : (pathOf ((package? (codeOf answer.toList)).map String.ofList)
        (String.ofList name)).components.head? = some (.name "src") := by
      rw [hcomponents]
      rfl
    constructor
    case className => exact hclass
    case directories =>
      intro s hs
      dsimp only at hs
      unfold packageWords at hs
      split at hs
      · rename_i p hp
        obtain ⟨hs, hne⟩ := List.mem_filter.mp hs
        exact isDirectory_of_mem (hpackage p hp) hs (by simpa using hne)
      · cases hs
    case components => exact hcomponents
    case relative => exact (Path.components_of_head hhead).1
    case below => exact fun module => Path.components_join module hhead
    case source =>
      refine ⟨codeOf answer.toList, codeOf_infix _, trim_codeOf _, ?_, ?_⟩
      · rw [String.toList_append, String.toList_ofList]
        rfl
      · rw [String.toList_ofList]
        exact ⟨before ++ head, after, by rw [hcode]; simp⟩

def dottedAnswer : String :=
  "\x60\x60\x60java\npackage ..com..shop.;\n\nclass OrderTest \x7b\x7d\n\x60\x60\x60"

theorem dottedAnswer_placed : ∃ d, ofAnswer dottedAnswer = .ok d ∧ Placed dottedAnswer d ∧
    packageWords d.package = ["com", "shop"] ∧ d.className = "OrderTest" := by
  have hread : (ofAnswer dottedAnswer).toOption =
      some ⟨some "..com..shop.", "OrderTest",
        "package ..com..shop.;\n\nclass OrderTest \x7b\x7d\n",
        ⟨"src/test/java/com/shop/OrderTest.java"⟩⟩ := by
    unfold ofAnswer className? package? classAt? packageAt? isNamePart
    rw [isWordChar_eq_any]
    decide +kernel
  cases hok : ofAnswer dottedAnswer with
  | error e =>
    rw [hok] at hread
    cases hread
  | ok d =>
    rw [hok] at hread
    obtain rfl := Option.some.inj hread
    exact ⟨_, rfl, ofAnswer_placed hok, by decide +kernel, rfl⟩

end Testing.Draft

end Carve
