import Carve.Proofs.Testing.ClassHeader

/-!
# Choosing a block

An answer in which prose and fenced blocks take turns is read block by block: prose opens no block,
and a block closes at its own fence. So the text of the first Java block is looked at, or else that
of the first block, or else all of the answer.
-/

namespace Carve

namespace Testing.Draft

open Text

def isLineBlank (c : Char) : Bool := c == ' ' || c == '\t'

/-- The tag of a line stands behind its blanks and goes on for as long as there are characters of
tags. -/
def Tagged (line tag : List Char) : Prop :=
  ∃ blanks rest, line = blanks ++ (tag ++ rest) ∧ (∀ c ∈ blanks, isLineBlank c = true) ∧
    (∀ c ∈ tag, isTagChar c = true) ∧ (∀ c ∈ rest.head?, isTagChar c = false) ∧
    (tag = [] → ∀ c ∈ rest.head?, isLineBlank c = false)

theorem not_isLineBlank_of_isTagChar {c : Char} (h : isTagChar c = true) :
    isLineBlank c = false := by
  rw [← Bool.not_eq_true]
  intro hblank
  simp only [isLineBlank, Bool.or_eq_true, beq_iff_eq] at hblank
  rcases hblank with rfl | rfl <;> cases h

theorem tagged_iff {line tag : List Char} : Tagged line tag ↔ tag = tagOf line := by
  have htagOf : tagOf line = (line.dropWhile isLineBlank).takeWhile isTagChar := rfl
  rw [htagOf]
  constructor
  · rintro ⟨blanks, rest, rfl, hblanks, htag, hrest, hempty⟩
    have hhead : ∀ c ∈ (tag ++ rest).head?, isLineBlank c = false := by
      cases tag with
      | nil => exact hempty rfl
      | cons d tag =>
        rintro c ⟨⟩
        exact not_isLineBlank_of_isTagChar (htag d List.mem_cons_self)
    rw [dropWhile_append_stop hblanks hhead, takeWhile_append_stop htag hrest]
  · rintro rfl
    refine ⟨line.takeWhile isLineBlank, (line.dropWhile isLineBlank).dropWhile isTagChar, ?_,
      List.all_eq_true.mp List.all_takeWhile, List.all_eq_true.mp List.all_takeWhile, ?_, ?_⟩
    · rw [List.takeWhile_append_dropWhile, List.takeWhile_append_dropWhile]
    · intro c hc
      have hnot := List.head?_dropWhile_not isTagChar (line.dropWhile isLineBlank)
      rw [Option.mem_def.mp hc] at hnot
      simpa using hnot
    · intro hnil c hc
      have hnot := List.head?_dropWhile_not isLineBlank line
      have hsame := List.takeWhile_append_dropWhile (p := isTagChar)
        (l := line.dropWhile isLineBlank)
      rw [hnil, List.nil_append] at hsame
      rw [← hsame, Option.mem_def.mp hc] at hnot
      simpa using hnot

/-- A block as it is written: the rest of the line of its opening fence, and its body. -/
structure Fenced where
  line : List Char
  body : List Char
  line_bare : '\x60' ∉ line ∧ '\n' ∉ line
  body_ended : body = [] ∨ body.getLast? = some '\n'
  body_bare : ¬ fence <:+: body

namespace Fenced

def text (b : Fenced) : List Char := fence ++ (b.line ++ '\n' :: (b.body ++ fence))

def IsJava (b : Fenced) : Prop := ∃ tag, Tagged b.line tag ∧ tag.map Char.toLower = "java".toList

def read (b : Fenced) : Block := ⟨tagOf b.line, b.body⟩

theorem isJava_iff (b : Fenced) : isJava b.read = true ↔ b.IsJava := by
  unfold IsJava isJava read
  simp [tagged_iff]

theorem breakOn_body (b : Fenced) (rest : List Char) :
    breakOn fence (b.body ++ (fence ++ rest)) = some (b.body, rest) := by
  have hfence : breakOn fence (fence ++ rest) = some ([], rest) := rfl
  rcases b.body_ended with hnil | hlast
  · rw [hnil]
    exact hfence
  · obtain ⟨front, hfront⟩ := List.getLast?_eq_some_iff.mp hlast
    have hfeed : '\n' ∉ fence := by decide
    have hnone : breakOn fence front = none := by
      refine breakOn_eq_none fun hpiece => b.body_bare ?_
      rw [hfront]
      exact hpiece.trans (List.prefix_append _ _).isInfix
    have hbreak := breakOn_append_cons hfeed front (fence ++ rest)
    rw [hnone, hfence] at hbreak
    rw [hfront, List.append_assoc]
    exact hbreak

/-- The block is read off, and the reading goes on behind its closing fence. -/
theorem blockAt?_text (b : Fenced) (rest : List Char) :
    blockAt? (b.text ++ rest) = some (b.read, rest) := by
  have htext : b.text ++ rest = fence ++ (b.line ++ '\n' :: (b.body ++ (fence ++ rest))) := by
    simp [text]
  have hopened := (stripStart_eq_some (p := fence)).mpr htext
  unfold blockAt?
  rw [hopened, Option.bind_eq_bind, Option.bind_some, span_ne_append b.line_bare.2]
  dsimp only
  rw [b.breakOn_body]
  rfl

end Fenced

structure Passage where
  prose : List Char
  prose_bare : '\x60' ∉ prose
  block : Fenced

/-- An answer in which prose and blocks take turns. -/
structure Alternation where
  passages : List Passage
  last : List Char
  last_bare : '\x60' ∉ last

def passagesText (ps : List Passage) : List Char := ps.flatMap fun p => p.prose ++ p.block.text

def Alternation.text (a : Alternation) : List Char := passagesText a.passages ++ a.last

def Alternation.blocks (a : Alternation) : List Fenced := a.passages.map (·.block)

theorem blockAt?_of_ne {c : Char} (h : c ≠ '\x60') (cs : List Char) :
    blockAt? (c :: cs) = none := by
  have hnone : stripStart fence (c :: cs) = none := by
    simp [fence, stripStart, Ne.symm h]
  rw [blockAt?, hnone]
  rfl

theorem blocksFrom_prose {prose rest : List Char} (h : '\x60' ∉ prose) {fuel : Nat}
    (hfuel : (prose ++ rest).length ≤ fuel) :
    ∃ left, rest.length ≤ left ∧ blocksFrom fuel (prose ++ rest) = blocksFrom left rest := by
  induction prose generalizing fuel with
  | nil => exact ⟨fuel, hfuel, rfl⟩
  | cons c prose ih =>
    obtain ⟨hc, hprose⟩ := List.ne_and_not_mem_of_not_mem_cons h
    rw [List.cons_append, List.length_cons] at hfuel
    cases fuel with
    | zero => omega
    | succ fuel =>
      have hshort : (prose ++ rest).length ≤ fuel := by omega
      obtain ⟨left, hleft, hsame⟩ := ih hprose hshort
      refine ⟨left, hleft, ?_⟩
      rw [List.cons_append, blocksFrom, blockAt?_of_ne (Ne.symm hc)]
      exact hsame

theorem blocksFrom_block (b : Fenced) {rest : List Char} {fuel : Nat}
    (hfuel : (b.text ++ rest).length ≤ fuel) :
    ∃ left, rest.length ≤ left ∧
      blocksFrom fuel (b.text ++ rest) = b.read :: blocksFrom left rest := by
  have hblock := b.blockAt?_text rest
  have hlength : rest.length < (b.text ++ rest).length := by
    simp only [Fenced.text, fence, List.length_append, List.length_cons]
    omega
  generalize b.text ++ rest = cs at hfuel hblock hlength
  cases fuel with
  | zero => omega
  | succ fuel =>
    cases cs with
    | nil => cases hblock
    | cons c cs => exact ⟨fuel, by omega, by rw [blocksFrom, hblock]⟩

/-- The blocks that are found are those that are written, in their order. -/
theorem blocksFrom_passages {last : List Char} (hlast : '\x60' ∉ last) (ps : List Passage)
    {fuel : Nat} (hfuel : (passagesText ps ++ last).length ≤ fuel) :
    blocksFrom fuel (passagesText ps ++ last) = ps.map (·.block.read) := by
  induction ps generalizing fuel with
  | nil =>
    have hnil : passagesText [] ++ last = last ++ [] := by simp [passagesText]
    rw [hnil] at hfuel ⊢
    obtain ⟨left, -, hsame⟩ := blocksFrom_prose hlast hfuel
    rw [hsame]
    cases left <;> rfl
  | cons p ps ih =>
    have hsplit : passagesText (p :: ps) ++ last =
        p.prose ++ (p.block.text ++ (passagesText ps ++ last)) := by
      simp [passagesText]
    rw [hsplit] at hfuel ⊢
    obtain ⟨left, hleft, hprose⟩ := blocksFrom_prose p.prose_bare hfuel
    obtain ⟨later, hlater, hblock⟩ := blocksFrom_block p.block hleft
    rw [hprose, hblock, ih hlater, List.map_cons]

/-- What is looked at: the first Java block, or else the first block, or else all of the answer. -/
inductive Chosen (a : Alternation) : List Char → Prop
  | java {before after : List Fenced} {b : Fenced} (hblocks : a.blocks = before ++ b :: after)
      (hjava : b.IsJava) (hbefore : ∀ e ∈ before, ¬ e.IsJava) : Chosen a b.body
  | first {after : List Fenced} {b : Fenced} (hblocks : a.blocks = b :: after)
      (hnone : ∀ e ∈ a.blocks, ¬ e.IsJava) : Chosen a b.body
  | whole (hblocks : a.blocks = []) : Chosen a a.text

theorem codeOf_text (a : Alternation) : ∃ text, Chosen a text ∧ codeOf a.text = trim text := by
  have hblocks : Draft.blocks a.text = a.blocks.map Fenced.read := by
    rw [Draft.blocks, Alternation.text, blocksFrom_passages a.last_bare _ (Nat.le_succ _),
      Alternation.blocks, List.map_map]
    rfl
  unfold codeOf
  rw [hblocks]
  dsimp only
  rw [List.find?_map]
  cases hfind : a.blocks.find? (isJava ∘ Fenced.read) with
  | some b =>
    obtain ⟨hjava, before, after, hsplit, hbefore⟩ := List.find?_eq_some_iff_append.mp hfind
    refine ⟨b.body, .java hsplit (b.isJava_iff.mp hjava) fun e he hjava => ?_, rfl⟩
    have hnot := hbefore e he
    rw [Function.comp_apply, e.isJava_iff.mpr hjava] at hnot
    cases hnot
  | none =>
    have hnone : ∀ e ∈ a.blocks, ¬ e.IsJava := fun e he hjava =>
      List.find?_eq_none.mp hfind e he (e.isJava_iff.mpr hjava)
    cases hlist : a.blocks with
    | nil => exact ⟨a.text, .whole hlist, rfl⟩
    | cons b after => exact ⟨b.body, .first hlist hnone, rfl⟩

/-- The answer makes a draft exactly when the text has the header of a class, and the draft is made
of nothing but the text. -/
structure ReadAs (answer text : List Char) : Prop where
  succeeds : (∃ d, ofAnswer (String.ofList answer) = .ok d) ↔ ∃ name, Declares text name
  fails : ∀ e, ofAnswer (String.ofList answer) = .error e →
    e = .malformed "no Java class in the answer"
  source : ∀ d, ofAnswer (String.ofList answer) = .ok d → d.source.toList = text ++ ['\n']
  className : ∀ d, ofAnswer (String.ofList answer) = .ok d → Declares text d.className.toList
  package : ∀ d, ofAnswer (String.ofList answer) = .ok d →
    d.package = (package? text).map String.ofList

theorem readAs_codeOf (answer : List Char) : ReadAs answer (codeOf answer) := by
  have hfound : (className? (codeOf answer)).isSome ↔ ∃ name, Declares (codeOf answer) name :=
    className?_isSome_iff
  cases hname : className? (codeOf answer) with
  | none =>
    have hread : ofAnswer (String.ofList answer) =
        .error (.malformed "no Java class in the answer") := by
      simp only [ofAnswer, String.toList_ofList, hname]
    rw [hname] at hfound
    constructor
    case succeeds =>
      rw [← hfound, hread]
      simp
    case fails =>
      intro e he
      rw [hread] at he
      exact (Except.error.inj he).symm
    all_goals
      intro d hd
      rw [hread] at hd
      cases hd
  | some name =>
    have hdeclares := className?_sound hname
    have hread : ofAnswer (String.ofList answer) =
        .ok ⟨(package? (codeOf answer)).map String.ofList, String.ofList name,
          String.ofList (codeOf answer) ++ "\n",
          pathOf ((package? (codeOf answer)).map String.ofList) (String.ofList name)⟩ := by
      simp only [ofAnswer, String.toList_ofList, hname]
    constructor
    case succeeds => exact ⟨fun _ => ⟨name, hdeclares⟩, fun _ => ⟨_, hread⟩⟩
    case fails =>
      intro e he
      rw [hread] at he
      cases he
    all_goals
      intro d hd
      rw [hread] at hd
      obtain rfl := Except.ok.inj hd
    case source => simp
    case className =>
      rw [String.toList_ofList]
      exact hdeclares
    case package => rfl

/-- The block that is looked at is the right one, however many blocks there are. -/
theorem ofAnswer_chosen (a : Alternation) :
    ∃ text, Chosen a text ∧ ReadAs a.text (trim text) := by
  obtain ⟨text, hchosen, hcode⟩ := codeOf_text a
  exact ⟨text, hchosen, hcode ▸ readAs_codeOf a.text⟩

def threeBlocks : Alternation where
  passages :=
    [⟨"Run this:\n".toList, by decide,
        ⟨"text".toList, "class Wrong\n``\n".toList, by decide, .inr rfl, by decide⟩⟩,
      ⟨[], by decide, ⟨" \tJava !".toList, "class OrderTest \x7b\x7d\n".toList, by decide, .inr rfl,
        by decide⟩⟩,
      ⟨"\n".toList, by decide, ⟨[], [], by decide, .inl rfl, by decide⟩⟩]
  last := "Done.".toList
  last_bare := by decide

example : (ofAnswer (String.ofList threeBlocks.text)).toOption.map (·.className) =
    some "OrderTest" := by
  unfold ofAnswer className? package? classAt? packageAt? isNamePart
  rw [isWordChar_eq_any]
  decide +kernel

end Testing.Draft

end Carve
