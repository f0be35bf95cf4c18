import Carve.Java.Lang
import Carve.Proofs.Path
import Mathlib.Data.List.Basic

/-!
# Raw names

A type expression is a row of names with dots between them, each with or without arguments in angle
brackets, then dimensions and perhaps an ellipsis; arguments are type expressions again or wildcards
with a bound. However it is spaced out, what is left of its text outside of the brackets are the
names, joined by dots. That one number counts for all open brackets is enough because brackets are
balanced: what stands between them leaves the count as it was.
-/

namespace Carve.Java

open Text

/-- A character of a name: no blank and none of the signs that part the names of a type. -/
def IsNameChar (c : Char) : Prop := isBlank c = false ∧ c ∉ ['.', '<', '>', '[', ']']

instance (c : Char) : Decidable (IsNameChar c) := inferInstanceAs (Decidable (_ ∧ _))

structure TypeName where
  text : List Char
  nonempty : text ≠ []
  chars : ∀ c ∈ text, IsNameChar c

inductive WildcardBound where
  | upper
  | lower

def WildcardBound.word : WildcardBound → List Char
  | .upper => "extends".toList
  | .lower => "super".toList

mutual
inductive TypeExpr where
  | mk (first : Segment) (others : List Segment) (dimensions : Nat) (variadic : Bool)

/-- A name with or without arguments. -/
inductive Segment where
  | plain (name : TypeName)
  | applied (name : TypeName) (arguments : List Argument)

inductive Argument where
  | type (t : TypeExpr)
  | wildcard
  | bounded (b : WildcardBound) (t : TypeExpr)
end

def dimensionTokens : Nat → List (List Char)
  | 0 => []
  | n + 1 => ['['] :: [']'] :: dimensionTokens n

def ellipsis : List Char := ['.', '.', '.']

mutual
def TypeExpr.tokens : TypeExpr → List (List Char)
  | .mk first others dimensions variadic =>
    first.tokens ++ Segment.dottedTokens others ++ dimensionTokens dimensions ++
      (if variadic then [ellipsis] else [])

def Segment.tokens : Segment → List (List Char)
  | .plain name => [name.text]
  | .applied name arguments => name.text :: ['<'] :: (Argument.listTokens arguments ++ [['>']])

def Segment.dottedTokens : List Segment → List (List Char)
  | [] => []
  | s :: ss => ['.'] :: (s.tokens ++ Segment.dottedTokens ss)

def Argument.tokens : Argument → List (List Char)
  | .type t => t.tokens
  | .wildcard => [['?']]
  | .bounded b t => ['?'] :: b.word :: t.tokens

def Argument.listTokens : List Argument → List (List Char)
  | [] => []
  | [a] => a.tokens
  | a :: as => a.tokens ++ [','] :: Argument.listTokens as
end

def Segment.typeName : Segment → TypeName
  | .plain name | .applied name _ => name

def Segment.name (s : Segment) : List Char := s.typeName.text

namespace TypeExpr

/-- The names at the outside, without their arguments. -/
def names : TypeExpr → List (List Char)
  | .mk first others _ _ => first.name :: others.map Segment.name

def dimensions : TypeExpr → Nat
  | .mk _ _ n _ => n

def variadic : TypeExpr → Bool
  | .mk _ _ _ v => v

end TypeExpr

/-- The tokens in their order, with any blanks before, between and after them. -/
inductive Spaced : List (List Char) → List Char → Prop
  | stop {blanks : List Char} : (∀ c ∈ blanks, isBlank c = true) → Spaced [] blanks
  | token {blanks t text : List Char} {ts : List (List Char)} :
      (∀ c ∈ blanks, isBlank c = true) → Spaced ts text →
        Spaced (t :: ts) (blanks ++ (t ++ text))

/-! ### The count of open brackets -/

def depthAfter (depth : Nat) : List Char → Nat
  | [] => depth
  | c :: cs =>
    if c = '<' then depthAfter (depth + 1) cs
    else if c = '>' then depthAfter (depth - 1) cs
    else depthAfter depth cs

theorem depthAfter_append (xs ys : List Char) : ∀ depth,
    depthAfter depth (xs ++ ys) = depthAfter (depthAfter depth xs) ys := by
  induction xs with
  | nil => exact fun _ => rfl
  | cons c xs ih =>
    intro depth
    simp only [List.cons_append, depthAfter]
    split
    · exact ih _
    · split <;> exact ih _

/-- Reading goes on behind a text with the brackets that are open there. -/
theorem outsideBrackets_append (xs ys : List Char) : ∀ depth,
    outsideBrackets depth (xs ++ ys) =
      outsideBrackets depth xs ++ outsideBrackets (depthAfter depth xs) ys := by
  induction xs with
  | nil => exact fun _ => rfl
  | cons c xs ih =>
    intro depth
    simp only [List.cons_append, depthAfter, outsideBrackets]
    by_cases hopen : c = '<'
    · simp only [hopen, if_true]
      exact ih _
    by_cases hclose : c = '>'
    · simp only [hclose, if_true, show ('>' : Char) ≠ '<' by decide, if_false]
      exact ih _
    simp only [hopen, hclose, if_false]
    split
    · exact ih _
    · rw [List.cons_append, ih]

/-- Opens no bracket that it does not close, and shows nothing inside of other brackets. -/
structure Neutral (cs : List Char) : Prop where
  level : ∀ depth, depthAfter depth cs = depth
  hidden : ∀ depth, outsideBrackets (depth + 1) cs = []

theorem neutral_nil : Neutral [] where
  level _ := rfl
  hidden _ := rfl

theorem Neutral.append {xs ys : List Char} (h : Neutral xs) (k : Neutral ys) :
    Neutral (xs ++ ys) where
  level depth := by rw [depthAfter_append, h.level, k.level]
  hidden depth := by
    rw [outsideBrackets_append, h.hidden, h.level, k.hidden, List.nil_append]

theorem Neutral.outside_append {xs : List Char} (h : Neutral xs) (ys : List Char) (depth : Nat) :
    outsideBrackets depth (xs ++ ys) =
      outsideBrackets depth xs ++ outsideBrackets depth ys := by
  rw [outsideBrackets_append, h.level]

theorem neutral_of_chars {cs : List Char} (h : ∀ c ∈ cs, c ≠ '<' ∧ c ≠ '>') : Neutral cs := by
  induction cs with
  | nil => exact neutral_nil
  | cons c cs ih =>
    obtain ⟨hopen, hclose⟩ := h c List.mem_cons_self
    have hcs := ih fun d hd => h d (List.mem_cons_of_mem _ hd)
    constructor
    · intro depth
      simp only [depthAfter, hopen, hclose, if_false]
      exact hcs.level depth
    · intro depth
      simp only [outsideBrackets, hopen, hclose, if_false, Nat.succ_pos, decide_true, Bool.true_or,
        if_true]
      exact hcs.hidden depth

theorem Neutral.enclosed {cs : List Char} (h : Neutral cs) : Neutral ('<' :: (cs ++ ['>'])) where
  level depth := by
    have hlevel : depthAfter depth ('<' :: (cs ++ ['>'])) =
        depthAfter (depth + 1) (cs ++ ['>']) := rfl
    rw [hlevel, depthAfter_append, h.level]
    rfl
  hidden depth := by
    have hhidden : outsideBrackets (depth + 1) ('<' :: (cs ++ ['>'])) =
        outsideBrackets (depth + 1 + 1) (cs ++ ['>']) := rfl
    rw [hhidden, outsideBrackets_append, h.hidden, h.level]
    rfl

theorem Neutral.outside_enclosed {cs : List Char} (h : Neutral cs) :
    outsideBrackets 0 ('<' :: (cs ++ ['>'])) = [] := by
  have houtside : outsideBrackets 0 ('<' :: (cs ++ ['>'])) = outsideBrackets 1 (cs ++ ['>']) := rfl
  rw [houtside, outsideBrackets_append, h.hidden, h.level]
  rfl

/-! ### Blanks -/

theorem ne_bracket_of_isBlank {c : Char} (h : isBlank c = true) : c ≠ '<' ∧ c ≠ '>' := by
  constructor
  · rintro rfl
    exact absurd h (by decide)
  · rintro rfl
    exact absurd h (by decide)

theorem neutral_blanks {bs : List Char} (h : ∀ c ∈ bs, isBlank c = true) : Neutral bs :=
  neutral_of_chars fun c hc => ne_bracket_of_isBlank (h c hc)

theorem outsideBrackets_blanks {bs : List Char} (h : ∀ c ∈ bs, isBlank c = true) :
    ∀ depth, outsideBrackets depth bs = [] := by
  induction bs with
  | nil => exact fun _ => rfl
  | cons c bs ih =>
    intro depth
    have hc := h c List.mem_cons_self
    obtain ⟨hopen, hclose⟩ := ne_bracket_of_isBlank hc
    simp only [outsideBrackets, hopen, hclose, hc, if_false, Bool.or_true, Bool.true_or, if_true]
    exact ih (fun d hd => h d (List.mem_cons_of_mem _ hd)) depth

theorem Spaced.outside {ts : List (List Char)} {text : List Char} (h : Spaced ts text) :
    ∀ depth, outsideBrackets depth text = outsideBrackets depth ts.flatten := by
  induction h with
  | stop hblanks => exact outsideBrackets_blanks hblanks
  | token hblanks _ ih =>
    intro depth
    rw [(neutral_blanks hblanks).outside_append, outsideBrackets_blanks hblanks, List.nil_append,
      List.flatten_cons, outsideBrackets_append, outsideBrackets_append, ih]

/-! ### Type expressions are balanced -/

theorem neutral_dimensions (n : Nat) : Neutral (dimensionTokens n).flatten := by
  induction n with
  | zero => exact neutral_nil
  | succ n ih =>
    have hpair : Neutral ['[', ']'] := neutral_of_chars (by simp)
    exact hpair.append ih

theorem neutral_ellipsis (variadic : Bool) :
    Neutral (if variadic then [ellipsis] else []).flatten := by
  cases variadic
  · exact neutral_nil
  · exact neutral_of_chars (by simp [ellipsis])

theorem WildcardBound.neutral (b : WildcardBound) : Neutral b.word := by
  have hword : b.word.all (fun c => c != '<' && c != '>') = true := by
    cases b <;> decide +kernel
  exact neutral_of_chars fun c hc => by simpa using List.all_eq_true.mp hword c hc

theorem TypeName.neutral (name : TypeName) : Neutral name.text := by
  apply neutral_of_chars
  intro c hc
  obtain ⟨-, hsign⟩ := name.chars c hc
  simp only [List.mem_cons, not_or] at hsign
  exact ⟨hsign.2.1, hsign.2.2.1⟩

mutual
theorem TypeExpr.neutral : ∀ e : TypeExpr, Neutral e.tokens.flatten
  | .mk first others dimensions variadic => by
    unfold TypeExpr.tokens
    rw [List.flatten_append, List.flatten_append, List.flatten_append]
    exact ((first.neutral.append (Segment.neutral_dotted others)).append
      (neutral_dimensions dimensions)).append (neutral_ellipsis variadic)

theorem Segment.neutral : ∀ s : Segment, Neutral s.tokens.flatten
  | .plain name => by
    unfold Segment.tokens
    rw [List.flatten_singleton]
    exact name.neutral
  | .applied name arguments => by
    unfold Segment.tokens
    rw [List.flatten_cons, List.flatten_cons, List.flatten_append, List.flatten_singleton]
    exact name.neutral.append (Argument.neutral_list arguments).enclosed

theorem Segment.neutral_dotted : ∀ ss : List Segment, Neutral (Segment.dottedTokens ss).flatten
  | [] => by
    unfold Segment.dottedTokens
    exact neutral_nil
  | s :: ss => by
    unfold Segment.dottedTokens
    rw [List.flatten_cons, List.flatten_append]
    exact (neutral_of_chars (by simp)).append
      (s.neutral.append (Segment.neutral_dotted ss))

theorem Argument.neutral : ∀ a : Argument, Neutral a.tokens.flatten
  | .type t => by
    unfold Argument.tokens
    exact t.neutral
  | .wildcard => by
    unfold Argument.tokens
    exact neutral_of_chars (by simp)
  | .bounded b t => by
    unfold Argument.tokens
    rw [List.flatten_cons, List.flatten_cons]
    exact (neutral_of_chars (by simp)).append (b.neutral.append t.neutral)

theorem Argument.neutral_list : ∀ as : List Argument, Neutral (Argument.listTokens as).flatten
  | [] => by
    unfold Argument.listTokens
    exact neutral_nil
  | [a] => by
    unfold Argument.listTokens
    exact a.neutral
  | a :: b :: as => by
    unfold Argument.listTokens
    rw [List.flatten_append, List.flatten_cons]
    exact a.neutral.append
      ((neutral_of_chars (by simp)).append (Argument.neutral_list (b :: as)))
end

/-! ### What stands outside -/

theorem outsideBrackets_chars {cs : List Char}
    (h : ∀ c ∈ cs, isBlank c = false ∧ c ∉ ['<', '>', '[', ']']) : outsideBrackets 0 cs = cs := by
  induction cs with
  | nil => rfl
  | cons c cs ih =>
    obtain ⟨hblank, hsign⟩ := h c List.mem_cons_self
    simp only [List.mem_cons, List.not_mem_nil, or_false, not_or] at hsign
    obtain ⟨hopen, hclose, hleft, hright⟩ := hsign
    simp only [outsideBrackets, hopen, hclose, hblank, if_false, Nat.lt_irrefl, decide_false,
      Bool.false_or, beq_false_of_ne hleft, beq_false_of_ne hright, Bool.false_eq_true]
    rw [ih fun d hd => h d (List.mem_cons_of_mem _ hd)]

theorem TypeName.outside (name : TypeName) : outsideBrackets 0 name.text = name.text := by
  apply outsideBrackets_chars
  intro c hc
  obtain ⟨hblank, hsign⟩ := name.chars c hc
  exact ⟨hblank, fun hmem => hsign (List.mem_cons_of_mem _ hmem)⟩

theorem Segment.outside (s : Segment) : outsideBrackets 0 s.tokens.flatten = s.name := by
  cases s with
  | plain name =>
    unfold Segment.tokens
    rw [List.flatten_singleton]
    exact name.outside
  | applied name arguments =>
    unfold Segment.tokens
    rw [List.flatten_cons, List.flatten_cons, List.flatten_append, List.flatten_singleton,
      name.neutral.outside_append, List.singleton_append,
      (Argument.neutral_list arguments).outside_enclosed, List.append_nil]
    exact name.outside

theorem outside_dotted (ss : List Segment) :
    outsideBrackets 0 (Segment.dottedTokens ss).flatten =
      ss.flatMap fun s => '.' :: s.name := by
  induction ss with
  | nil =>
    unfold Segment.dottedTokens
    rfl
  | cons s ss ih =>
    unfold Segment.dottedTokens
    have hdot : Neutral ['.'] := neutral_of_chars (by simp)
    rw [List.flatten_cons, List.flatten_append, hdot.outside_append, s.neutral.outside_append,
      s.outside, ih]
    rfl

theorem outside_dimensions (n : Nat) : outsideBrackets 0 (dimensionTokens n).flatten = [] := by
  induction n with
  | zero => rfl
  | succ n ih => exact ih

theorem join_names (first : List Char) (rest : List (List Char)) :
    join ['.'] (first :: rest) = first ++ rest.flatMap ('.' :: ·) := by
  induction rest generalizing first with
  | nil => simp [join]
  | cons second rest ih =>
    have hjoin : join ['.'] (first :: second :: rest) =
        first ++ ['.'] ++ join ['.'] (second :: rest) := rfl
    rw [hjoin, ih]
    simp

/-- Outside of the brackets are the names, the dots between them and the ellipsis. -/
theorem TypeExpr.outside (e : TypeExpr) : outsideBrackets 0 e.tokens.flatten =
    join ['.'] e.names ++ if e.variadic then ellipsis else [] := by
  obtain ⟨first, others, dimensions, variadic⟩ := e
  unfold TypeExpr.tokens
  have hnames := first.neutral.append (Segment.neutral_dotted others)
  have hrow := hnames.append (neutral_dimensions dimensions)
  rw [List.flatten_append, List.flatten_append, List.flatten_append, hrow.outside_append,
    hnames.outside_append, first.neutral.outside_append, first.outside, outside_dotted,
    outside_dimensions, List.append_nil, TypeExpr.names, join_names, List.flatMap_map]
  cases variadic <;> rfl

/-! ### Dots at the ends -/

structure Undotted (cs : List Char) : Prop where
  head : ∀ c ∈ cs.head?, c ≠ '.'
  last : ∀ c ∈ cs.getLast?, c ≠ '.'

def dropDots (cs : List Char) : List Char :=
  dropEndWhile (· == '.') ((dropEllipses cs).dropWhile (· == '.'))

theorem rawName_eq (cs : List Char) : rawName cs = dropDots (outsideBrackets 0 cs) := rfl

theorem dropWhile_of_head {cs : List Char} (h : ∀ c ∈ cs.head?, c ≠ '.') :
    cs.dropWhile (· == '.') = cs := by
  cases cs with
  | nil => rfl
  | cons c cs => exact List.dropWhile_cons_of_neg (by simpa using h c rfl)

theorem Undotted.dropWhile {cs : List Char} (h : Undotted cs) : cs.dropWhile (· == '.') = cs :=
  dropWhile_of_head h.head

theorem Undotted.dropEndWhile {cs : List Char} (h : Undotted cs) :
    dropEndWhile (· == '.') cs = cs := by
  unfold Text.dropEndWhile
  rw [dropWhile_of_head (by simpa using h.last), List.reverse_reverse]

/-- An ellipsis at the end is dropped and nothing else. -/
theorem Undotted.dropEllipses {cs : List Char} (h : Undotted cs) (variadic : Bool) :
    dropEllipses (cs ++ if variadic then ellipsis else []) = cs := by
  have hend : cs.reverse.takeWhile (· == '.') = [] := by
    have hdrop : cs.reverse.dropWhile (· == '.') = cs.reverse :=
      dropWhile_of_head (by simpa using h.last)
    have hsplit := List.takeWhile_append_dropWhile (p := (· == '.')) (l := cs.reverse)
    rw [hdrop] at hsplit
    exact List.append_left_eq_self.mp hsplit
  unfold Java.dropEllipses
  cases variadic
  · simp [hend]
  · have hdots : (cs ++ ellipsis).reverse.takeWhile (· == '.') = ['.', '.', '.'] := by
      rw [List.reverse_append]
      have hreverse : ellipsis.reverse = ['.', '.', '.'] := rfl
      rw [hreverse, List.takeWhile_append_of_pos (by simp), hend, List.append_nil]
    rw [if_pos rfl, hdots]
    simp [ellipsis]

theorem Undotted.dropDots {cs : List Char} (h : Undotted cs) (variadic : Bool) :
    dropDots (cs ++ if variadic then ellipsis else []) = cs := by
  unfold Java.dropDots
  rw [h.dropEllipses, h.dropWhile, h.dropEndWhile]

theorem undotted_dropDots (cs : List Char) : Undotted (dropDots cs) := by
  unfold dropDots
  generalize hmiddle : (dropEllipses cs).dropWhile (· == '.') = middle
  constructor
  · intro c hc
    obtain ⟨tail, htail, -⟩ := dropEndWhile_append (· == '.') middle
    have hhead : middle.head? = some c := by
      rw [htail, List.head?_append, Option.mem_def.mp hc]
      rfl
    have hnot := List.head?_dropWhile_not (· == '.') (dropEllipses cs)
    rw [hmiddle, hhead] at hnot
    simpa using hnot
  · intro c hc
    obtain ⟨front, hfront⟩ := List.getLast?_eq_some_iff.mp (Option.mem_def.mp hc)
    simpa using of_concat_dropEndWhile hfront

theorem dropDots_sublist (cs : List Char) : (dropDots cs).Sublist cs := by
  obtain ⟨tail, htail, -⟩ := dropEndWhile_append (· == '.')
    ((dropEllipses cs).dropWhile (· == '.'))
  have hfront : (dropDots cs).Sublist ((dropEllipses cs).dropWhile (· == '.')) := by
    rw [htail]
    exact List.sublist_append_left _ _
  exact (hfront.trans (List.dropWhile_sublist _)).trans (List.take_sublist _ _)

theorem TypeName.undotted (name : TypeName) : ∀ c ∈ name.text, c ≠ '.' := by
  rintro c hc rfl
  exact (name.chars _ hc).2 (by decide)

theorem last_of_names (rest : List TypeName) : ∀ first : TypeName,
    ∀ c ∈ (first.text ++ rest.flatMap fun name => '.' :: name.text).getLast?, c ≠ '.' := by
  induction rest with
  | nil =>
    intro first c hc
    rw [List.flatMap_nil, List.append_nil] at hc
    exact first.undotted c (List.mem_of_getLast? hc)
  | cons second rest ih =>
    intro first c hc
    rw [List.flatMap_cons, List.cons_append,
      List.getLast?_append_of_ne_nil _ (List.cons_ne_nil _ _)] at hc
    have hne : second.text ++ (rest.flatMap fun name => '.' :: name.text) ≠ [] := by
      simp [second.nonempty]
    rw [List.getLast?_cons_of_ne_nil hne] at hc
    exact ih second c hc

theorem undotted_names (e : TypeExpr) : Undotted (join ['.'] e.names) := by
  obtain ⟨first, others, dimensions, variadic⟩ := e
  have hothers : (others.map Segment.name).flatMap ('.' :: ·) =
      (others.map Segment.typeName).flatMap fun name => '.' :: name.text := by
    rw [List.flatMap_map, List.flatMap_map]
    rfl
  rw [TypeExpr.names, join_names, hothers]
  constructor
  · intro c hc
    have hhead : c ∈ first.typeName.text := by
      obtain ⟨d, text, htext⟩ := List.exists_cons_of_ne_nil first.typeName.nonempty
      have hname : first.name = d :: text := htext
      rw [hname] at hc
      rw [htext, ← Option.some.inj hc]
      exact List.mem_cons_self
    exact first.typeName.undotted c hhead
  · exact last_of_names _ first.typeName

theorem rawName_of_spaced {e : TypeExpr} {text : List Char} (h : Spaced e.tokens text) :
    rawName text = join ['.'] e.names := by
  rw [rawName_eq, h.outside, e.outside]
  exact (undotted_names e).dropDots e.variadic

/-! ### A raw name is its own raw name -/

theorem mem_outsideBrackets {cs : List Char} {c : Char} : ∀ depth,
    c ∈ outsideBrackets depth cs → isBlank c = false ∧ c ∉ ['<', '>', '[', ']'] := by
  induction cs with
  | nil => exact fun _ h => absurd h List.not_mem_nil
  | cons d cs ih =>
    intro depth h
    unfold outsideBrackets at h
    split at h
    · exact ih _ h
    · rename_i hopen
      split at h
      · exact ih _ h
      · rename_i hclose
        split at h
        · exact ih _ h
        · rename_i hshown
          rcases List.mem_cons.mp h with rfl | h
          · simp only [Bool.or_eq_true, decide_eq_true_eq, beq_iff_eq, not_or,
              Bool.not_eq_true] at hshown
            simp [hopen, hclose, hshown]
          · exact ih _ h

theorem rawName_rawName (cs : List Char) : rawName (rawName cs) = rawName cs := by
  have hchars : ∀ c ∈ rawName cs, isBlank c = false ∧ c ∉ ['<', '>', '[', ']'] :=
    fun c hc => mem_outsideBrackets 0 ((dropDots_sublist _).subset hc)
  have hends : Undotted (rawName cs) := undotted_dropDots _
  rw [rawName_eq (rawName cs), outsideBrackets_chars hchars]
  simpa using hends.dropDots false

/-! ### Arrays -/

theorem Spaced.trimEnd {front t : List Char} {c : Char} (hc : isBlank c = false)
    (ht : t = front ++ [c]) {ts : List (List Char)} : ∀ {text : List Char},
      Spaced (ts ++ [t]) text → ∃ before, Text.trimEnd text = before ++ t := by
  have htrim : ∀ before blanks : List Char, (∀ d ∈ blanks, isBlank d = true) →
      Text.trimEnd (before ++ (t ++ blanks)) = before ++ t := by
    intro before blanks hblanks
    have hdrop : (blanks.reverse ++ (c :: front.reverse ++ before.reverse)).dropWhile isBlank =
        c :: front.reverse ++ before.reverse := by
      rw [List.dropWhile_append_of_pos (by simpa using hblanks), List.cons_append,
        List.dropWhile_cons_of_neg (by simp [hc])]
    have hreverse : (before ++ (t ++ blanks)).reverse =
        blanks.reverse ++ (c :: front.reverse ++ before.reverse) := by
      simp [ht]
    unfold Text.trimEnd Text.dropEndWhile
    rw [hreverse, hdrop]
    simp [ht]
  intro text h
  obtain ⟨before, blanks, hblanks, rfl⟩ : ∃ before blanks, (∀ d ∈ blanks, isBlank d = true) ∧
      text = before ++ (t ++ blanks) := by
    induction ts generalizing text with
    | nil =>
      cases h with
      | token _ hstop =>
        cases hstop with
        | stop hblanks => exact ⟨_, _, hblanks, rfl⟩
    | cons u ts ih =>
      cases h with
      | @token bs _ more _ _ hmore =>
        obtain ⟨before, blanks, hblanks, rfl⟩ := ih hmore
        exact ⟨bs ++ (u ++ before), blanks, hblanks, by simp⟩
  exact ⟨before, htrim before blanks hblanks⟩

theorem exists_last_token (first : Segment) (others : List Segment) :
    ∃ ts front c, first.tokens ++ Segment.dottedTokens others = ts ++ [front ++ [c]] ∧
      isBlank c = false ∧ c ≠ '.' ∧ c ≠ ']' := by
  induction others generalizing first with
  | nil =>
    unfold Segment.dottedTokens
    rw [List.append_nil]
    cases first with
    | plain name =>
      have hlast := List.dropLast_concat_getLast name.nonempty
      obtain ⟨hblank, hsign⟩ := name.chars _ (List.getLast_mem name.nonempty)
      refine ⟨[], name.text.dropLast, name.text.getLast name.nonempty, ?_, hblank, ?_, ?_⟩
      · rw [hlast, Segment.tokens]
        rfl
      · intro hdot
        exact hsign (by simp [hdot])
      · intro hbracket
        exact hsign (by simp [hbracket])
    | applied name arguments =>
      refine ⟨name.text :: ['<'] :: Argument.listTokens arguments, [], '>', ?_, by decide,
        by decide, by decide⟩
      rw [Segment.tokens]
      rfl
  | cons s others ih =>
    obtain ⟨ts, front, c, hlast, hc⟩ := ih s
    refine ⟨first.tokens ++ ['.'] :: ts, front, c, ?_, hc⟩
    rw [Segment.dottedTokens, hlast]
    simp

theorem dimensionTokens_succ (n : Nat) :
    ∃ ts, dimensionTokens (n + 1) = ts ++ [[']']] := by
  induction n with
  | zero => exact ⟨[['[']], rfl⟩
  | succ n ih =>
    obtain ⟨ts, hts⟩ := ih
    refine ⟨['['] :: [']'] :: ts, ?_⟩
    rw [dimensionTokens, hts]
    rfl

/-- The last token tells arrays apart. -/
theorem isArrayType_of_last {text : String} {ts : List (List Char)} {front : List Char} {c : Char}
    (h : Spaced (ts ++ [front ++ [c]]) text.toList) (hblank : isBlank c = false)
    (hdot : c ≠ '.') : isArrayType text = true ↔ c = ']' := by
  obtain ⟨before, htrim⟩ := h.trimEnd hblank rfl
  unfold isArrayType
  have hend : stripEnd ['.', '.', '.'] (before ++ (front ++ [c])) = none := by
    simp [stripEnd, stripStart, Ne.symm hdot]
  rw [htrim]
  dsimp only
  rw [hend, ← List.append_assoc, List.getLast?_concat]
  simp

theorem isArrayType_of_spaced {e : TypeExpr} {text : String} (h : Spaced e.tokens text.toList) :
    isArrayType text = true ↔ 0 < e.dimensions ∨ e.variadic = true := by
  obtain ⟨first, others, dimensions, variadic⟩ := e
  unfold TypeExpr.tokens at h
  unfold TypeExpr.dimensions TypeExpr.variadic
  cases variadic with
  | true =>
    have hellipsis : ellipsis = ['.', '.'] ++ ['.'] := rfl
    rw [if_pos rfl, hellipsis] at h
    obtain ⟨before, htrim⟩ := h.trimEnd (by decide) rfl
    have hend : (stripEnd ['.', '.', '.'] (before ++ (['.', '.'] ++ ['.']))).isSome = true := by
      simp [stripEnd, stripStart]
    unfold isArrayType
    rw [htrim]
    dsimp only
    rw [hend]
    simp
  | false =>
    rw [if_neg Bool.false_ne_true, List.append_nil] at h
    cases dimensions with
    | succ n =>
      obtain ⟨ts, hts⟩ := dimensionTokens_succ n
      rw [hts, ← List.append_assoc, ← List.nil_append [']']] at h
      rw [isArrayType_of_last h (by decide) (by decide)]
      simp
    | zero =>
      obtain ⟨ts, front, c, hlast, hblank, hdot, hbracket⟩ := exists_last_token first others
      rw [dimensionTokens, List.append_nil, hlast] at h
      rw [isArrayType_of_last h hblank hdot]
      simp [hbracket]

/-- However a type expression is spaced out, its raw name are its names joined by dots, and it is an
array type if it has a dimension or an ellipsis. Any text at all has a raw name that stays the same
when it is taken for a type again. -/
theorem stripGenerics_raw :
    (∀ (e : TypeExpr) (text : String), Spaced e.tokens text.toList →
      stripGenerics text = joined "." (e.names.map String.ofList) ∧
        (isArrayType text = true ↔ 0 < e.dimensions ∨ e.variadic = true)) ∧
    ∀ text : String, stripGenerics (stripGenerics text) = stripGenerics text := by
  constructor
  · intro e text h
    refine ⟨?_, isArrayType_of_spaced h⟩
    have htexts : (e.names.map String.ofList).map String.toList = e.names := by simp
    unfold stripGenerics joined
    rw [rawName_of_spaced h, htexts]
    rfl
  · intro text
    unfold stripGenerics
    rw [String.toList_ofList, rawName_rawName]

def simpleName (s : String) (h : s.toList ≠ [] ∧ s.toList.all (IsNameChar ·) = true) : TypeName :=
  ⟨s.toList, h.1, fun c hc => of_decide_eq_true (List.all_eq_true.mp h.2 c hc)⟩

def entryType : TypeExpr :=
  .mk (.plain (simpleName "util" (by decide +kernel)))
    [.applied (simpleName "Map" (by decide +kernel))
      [.type (.mk (.plain (simpleName "K" (by decide +kernel))) [] 0 false),
        .bounded .upper (.mk (.applied (simpleName "List" (by decide +kernel))
          [.type (.mk (.plain (simpleName "int" (by decide +kernel))) [] 1 false)]) [] 0 false)],
      .plain (simpleName "Entry" (by decide +kernel))] 1 true

def entryText : String := "util .Map<K, ? extends List< int[]>>\n.Entry [ ]... "

def entryRow : List (List Char × List Char) :=
  [("", "util"), (" ", "."), ("", "Map"), ("", "<"), ("", "K"), ("", ","), (" ", "?"),
    (" ", "extends"), (" ", "List"), ("", "<"), (" ", "int"), ("", "["), ("", "]"), ("", ">"),
    ("", ">"), ("\n", "."), ("", "Entry"), (" ", "["), (" ", "]"), ("", "...")].map
    fun p => (p.1.toList, p.2.toList)

theorem spaced_row {row : List (List Char × List Char)} {last : List Char}
    (h : row.all (·.1.all isBlank) = true) (hlast : last.all isBlank = true) :
    Spaced (row.map Prod.snd) (row.flatMap (fun p => p.1 ++ p.2) ++ last) := by
  induction row with
  | nil => exact .stop (List.all_eq_true.mp hlast)
  | cons p row ih =>
    obtain ⟨hp, hrow⟩ := Bool.and_eq_true_iff.mp h
    rw [List.map_cons, List.flatMap_cons, List.append_assoc, List.append_assoc]
    exact .token (List.all_eq_true.mp hp) (ih hrow)

/-- The brackets of the arguments hide an array, the dimension behind them counts. -/
theorem entryType_raw : Spaced entryType.tokens entryText.toList ∧
    stripGenerics entryText = "util.Map.Entry" ∧ isArrayType entryText = true := by
  have htokens : entryType.tokens = entryRow.map Prod.snd := by decide +kernel
  have htext : entryText.toList = entryRow.flatMap (fun p => p.1 ++ p.2) ++ [' '] := by
    decide +kernel
  have hspaced : Spaced entryType.tokens entryText.toList := by
    rw [htokens, htext]
    exact spaced_row (by decide +kernel) (by decide +kernel)
  obtain ⟨hraw, harray⟩ := stripGenerics_raw.1 _ _ hspaced
  have hnames : joined "." (entryType.names.map String.ofList) = "util.Map.Entry" := by
    decide +kernel
  exact ⟨hspaced, hraw.trans hnames, harray.mpr (Or.inl (by decide +kernel))⟩

end Carve.Java
