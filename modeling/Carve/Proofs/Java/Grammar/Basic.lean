import Carve.Java.Grammar.Basic
import Carve.Proofs.Java.Scan

/-!
# What productions yield

A production that reads genuine tokens leaves genuine tokens and yields a tree whose names are
single words. The tools of the grammar preserve this, so that each production needs a look at its
own parts only.
-/

namespace Carve.Java

variable {source : List Char}

def Plain (source : List Char) (n : Node) : Prop :=
  ∀ c ∈ (n.text source).toList, Token.IsWordChar c

def Declares (n : Node) : Prop := n.role = some .declarator → n.kind = .variableDeclarator

/-- Whatever plays the role of a name below the node is plain. Only annotations are called by
qualified names. -/
inductive Tidy (source : List Char) : Node → Prop where
  | intro {k : Kind} {r : Option Role} {e : Extent} {cs : List Node} :
      (k ≠ .annotationMark → ∀ c ∈ cs, c.role = some .name → Plain source c) →
      (∀ c ∈ cs, Declares c) → (∀ c ∈ cs, Tidy source c) → Tidy source (.mk k r e cs)

theorem Tidy.children {n : Node} (h : Tidy source n) : ∀ c ∈ n.children, Tidy source c := by
  cases h with
  | intro _ _ hcs => exact hcs

theorem Tidy.plain {n : Node} (h : Tidy source n) (hk : n.kind ≠ .annotationMark) {c : Node}
    (hc : n.child? .name = some c) : Plain source c := by
  cases h with
  | intro hname _ _ =>
    have hrole := List.find?_some hc
    exact hname hk c (List.mem_of_find?_eq_some hc) (by simpa using hrole)

theorem Tidy.declarator {n c : Node} (h : Tidy source n) (hc : c ∈ n.childrenIn .declarator) :
    Tidy source c ∧ c.kind = .variableDeclarator := by
  obtain ⟨hmem, hrole⟩ := List.mem_filter.mp hc
  cases h with
  | intro _ hdeclares hcs => exact ⟨hcs c hmem, hdeclares c hmem (by simpa using hrole)⟩

theorem tidy_as {n : Node} {r : Role} : Tidy source (n.as r) ↔ Tidy source n := by
  cases n with
  | mk k r' e cs =>
    constructor <;> rintro ⟨hname, hdeclares, hcs⟩ <;> exact ⟨hname, hdeclares, hcs⟩

/-- A node that no parent has given a role yet. -/
structure Whole (source : List Char) (n : Node) : Prop where
  tidy : Tidy source n
  role : n.role = none

/-- A node that can be a part of any other but an annotation. -/
structure Part (source : List Char) (n : Node) : Prop where
  tidy : Tidy source n
  plain : n.role = some .name → Plain source n
  declares : Declares n

structure Name (source : List Char) (n : Node) : Prop where
  whole : Whole source n
  plain : Plain source n

def All (P : Node → Prop) (ns : List Node) : Prop := ∀ n ∈ ns, P n

section

variable {P : Node → Prop} {n : Node} {ns ms : List Node} {r : Role}

@[simp] theorem all_nil : All P [] := by simp [All]
@[simp] theorem all_cons : All P (n :: ns) ↔ P n ∧ All P ns := by simp [All]
@[simp] theorem all_append : All P (ns ++ ms) ↔ All P ns ∧ All P ms := by
  simp [All, or_imp, forall_and]

theorem All.imp {Q : Node → Prop} (h : All P ns) (hPQ : ∀ n, P n → Q n) : All Q ns :=
  fun n hn => hPQ n (h n hn)

@[simp] theorem Whole.part (h : Whole source n) : Part source n :=
  ⟨h.tidy, fun hr => (nomatch h.role.symm.trans hr), fun hr => (nomatch h.role.symm.trans hr)⟩

@[simp] theorem Name.part (h : Name source n) : Part source n := h.whole.part

@[simp] theorem all_part_of_whole (h : All (Whole source) ns) : All (Part source) ns :=
  h.imp fun _ hn => hn.part

@[simp] theorem all_part_of_name (h : All (Name source) ns) : All (Part source) ns :=
  h.imp fun _ hn => hn.part

theorem plain_as : Plain source (n.as r) ↔ Plain source n := by cases n; rfl

theorem role_as : (n.as r).role = some r := by cases n; rfl

theorem kind_as : (n.as r).kind = n.kind := by cases n; rfl

theorem declares_as (hr : r ≠ .declarator) : Declares (n.as r) := by
  intro hrole
  rw [role_as] at hrole
  exact absurd (Option.some.inj hrole) hr

@[simp] theorem Name.part_as (h : Name source n) : Part source (n.as .name) :=
  ⟨tidy_as.mpr h.whole.tidy, fun _ => plain_as.mpr h.plain, declares_as (by decide)⟩

@[simp] theorem Part.part_as (h : Part source n) (hr : r ≠ .name) (hd : r ≠ .declarator) :
    Part source (n.as r) := by
  refine ⟨tidy_as.mpr h.tidy, fun hname => ?_, declares_as hd⟩
  rw [role_as] at hname
  exact absurd (Option.some.inj hname) hr

@[simp] theorem all_part_map_as (h : All (Part source) ns) (hr : r ≠ .name)
    (hd : r ≠ .declarator) : All (Part source) (ns.map (·.as r)) := by
  intro n hn
  obtain ⟨m, hm, rfl⟩ := List.mem_map.mp hn
  exact (h m hm).part_as hr hd

@[simp] theorem all_part_map_as_name (h : All (Name source) ns) :
    All (Part source) (ns.map (·.as .name)) := by
  intro n hn
  obtain ⟨m, hm, rfl⟩ := List.mem_map.mp hn
  exact (h m hm).part_as

theorem whole_mk {k : Kind} {e : Extent} (h : All (Part source) ns) :
    Whole source (.mk k none e ns) :=
  ⟨⟨fun _ c hc => (h c hc).plain, fun c hc => (h c hc).declares, fun c hc => (h c hc).tidy⟩, rfl⟩

theorem whole_branch (k : Kind) (h : All (Part source) ns) : Whole source (.branch k ns) := by
  unfold Node.branch
  split
  · exact whole_mk all_nil
  · exact whole_mk h

end

/-- What a word reads in the text is made of the characters of words. -/
def Genuine (source : List Char) (t : Token) : Prop :=
  t.lexeme = .word → Plain source (Parse.leaf .identifier t)

/-- From genuine tokens the parser reads a result with the property and leaves genuine tokens. -/
def Yields (source : List Char) {α : Type} (P : α → Prop) (p : Parse α) : Prop :=
  ∀ ts a rest, p ts = some (a, rest) → (∀ t ∈ ts, Genuine source t) →
    P a ∧ ∀ t ∈ rest, Genuine source t

namespace Yields

variable {α β : Type} {P : α → Prop} {Q : β → Prop} {p q : Parse α} {f : α → Parse β}

theorem pure {a : α} (h : P a) : Yields source P (Pure.pure a) := by
  intro ts b rest heq hts
  obtain ⟨rfl, rfl⟩ := Prod.mk.inj (Option.some.inj heq)
  exact ⟨h, hts⟩

theorem bind (hp : Yields source P p) (hf : ∀ a, P a → Yields source Q (f a)) :
    Yields source Q (p >>= f) := by
  intro ts b rest heq hts
  obtain ⟨⟨a, mid⟩, hread, hrest⟩ := Option.bind_eq_some_iff.mp heq
  obtain ⟨ha, hmid⟩ := hp ts a mid hread hts
  exact hf a ha mid b rest hrest hmid

theorem orElse (hp : Yields source P p) (hq : Yields source P q) : Yields source P (p <|> q) := by
  intro ts a rest heq hts
  have heq : (p ts <|> q ts) = some (a, rest) := heq
  cases hread : p ts with
  | some r =>
    rw [hread] at heq
    exact hp ts a rest (hread.trans heq) hts
  | none =>
    rw [hread] at heq
    exact hq ts a rest heq hts

theorem ite {c : Prop} [Decidable c] (hp : c → Yields source P p) (hq : ¬ c → Yields source P q) :
    Yields source P (if c then p else q) := by
  split
  · exact hp ‹_›
  · exact hq ‹_›

theorem imp {P' : α → Prop} (hp : Yields source P p) (h : ∀ a, P a → P' a) :
    Yields source P' p := by
  intro ts a rest heq hts
  obtain ⟨ha, hrest⟩ := hp ts a rest heq hts
  exact ⟨h a ha, hrest⟩

end Yields

namespace Grammar

open Parse

section

variable {α : Type} {P : Node → Prop}

def Looks (p : Parse α) : Prop := ∀ ts a rest, p ts = some (a, rest) → rest = ts

theorem Looks.bind {β : Type} {Q : β → Prop} {p : Parse α} {f : α → Parse β} (h : Looks p)
    (hf : ∀ a, Yields source Q (f a)) : Yields source Q (p >>= f) := by
  intro ts b rest heq hts
  obtain ⟨⟨a, mid⟩, hread, hrest⟩ := Option.bind_eq_some_iff.mp heq
  obtain rfl := h ts a mid hread
  exact hf a mid b rest hrest hts

theorem looks_pure (a : α) : Looks (Pure.pure a) := by
  intro ts b rest heq
  obtain ⟨rfl, rfl⟩ := Prod.mk.inj (Option.some.inj heq)
  rfl

theorem looks_bind {β : Type} {p : Parse α} {f : α → Parse β} (hp : Looks p)
    (hf : ∀ a, Looks (f a)) : Looks (p >>= f) := by
  intro ts b rest heq
  obtain ⟨⟨a, mid⟩, hread, hrest⟩ := Option.bind_eq_some_iff.mp heq
  obtain rfl := hp ts a mid hread
  exact hf a mid b rest hrest

theorem looks_looksAt (p : Token → Bool) : Looks (looksAt p) := by
  intro ts a rest heq
  obtain ⟨rfl, rfl⟩ := Prod.mk.inj (Option.some.inj heq)
  rfl

theorem looks_looksAtNth (i : Nat) (p : Token → Bool) : Looks (looksAtNth i p) := by
  intro ts a rest heq
  obtain ⟨rfl, rfl⟩ := Prod.mk.inj (Option.some.inj heq)
  rfl

theorem looks_isAhead (p : Parse α) : Looks (isAhead p) := by
  intro ts a rest heq
  obtain ⟨rfl, rfl⟩ := Prod.mk.inj (Option.some.inj heq)
  rfl

theorem looks_peek? : Looks peek? := by
  intro ts a rest heq
  obtain ⟨rfl, rfl⟩ := Prod.mk.inj (Option.some.inj heq)
  rfl

theorem looks_atLambda : Looks atLambda := by
  intro ts a rest heq
  obtain ⟨rfl, rfl⟩ := Prod.mk.inj (Option.some.inj heq)
  rfl

theorem looks_guardThat (b : Bool) : Looks (guardThat b) := by
  intro ts a rest heq
  unfold guardThat at heq
  split at heq
  · obtain ⟨rfl, rfl⟩ := Prod.mk.inj (Option.some.inj heq)
    rfl
  · cases heq

theorem whole_leaf (k : Kind) (t : Token) : Whole source (leaf k t) := whole_mk all_nil

theorem yields_accept (k : Kind) (p : Token → Bool) :
    Yields source (Whole source) (accept k p) := by
  intro ts n rest heq hts
  cases ts with
  | nil => cases heq
  | cons t ts =>
    simp only [accept] at heq
    split at heq
    · obtain ⟨rfl, rfl⟩ := Prod.mk.inj (Option.some.inj heq)
      exact ⟨whole_leaf k t, fun u hu => hts u (List.mem_cons_of_mem _ hu)⟩
    · cases heq

theorem yields_symbol (s : String) : Yields source (Whole source) (symbol s) := yields_accept _ _

theorem yields_word (s : String) : Yields source (Whole source) (word s) := yields_accept _ _

theorem yields_accept_name {k : Kind} {p : Token → Bool}
    (hp : ∀ t, p t = true → t.lexeme = .word) : Yields source (Name source) (accept k p) := by
  intro ts n rest heq hts
  obtain ⟨hwhole, hrest⟩ := yields_accept k p ts n rest heq hts
  refine ⟨⟨hwhole, ?_⟩, hrest⟩
  cases ts with
  | nil => cases heq
  | cons t ts =>
    simp only [accept] at heq
    split at heq
    · rename_i ht
      obtain ⟨rfl, -⟩ := Prod.mk.inj (Option.some.inj heq)
      exact hts t List.mem_cons_self (hp t ht)
    · cases heq

theorem yields_name : Yields source (Name source) name :=
  yields_accept_name fun t ht => by
    simp only [isName, Bool.and_eq_true, beq_iff_eq] at ht
    exact ht.1

theorem yields_maybe {p : Parse (List Node)} (hp : Yields source (All P) p) :
    Yields source (All P) (maybe p) := by
  intro ts ns rest heq hts
  unfold maybe at heq
  split at heq
  · rename_i r hr
    exact hp ts ns rest (hr.trans heq) hts
  · obtain ⟨rfl, rfl⟩ := Prod.mk.inj (Option.some.inj heq)
    exact ⟨all_nil, hts⟩

theorem yields_one {p : Parse Node} (hp : Yields source P p) : Yields source (All P) (one p) := by
  intro ts ns rest heq hts
  obtain ⟨⟨n, rest'⟩, hread, he⟩ := Option.map_eq_some_iff.mp heq
  obtain ⟨rfl, rfl⟩ := Prod.mk.inj he
  obtain ⟨hn, hrest⟩ := hp ts n rest' hread hts
  exact ⟨by simpa using hn, hrest⟩

theorem yields_manyFrom {p : Parse (List Node)} (hp : Yields source (All P) p) (fuel : Nat) :
    Yields source (All P) (manyFrom p fuel) := by
  induction fuel with
  | zero =>
    intro ts ns rest heq hts
    obtain ⟨rfl, rfl⟩ := Prod.mk.inj (Option.some.inj heq)
    exact ⟨all_nil, hts⟩
  | succ fuel ih =>
    intro ts ns rest heq hts
    unfold manyFrom at heq
    split at heq
    · obtain ⟨rfl, rfl⟩ := Prod.mk.inj (Option.some.inj heq)
      exact ⟨all_nil, hts⟩
    · rename_i ns' rest' hread
      obtain ⟨hns, hrest⟩ := hp ts ns' rest' hread hts
      split at heq
      · split at heq
        · rename_i more rest'' hmore
          obtain ⟨rfl, rfl⟩ := Prod.mk.inj (Option.some.inj heq)
          obtain ⟨hall, hlast⟩ := ih rest' more rest'' hmore hrest
          exact ⟨by simp [hns, hall], hlast⟩
        · obtain ⟨rfl, rfl⟩ := Prod.mk.inj (Option.some.inj heq)
          exact ⟨hns, hrest⟩
      · obtain ⟨rfl, rfl⟩ := Prod.mk.inj (Option.some.inj heq)
        exact ⟨all_nil, hts⟩

theorem yields_many {p : Parse (List Node)} (hp : Yields source (All P) p) :
    Yields source (All P) (many p) := fun ts => yields_manyFrom hp ts.length ts

theorem yields_growFrom {step : Node → Parse Node} (hstep : ∀ n, P n → Yields source P (step n))
    (fuel : Nat) : ∀ n, P n → Yields source P (growFrom step fuel n) := by
  induction fuel with
  | zero =>
    intro n hn ts m rest heq hts
    obtain ⟨rfl, rfl⟩ := Prod.mk.inj (Option.some.inj heq)
    exact ⟨hn, hts⟩
  | succ fuel ih =>
    intro n hn ts m rest heq hts
    unfold growFrom at heq
    split at heq
    · rename_i n' rest' hread
      obtain ⟨hn', hrest⟩ := hstep n hn ts n' rest' hread hts
      split at heq
      · exact ih n' hn' rest' m rest heq hrest
      · obtain ⟨rfl, rfl⟩ := Prod.mk.inj (Option.some.inj heq)
        exact ⟨hn, hts⟩
    · obtain ⟨rfl, rfl⟩ := Prod.mk.inj (Option.some.inj heq)
      exact ⟨hn, hts⟩

theorem yields_grow {step : Node → Parse Node} (hstep : ∀ n, P n → Yields source P (step n))
    {n : Node} (hn : P n) : Yields source P (grow step n) :=
  fun ts => yields_growFrom hstep ts.length n hn ts

theorem yields_separatedBy {sep : String} (hsep : Yields source P (symbol sep)) {item : Parse Node}
    (hitem : Yields source P item) : Yields source (All P) (separated sep item) := by
  have hmore : Yields source (All P) (do
      let s ← symbol sep
      let n ← item
      return [s, n]) :=
    hsep.bind fun s hs => hitem.bind fun n hn => .pure (by simp [hs, hn])
  refine hitem.bind fun first hfirst => (yields_many hmore).bind fun rest hrest => .pure ?_
  simp [hfirst, hrest]

theorem yields_separated (sep : String) {item : Parse Node}
    (hitem : Yields source (Whole source) item) :
    Yields source (All (Part source)) (separated sep item) :=
  yields_separatedBy ((yields_symbol sep).imp fun _ => Whole.part) (hitem.imp fun _ => Whole.part)

theorem yields_commaList {item : Parse Node} (hitem : Yields source (Whole source) item) :
    Yields source (All (Part source)) (commaList item) := yields_separated "," hitem

theorem yields_option {p : Parse Node} (hp : Yields source (Whole source) p) :
    Yields source (All (Part source)) (maybe (one p)) :=
  yields_maybe (yields_one (hp.imp fun _ => Whole.part))

theorem yields_repeated {p : Parse Node} (hp : Yields source (Whole source) p) :
    Yields source (All (Part source)) (many (one p)) :=
  yields_many (yields_one (hp.imp fun _ => Whole.part))

theorem yields_build {k : Kind} {parts : Parse (List Node)}
    (h : Yields source (All (Part source)) parts) :
    Yields source (Whole source) (build k parts) := by
  intro ts n rest heq hts
  obtain ⟨⟨ns, rest'⟩, hread, he⟩ := Option.map_eq_some_iff.mp heq
  obtain ⟨rfl, rfl⟩ := Prod.mk.inj he
  obtain ⟨hns, hrest⟩ := h ts ns rest' hread hts
  exact ⟨whole_branch k hns, hrest⟩

theorem yields_build_kind {k : Kind} {parts : Parse (List Node)}
    (h : Yields source (All (Part source)) parts) :
    Yields source (fun n => Whole source n ∧ n.kind = k) (build k parts) := by
  intro ts n rest heq hts
  obtain ⟨hwhole, hrest⟩ := yields_build h ts n rest heq hts
  obtain ⟨⟨ns, rest'⟩, -, he⟩ := Option.map_eq_some_iff.mp heq
  obtain ⟨rfl, rfl⟩ := Prod.mk.inj he
  exact ⟨⟨hwhole, by cases ns <;> rfl⟩, hrest⟩

theorem yields_within {n : Nat} {p : Parse α} {Q : α → Prop} (hp : Yields source Q p) :
    Yields source Q (within n p) := by
  intro ts a rest heq hts
  obtain ⟨⟨b, rest'⟩, hread, he⟩ := Option.map_eq_some_iff.mp heq
  obtain ⟨rfl, rfl⟩ := Prod.mk.inj he
  obtain ⟨hb, hrest⟩ := hp _ b rest' hread fun t ht => hts t (List.mem_of_mem_take ht)
  refine ⟨hb, fun t ht => ?_⟩
  rcases List.mem_append.mp ht with ht | ht
  · exact hrest t ht
  · exact hts t (List.mem_of_mem_drop ht)

end

def Subs (source : List Char) (sub : Sub) : Prop := ∀ g, Yields source (Whole source) (sub g)

end Grammar

end Carve.Java
