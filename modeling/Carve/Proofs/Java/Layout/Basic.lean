import Carve.Proofs.Java.Grammar.Basic

/-!
# Where the parts of a tree stand

A production that reads tokens one after the other makes nodes that stand one after the other, each
from the start of a token to the end of one, with its own parts inside it. The tools of the grammar
preserve this as well, so that each production need only name its parts in the order of reading.
-/

namespace Carve.Java

/-- Nodes one after the other from one place of the text to another. -/
inductive Chain : Nat → List Node → Nat → Prop where
  | nil {lo hi : Nat} : lo ≤ hi → Chain lo [] hi
  | cons {lo hi : Nat} {n : Node} {ns : List Node} :
      lo ≤ n.span.start → Chain n.span.stop ns hi → Chain lo (n :: ns) hi

/-- The parts of an enum body: after the members no constant follows. -/
structure EnumParts (cs : List Node) : Prop where
  kinds : ∀ c ∈ cs, c.kind = .token ∨ c.kind = .comment ∨ c.kind = .enumConstant ∨
    c.kind = .enumMembers
  order : cs.Pairwise fun a b => a.kind = .enumMembers → b.kind ≠ .enumConstant

/-- One of the words by which a constructor call tells the constructor. -/
def Target (n : Node) : Prop := n.role = none ∧ (n.kind = .this ∨ n.kind = .super)

/-- The parts of a constructor call. What is called stands in front, or behind type arguments in
front, or it is the constructor of the superclass of an object's type. -/
structure CallParts (e : Extent) (cs : List Node) : Prop where
  target : ∃ t ∈ cs, Target t ∧ (∀ c ∈ cs, Target c → c.kind = t.kind) ∧
    (t.extent.start = e.start ∧ (∀ c ∈ cs, c.role ≠ some .typeArguments) ∨
      (∃ a ∈ cs, a.kind = .typeArguments ∧ a.role = some .typeArguments ∧
        a.extent.start = e.start) ∨
      t.kind = .super ∧ ∃ o ∈ cs, o.role = some .object)

/-- The parts of a declarator: its name, then the dimensions, then the value. -/
def DeclaratorParts (cs : List Node) : Prop :=
  (cs.filterMap (·.role)).Sublist [.name, .dimensions, .value]

/-- What a tree is laid on: where something starts, where something stops, and what an extent
tells. -/
structure Ground where
  starts : Mark → Prop
  stops : Mark → Prop
  tells : Extent → String → Prop

structure Ground.Within (g g' : Ground) : Prop where
  starts : ∀ m, g.starts m → g'.starts m
  stops : ∀ m, g.stops m → g'.stops m
  tells : ∀ e s, g.tells e s → g'.tells e s

/-- What the kind of a node tells of its parts and its text, where that matters. -/
def Fits (g : Ground) : Kind → Extent → List Node → Prop
  | .enumBody, _, cs => EnumParts cs
  | .this, e, _ => g.tells e "this"
  | .super, e, _ => g.tells e "super"
  | .typeArguments, e, cs => ∃ c ∈ cs, c.extent.start = e.start ∧ g.tells c.extent "<"
  | .ctorInvocation, e, cs => CallParts e cs
  | .fieldDeclaration, e, cs =>
    ∃ c ∈ cs, c.role = none ∧ c.extent.stop = e.stop ∧ g.tells c.extent ";"
  | .variableDeclarator, _, cs => DeclaratorParts cs
  | _, _, _ => True

def Kind.isLoose : Kind → Bool
  | .enumBody | .this | .super | .typeArguments | .ctorInvocation | .fieldDeclaration
  | .variableDeclarator => false
  | _ => true

theorem fits_of_isLoose {k : Kind} (h : k.isLoose = true) (g : Ground) (e : Extent)
    (cs : List Node) : Fits g k e cs := by
  cases k <;> trivial

theorem Fits.imp {g g' : Ground} {k : Kind} {e : Extent} {cs : List Node} (h : Fits g k e cs)
    (hg : g.Within g') : Fits g' k e cs := by
  unfold Fits at h ⊢
  split
  · exact h
  · exact hg.tells _ _ h
  · exact hg.tells _ _ h
  · obtain ⟨c, hc, hstart, htells⟩ := h
    exact ⟨c, hc, hstart, hg.tells _ _ htells⟩
  · exact h
  · obtain ⟨c, hc, hrole, hstop, htells⟩ := h
    exact ⟨c, hc, hrole, hstop, hg.tells _ _ htells⟩
  · exact h
  · trivial

/-- A node with its parts inside it one after the other, all of them from a mark where something
starts to a mark where something stops. -/
inductive Laid (g : Ground) : Node → Prop where
  | intro {k : Kind} {r : Option Role} {e : Extent} {cs : List Node} :
      g.starts e.start → g.stops e.stop → e.start.offset < e.stop.offset →
      Chain e.start.offset cs e.stop.offset → Fits g k e cs →
      (∀ c ∈ cs, Laid g c) → Laid g (.mk k r e cs)

namespace Chain

variable {lo mid hi : Nat} {n : Node} {ns ms : List Node}

theorem append (h : Chain lo ns mid) (k : Chain mid ms hi) : Chain lo (ns ++ ms) hi := by
  induction h with
  | nil hle =>
    cases k with
    | nil hle' => exact .nil (Nat.le_trans hle hle')
    | cons hstart hrest => exact .cons (Nat.le_trans hle hstart) hrest
  | cons hstart _ ih => exact .cons hstart (ih k)

theorem widen (h : Chain lo ns mid) (hle : mid ≤ hi) : Chain lo ns hi := by
  induction h with
  | nil hle' => exact .nil (Nat.le_trans hle' hle)
  | cons hstart _ ih => exact .cons hstart (ih hle)

theorem map {f : Node → Node} (hf : ∀ n, (f n).extent = n.extent) (h : Chain lo ns hi) :
    Chain lo (ns.map f) hi := by
  have hspan : ∀ n, (f n).span = n.span := fun n => congrArg Extent.span (hf n)
  induction h with
  | nil hle => exact .nil hle
  | cons hstart _ ih => exact .cons (by rwa [hspan]) (by rwa [hspan])

end Chain

namespace Laid

variable {g : Ground} {n : Node}

theorem starts (h : Laid g n) : g.starts n.extent.start := by
  cases h with
  | intro hstart => exact hstart

theorem stops (h : Laid g n) : g.stops n.extent.stop := by
  cases h with
  | intro _ hstop => exact hstop

theorem nonempty (h : Laid g n) : n.span.start < n.span.stop := by
  cases h with
  | intro _ _ hlt => exact hlt

theorem chain (h : Laid g n) : Chain n.span.start n.children n.span.stop := by
  cases h with
  | intro _ _ _ hchain => exact hchain

theorem fits (h : Laid g n) : Fits g n.kind n.extent n.children := by
  cases h with
  | intro _ _ _ _ hfits => exact hfits

theorem enumParts (h : Laid g n) (hk : n.kind = .enumBody) : EnumParts n.children := by
  have hfits := h.fits
  rw [hk] at hfits
  exact hfits

theorem declaratorParts (h : Laid g n) (hk : n.kind = .variableDeclarator) :
    DeclaratorParts n.children := by
  have hfits := h.fits
  rw [hk] at hfits
  exact hfits

theorem children (h : Laid g n) : ∀ c ∈ n.children, Laid g c := by
  cases h with
  | intro _ _ _ _ _ hcs => exact hcs

theorem as (h : Laid g n) (r : Role) : Laid g (n.as r) := by
  cases h with
  | intro hstart hstop hlt hchain hfits hcs => exact .intro hstart hstop hlt hchain hfits hcs

theorem imp {g' : Ground} (h : Laid g n) (hg : g.Within g') : Laid g' n := by
  induction h with
  | intro hstart hstop hlt hchain hfits _ ih =>
    exact .intro (hg.starts _ hstart) (hg.stops _ hstop) hlt hchain (hfits.imp hg) ih

end Laid

theorem extent_as (n : Node) (r : Role) : (n.as r).extent = n.extent := by cases n; rfl

def Ground.ofTokens (code : List Token) : Ground where
  starts m := ∃ t ∈ code, t.extent.start = m
  stops m := ∃ t ∈ code, t.extent.stop = m
  tells e s := ∃ t ∈ code, t.extent = e ∧ t.text = s

/-- Laid nodes one after the other, made of the tokens of the code. -/
structure Row (code : List Token) (lo : Nat) (ns : List Node) (hi : Nat) : Prop where
  chain : Chain lo ns hi
  laid : ∀ n ∈ ns, Laid (.ofTokens code) n

namespace Row

variable {code : List Token} {lo mid hi : Nat} {n : Node} {ns ms : List Node}

theorem nil : Row code lo [] lo := ⟨.nil (Nat.le_refl lo), by simp⟩

theorem append (h : Row code lo ns mid) (k : Row code mid ms hi) : Row code lo (ns ++ ms) hi := by
  refine ⟨h.chain.append k.chain, fun n hn => ?_⟩
  rcases List.mem_append.mp hn with hn | hn
  · exact h.laid n hn
  · exact k.laid n hn

theorem le (h : Row code lo ns hi) : lo ≤ hi := by
  obtain ⟨hchain, hlaid⟩ := h
  induction hchain with
  | nil hle => exact hle
  | cons hstart _ ih =>
    have hlt := (hlaid _ List.mem_cons_self).nonempty
    have hrest := ih fun n hn => hlaid n (List.mem_cons_of_mem _ hn)
    omega

theorem lower (h : Row code mid ns hi) (hle : lo ≤ mid) : Row code lo ns hi := by
  refine ⟨?_, h.laid⟩
  cases h.chain with
  | nil hle' => exact .nil (Nat.le_trans hle hle')
  | cons hstart hrest => exact .cons (Nat.le_trans hle hstart) hrest

theorem widen (h : Row code lo ns mid) (hle : mid ≤ hi) : Row code lo ns hi :=
  ⟨h.chain.widen hle, h.laid⟩

theorem map {f : Node → Node} (hf : ∀ n, f n = n ∨ ∃ r, f n = n.as r) (h : Row code lo ns hi) :
    Row code lo (ns.map f) hi := by
  have hextent : ∀ n, (f n).extent = n.extent := by
    intro n
    rcases hf n with hsame | ⟨r, has⟩
    · rw [hsame]
    · rw [has, extent_as]
  refine ⟨h.chain.map hextent, fun n hn => ?_⟩
  obtain ⟨m, hm, rfl⟩ := List.mem_map.mp hn
  rcases hf m with hsame | ⟨r, has⟩
  · rw [hsame]
    exact h.laid m hm
  · rw [has]
    exact (h.laid m hm).as r

theorem mapAs (h : Row code lo ns hi) (r : Role) : Row code lo (ns.map (·.as r)) hi :=
  h.map fun _ => Or.inr ⟨r, rfl⟩

theorem as (h : Row code lo [n] hi) (r : Role) : Row code lo [n.as r] hi := h.mapAs r

theorem mapNamed (h : Row code lo ns hi) (r : Role) :
    Row code lo (ns.map fun n => if n.isNamed then n.as r else n) hi :=
  h.map fun n => by
    split
    · exact Or.inr ⟨r, rfl⟩
    · exact Or.inl rfl

/-- A row that is not empty reaches from the start of its first node to the end of its last. -/
theorem bounds {first : Node} {rest : List Node} (h : Row code lo (first :: rest) hi) :
    lo ≤ first.span.start ∧ first.span.start < (rest.getLast?.getD first).span.stop ∧
      (rest.getLast?.getD first).span.stop ≤ hi ∧
      (Ground.ofTokens code).stops (rest.getLast?.getD first).extent.stop ∧
      Chain first.span.start (first :: rest) (rest.getLast?.getD first).span.stop := by
  induction rest generalizing lo first with
  | nil =>
    have hfirst := h.laid first List.mem_cons_self
    cases h.chain with
    | cons hstart hrest =>
      cases hrest with
      | nil hle =>
        exact ⟨hstart, hfirst.nonempty, hle, hfirst.stops,
          .cons (Nat.le_refl _) (.nil (Nat.le_refl _))⟩
  | cons second rest ih =>
    have hfirst := h.laid first List.mem_cons_self
    cases h.chain with
    | cons hstart hrest =>
      have htail : Row code first.span.stop (second :: rest) hi :=
        ⟨hrest, fun n hn => h.laid n (List.mem_cons_of_mem _ hn)⟩
      obtain ⟨hsecond, hlt, hle, hstop, hchain⟩ := ih htail
      have hlast : ((second :: rest).getLast?.getD first) = rest.getLast?.getD second := by
        rw [List.getLast?_cons, Option.getD_some]
      rw [hlast]
      refine ⟨hstart, ?_, hle, hstop, .cons (Nat.le_refl _) ?_⟩
      · have := hfirst.nonempty
        omega
      · cases hchain with
        | cons _ hmore => exact .cons hsecond hmore

end Row

/-- A node over a row that is not empty takes the place of the row. -/
theorem row_branch_of {code : List Token} {lo hi : Nat} {k : Kind} {ns : List Node}
    (hfits : Fits (.ofTokens code) k (Node.branch k ns).extent ns) (h : Row code lo ns hi)
    (hne : ns ≠ []) : Row code lo [.branch k ns] hi := by
  cases ns with
  | nil => exact absurd rfl hne
  | cons first rest =>
    obtain ⟨hstart, hlt, hle, hstop, hchain⟩ := h.bounds
    have hfirst := (h.laid first List.mem_cons_self).starts
    refine ⟨.cons hstart (.nil hle), fun n hn => ?_⟩
    rw [List.mem_singleton.mp hn]
    exact .intro hfirst hstop hlt hchain hfits h.laid

theorem row_branch {code : List Token} {lo hi : Nat} {k : Kind} {ns : List Node}
    (hk : k.isLoose = true) (h : Row code lo ns hi) (hne : ns ≠ []) :
    Row code lo [.branch k ns] hi :=
  row_branch_of (fits_of_isLoose hk _ _ _) h hne

inductive Queue (code : List Token) : Nat → List Token → Nat → Prop where
  | nil {lo hi : Nat} : lo ≤ hi → Queue code lo [] hi
  | cons {lo hi : Nat} {t : Token} {ts : List Token} :
      lo ≤ t.extent.span.start → t.extent.span.start < t.extent.span.stop → t ∈ code →
      Queue code t.extent.span.stop ts hi → Queue code lo (t :: ts) hi

namespace Queue

variable {code : List Token} {lo mid hi : Nat} {t : Token} {ts us : List Token}

theorem append (h : Queue code lo ts mid) (k : Queue code mid us hi) :
    Queue code lo (ts ++ us) hi := by
  induction h with
  | nil hle =>
    cases k with
    | nil hle' => exact .nil (Nat.le_trans hle hle')
    | cons hstart hlt hmem hrest => exact .cons (Nat.le_trans hle hstart) hlt hmem hrest
  | cons hstart hlt hmem _ ih => exact .cons hstart hlt hmem (ih k)

theorem split (h : Queue code lo (ts ++ us) hi) :
    ∃ mid, Queue code lo ts mid ∧ Queue code mid us hi := by
  induction ts generalizing lo with
  | nil => exact ⟨lo, .nil (Nat.le_refl lo), h⟩
  | cons t ts ih =>
    cases h with
    | cons hstart hlt hmem hrest =>
      obtain ⟨mid, hfront, hback⟩ := ih hrest
      exact ⟨mid, .cons hstart hlt hmem hfront, hback⟩

theorem lower (h : Queue code mid ts hi) (hle : lo ≤ mid) : Queue code lo ts hi := by
  cases h with
  | nil hle' => exact .nil (Nat.le_trans hle hle')
  | cons hstart hlt hmem hrest => exact .cons (Nat.le_trans hle hstart) hlt hmem hrest

theorem le (h : Queue code lo ts hi) : lo ≤ hi := by
  induction h with
  | nil hle => exact hle
  | cons hstart hlt _ _ ih => omega

theorem sublist {part : List Token} (h : Queue code lo ts hi) (hs : us.Sublist ts)
    (hpart : ∀ t ∈ us, t ∈ part) : Queue part lo us hi := by
  induction h generalizing us with
  | nil hle =>
    rw [List.sublist_nil.mp hs]
    exact .nil hle
  | cons hstart hlt _ _ ih =>
    cases hs with
    | cons _ hs => exact (ih hs hpart).lower (by omega)
    | cons_cons _ hs =>
      exact .cons hstart hlt (hpart _ List.mem_cons_self)
        (ih hs fun t ht => hpart t (List.mem_cons_of_mem _ ht))

theorem bounds (h : Queue code lo ts hi) :
    ∀ t ∈ ts, lo ≤ t.extent.span.start ∧ t.extent.span.start < t.extent.span.stop := by
  induction h with
  | nil => simp
  | cons hstart hlt _ _ ih =>
    intro u hu
    rcases List.mem_cons.mp hu with rfl | hu
    · exact ⟨hstart, hlt⟩
    · have := ih u hu
      omega

/-- Of two tokens of a queue one stands before the other. -/
theorem apart (h : Queue code lo ts hi) {t u : Token} (ht : t ∈ ts) (hu : u ∈ ts) (hne : t ≠ u) :
    t.extent.span.stop ≤ u.extent.span.start ∨ u.extent.span.stop ≤ t.extent.span.start := by
  induction h with
  | nil => cases ht
  | cons _ _ _ hrest ih =>
    rcases List.mem_cons.mp ht with hfirst | hlater
    · rcases List.mem_cons.mp hu with hfirst' | hlater'
      · exact absurd (hfirst.trans hfirst'.symm) hne
      · exact Or.inl (hfirst ▸ (hrest.bounds u hlater').1)
    · rcases List.mem_cons.mp hu with hfirst' | hlater'
      · exact Or.inr (hfirst' ▸ (hrest.bounds t hlater).1)
      · exact ih hlater hlater'

theorem row_leaf (k : Kind) (hfits : Fits (.ofTokens code) k t.extent [])
    (hstart : lo ≤ t.extent.span.start) (hlt : t.extent.span.start < t.extent.span.stop)
    (hmem : t ∈ code) : Row code lo [Parse.leaf k t] t.extent.span.stop := by
  refine ⟨.cons hstart (.nil (Nat.le_refl _)), fun n hn => ?_⟩
  rw [List.mem_singleton.mp hn]
  exact .intro ⟨t, hmem, rfl⟩ ⟨t, hmem, rfl⟩ hlt (.nil (Nat.le_of_lt hlt)) hfits (by simp)

theorem row_leaves (h : Queue code lo ts hi) {k : Kind} (hk : k.isLoose = true) :
    Row code lo (ts.map (Parse.leaf k)) hi := by
  induction h with
  | nil hle => exact ⟨.nil hle, by simp⟩
  | cons hstart hlt hmem _ ih =>
    exact (row_leaf k (fits_of_isLoose hk _ _ _) hstart hlt hmem).append ih

end Queue

/-- Reading from a place of the text comes to a result up to another place, from which on the
remaining tokens stand. -/
def Reads (code : List Token) (lo : Nat) {α : Type} (Q : α → Nat → Prop) (p : Parse α) : Prop :=
  ∀ ts hi a rest, p ts = some (a, rest) → Queue code lo ts hi →
    ∃ mid, Q a mid ∧ Queue code mid rest hi

/-- The parser makes a node out of what it reads. -/
def Spells (code : List Token) (p : Parse Node) : Prop :=
  ∀ lo, Reads code lo (fun n => Row code lo [n]) p

def SpellsAll (code : List Token) (p : Parse (List Node)) : Prop :=
  ∀ lo, Reads code lo (fun ns => Row code lo ns) p

def SpellsSome (code : List Token) (p : Parse (List Node)) : Prop :=
  ∀ lo, Reads code lo (fun ns mid => Row code lo ns mid ∧ ns ≠ []) p

section

variable {code : List Token} {lo : Nat} {α β : Type} {Q : α → Nat → Prop} {R : β → Nat → Prop}

namespace Reads

variable {p q : Parse α} {f : α → Parse β}

theorem pure {a : α} (h : Q a lo) : Reads code lo Q (Pure.pure a) := by
  intro ts hi b rest heq hts
  obtain ⟨rfl, rfl⟩ := Prod.mk.inj (Option.some.inj heq)
  exact ⟨lo, h, hts⟩

theorem bind (hp : Reads code lo Q p) (hf : ∀ a mid, Q a mid → Reads code mid R (f a)) :
    Reads code lo R (p >>= f) := by
  intro ts hi b rest heq hts
  obtain ⟨⟨a, ts'⟩, hread, hrest⟩ := Option.bind_eq_some_iff.mp heq
  obtain ⟨mid, ha, hmid⟩ := hp ts hi a ts' hread hts
  exact hf a mid ha ts' hi b rest hrest hmid

theorem orElse (hp : Reads code lo Q p) (hq : Reads code lo Q q) :
    Reads code lo Q (p <|> q) := by
  intro ts hi a rest heq hts
  have heq : (p ts <|> q ts) = some (a, rest) := heq
  cases hread : p ts with
  | some r =>
    rw [hread] at heq
    exact hp ts hi a rest (hread.trans heq) hts
  | none =>
    rw [hread] at heq
    exact hq ts hi a rest heq hts

theorem ite {c : Prop} [Decidable c] (hp : c → Reads code lo Q p) (hq : ¬ c → Reads code lo Q q) :
    Reads code lo Q (if c then p else q) := by
  split
  · exact hp ‹_›
  · exact hq ‹_›

theorem imp {Q' : α → Nat → Prop} (hp : Reads code lo Q p) (h : ∀ a mid, Q a mid → Q' a mid) :
    Reads code lo Q' p := by
  intro ts hi a rest heq hts
  obtain ⟨mid, ha, hrest⟩ := hp ts hi a rest heq hts
  exact ⟨mid, h a mid ha, hrest⟩

end Reads

theorem Spells.bind {p : Parse Node} {f : Node → Parse β} (hp : Spells code p)
    (hf : ∀ n mid, Row code lo [n] mid → Reads code mid R (f n)) : Reads code lo R (p >>= f) :=
  (hp lo).bind hf

theorem SpellsAll.bind {p : Parse (List Node)} {f : List Node → Parse β} (hp : SpellsAll code p)
    (hf : ∀ ns mid, Row code lo ns mid → Reads code mid R (f ns)) : Reads code lo R (p >>= f) :=
  (hp lo).bind hf

theorem SpellsSome.bind {p : Parse (List Node)} {f : List Node → Parse β}
    (hp : SpellsSome code p)
    (hf : ∀ ns mid, Row code lo ns mid → ns ≠ [] → Reads code mid R (f ns)) :
    Reads code lo R (p >>= f) :=
  (hp lo).bind fun ns mid h => hf ns mid h.1 h.2

theorem SpellsSome.all {p : Parse (List Node)} (hp : SpellsSome code p) : SpellsAll code p :=
  fun lo => (hp lo).imp fun _ _ h => h.1

theorem Spells.orElse {p q : Parse Node} (hp : Spells code p) (hq : Spells code q) :
    Spells code (p <|> q) := fun lo => (hp lo).orElse (hq lo)

theorem Grammar.Looks.reads {p : Parse α} {f : α → Parse β} (h : Looks p)
    (hf : ∀ a, Reads code lo R (f a)) : Reads code lo R (p >>= f) := by
  intro ts hi b rest heq hts
  obtain ⟨⟨a, ts'⟩, hread, hrest⟩ := Option.bind_eq_some_iff.mp heq
  obtain rfl := h ts a ts' hread
  exact hf a ts' hi b rest hrest hts

end

namespace Grammar

open Parse

variable {code : List Token} {lo : Nat}

theorem reads_accept {k : Kind} {p : Token → Bool}
    (hk : ∀ t ∈ code, p t = true → Fits (.ofTokens code) k t.extent []) :
    Reads code lo (fun n mid => Row code lo [n] mid ∧ ∃ t ∈ code, p t = true ∧ n = leaf k t)
      (accept k p) := by
  intro ts hi n rest heq hts
  cases hts with
  | nil => cases heq
  | cons hstart hlt hmem hrest =>
    simp only [accept] at heq
    split at heq
    · rename_i hp
      obtain ⟨rfl, rfl⟩ := Prod.mk.inj (Option.some.inj heq)
      exact ⟨_, ⟨Queue.row_leaf k (hk _ hmem hp) hstart hlt hmem, _, hmem, hp, rfl⟩, hrest⟩
    · cases heq

theorem spells_accept {k : Kind} (hk : k.isLoose = true) (p : Token → Bool) :
    Spells code (accept k p) := fun _ =>
  (reads_accept fun _ _ _ => fits_of_isLoose hk _ _ _).imp fun _ _ h => h.1

theorem reads_symbol (s : String) :
    Reads code lo (fun n mid => Row code lo [n] mid ∧ n.kind = .token ∧ n.role = none ∧
      (Ground.ofTokens code).tells n.extent s) (symbol s) :=
  (reads_accept fun _ _ _ => fits_of_isLoose rfl _ _ _).imp fun _ _ ⟨hrow, t, ht, hs, hn⟩ => by
    simp only [isSymbol, Bool.and_eq_true, beq_iff_eq] at hs
    subst hn
    exact ⟨hrow, rfl, rfl, t, ht, rfl, hs.2⟩

theorem tells_of_isWord {t : Token} {s : String} (ht : t ∈ code) (h : isWord s t = true) :
    (Ground.ofTokens code).tells t.extent s := by
  simp only [isWord, Bool.and_eq_true, beq_iff_eq] at h
  exact ⟨t, ht, rfl, h.2⟩

theorem reads_this : Reads code lo (fun n mid => Row code lo [n] mid ∧ n.kind = .this ∧
    n.role = none) (accept .this (isWord "this")) :=
  (reads_accept fun _ => tells_of_isWord).imp fun _ _ ⟨hrow, _, _, _, hn⟩ => by
    subst hn
    exact ⟨hrow, rfl, rfl⟩

theorem reads_super : Reads code lo (fun n mid => Row code lo [n] mid ∧ n.kind = .super ∧
    n.role = none) (accept .super (isWord "super")) :=
  (reads_accept fun _ => tells_of_isWord).imp fun _ _ ⟨hrow, _, _, _, hn⟩ => by
    subst hn
    exact ⟨hrow, rfl, rfl⟩

theorem spells_this : Spells code (accept .this (isWord "this")) :=
  fun _ => reads_this.imp fun _ _ h => h.1

theorem spells_super : Spells code (accept .super (isWord "super")) :=
  fun _ => reads_super.imp fun _ _ h => h.1

theorem spells_symbol (s : String) : Spells code (symbol s) := spells_accept (by decide) _

theorem spells_word (s : String) : Spells code (word s) := spells_accept (by decide) _

theorem spells_name : Spells code name := spells_accept (by decide) _

theorem reads_maybe {Q : List Node → Nat → Prop} {p : Parse (List Node)} (hp : Reads code lo Q p)
    (hnil : Q [] lo) : Reads code lo Q (maybe p) := by
  intro ts hi ns rest heq hts
  unfold maybe at heq
  split at heq
  · rename_i r hr
    exact hp ts hi ns rest (hr.trans heq) hts
  · obtain ⟨rfl, rfl⟩ := Prod.mk.inj (Option.some.inj heq)
    exact ⟨lo, hnil, hts⟩

theorem spells_maybe {p : Parse (List Node)} (hp : SpellsAll code p) :
    SpellsAll code (maybe p) := fun lo => reads_maybe (hp lo) .nil

theorem reads_one {p : Parse Node} (hp : Spells code p) :
    Reads code lo (fun ns mid => ∃ n, ns = [n] ∧ Row code lo [n] mid) (one p) := by
  intro ts hi ns rest heq hts
  obtain ⟨⟨n, rest'⟩, hread, he⟩ := Option.map_eq_some_iff.mp heq
  obtain ⟨rfl, rfl⟩ := Prod.mk.inj he
  obtain ⟨mid, hn, hrest⟩ := hp lo ts hi n rest' hread hts
  exact ⟨mid, ⟨n, rfl, hn⟩, hrest⟩

theorem spells_one {p : Parse Node} (hp : Spells code p) : SpellsSome code (one p) := fun _ =>
  (reads_one hp).imp fun _ _ ⟨_, hns, hrow⟩ => hns ▸ ⟨hrow, by simp⟩

theorem spells_option {p : Parse Node} (hp : Spells code p) : SpellsAll code (maybe (one p)) :=
  spells_maybe (spells_one hp).all

theorem spells_manyFrom {p : Parse (List Node)} (hp : SpellsAll code p) (fuel : Nat) :
    SpellsAll code (manyFrom p fuel) := by
  induction fuel with
  | zero =>
    intro lo ts hi ns rest heq hts
    obtain ⟨rfl, rfl⟩ := Prod.mk.inj (Option.some.inj heq)
    exact ⟨lo, .nil, hts⟩
  | succ fuel ih =>
    intro lo ts hi ns rest heq hts
    unfold manyFrom at heq
    split at heq
    · obtain ⟨rfl, rfl⟩ := Prod.mk.inj (Option.some.inj heq)
      exact ⟨lo, .nil, hts⟩
    · rename_i ns' rest' hread
      obtain ⟨mid, hns, hrest⟩ := hp lo ts hi ns' rest' hread hts
      split at heq
      · split at heq
        · rename_i more rest'' hmore
          obtain ⟨rfl, rfl⟩ := Prod.mk.inj (Option.some.inj heq)
          obtain ⟨last, hall, hlast⟩ := ih mid rest' hi more rest'' hmore hrest
          exact ⟨last, hns.append hall, hlast⟩
        · obtain ⟨rfl, rfl⟩ := Prod.mk.inj (Option.some.inj heq)
          exact ⟨mid, hns, hrest⟩
      · obtain ⟨rfl, rfl⟩ := Prod.mk.inj (Option.some.inj heq)
        exact ⟨lo, .nil, hts⟩

theorem spells_many {p : Parse (List Node)} (hp : SpellsAll code p) : SpellsAll code (many p) :=
  fun lo ts => spells_manyFrom hp ts.length lo ts

theorem spells_repeated {p : Parse Node} (hp : Spells code p) : SpellsAll code (many (one p)) :=
  spells_many (spells_one hp).all

/-- What a growing node takes in stands behind it, and so the node that grows stays in its place. -/
theorem reads_growFrom {step : Node → Parse Node}
    (hstep : ∀ n mid, Row code lo [n] mid → Reads code mid (fun m => Row code lo [m]) (step n))
    (fuel : Nat) : ∀ n mid, Row code lo [n] mid →
      Reads code mid (fun m => Row code lo [m]) (growFrom step fuel n) := by
  induction fuel with
  | zero =>
    intro n mid hn ts hi m rest heq hts
    obtain ⟨rfl, rfl⟩ := Prod.mk.inj (Option.some.inj heq)
    exact ⟨mid, hn, hts⟩
  | succ fuel ih =>
    intro n mid hn ts hi m rest heq hts
    unfold growFrom at heq
    split at heq
    · rename_i n' rest' hread
      obtain ⟨mid', hn', hrest⟩ := hstep n mid hn ts hi n' rest' hread hts
      split at heq
      · exact ih n' mid' hn' rest' hi m rest heq hrest
      · obtain ⟨rfl, rfl⟩ := Prod.mk.inj (Option.some.inj heq)
        exact ⟨mid, hn, hts⟩
    · obtain ⟨rfl, rfl⟩ := Prod.mk.inj (Option.some.inj heq)
      exact ⟨mid, hn, hts⟩

theorem reads_grow {step : Node → Parse Node}
    (hstep : ∀ n mid, Row code lo [n] mid → Reads code mid (fun m => Row code lo [m]) (step n))
    {n : Node} {mid : Nat} (hn : Row code lo [n] mid) :
    Reads code mid (fun m => Row code lo [m]) (grow step n) :=
  fun ts => reads_growFrom hstep ts.length n mid hn ts

theorem spells_separated (sep : String) {item : Parse Node} (hitem : Spells code item) :
    SpellsSome code (separated sep item) := by
  have hmore : SpellsAll code (do
      let s ← symbol sep
      let n ← item
      return [s, n]) := fun _ =>
    (spells_symbol sep).bind fun _ _ hs => hitem.bind fun _ _ hn => .pure (hs.append hn)
  exact fun _ => hitem.bind fun _ _ hfirst => (spells_many hmore).bind fun _ _ hrest =>
    .pure ⟨hfirst.append hrest, by simp⟩

theorem spells_commaList {item : Parse Node} (hitem : Spells code item) :
    SpellsSome code (commaList item) := spells_separated "," hitem

theorem reads_build_of {mid : Nat} {k : Kind} {parts : Parse (List Node)}
    (h : Reads code mid (fun ns hi => Row code lo ns hi ∧ ns ≠ [] ∧
      Fits (.ofTokens code) k (Node.branch k ns).extent ns) parts) :
    Reads code mid (fun n => Row code lo [n]) (build k parts) := by
  intro ts hi n rest heq hts
  obtain ⟨⟨ns, rest'⟩, hread, he⟩ := Option.map_eq_some_iff.mp heq
  obtain ⟨rfl, rfl⟩ := Prod.mk.inj he
  obtain ⟨last, ⟨hns, hne, hfits⟩, hrest⟩ := h ts hi ns rest' hread hts
  exact ⟨last, row_branch_of hfits hns hne, hrest⟩

theorem reads_build {mid : Nat} {k : Kind} (hk : k.isLoose = true) {parts : Parse (List Node)}
    (h : Reads code mid (fun ns hi => Row code lo ns hi ∧ ns ≠ []) parts) :
    Reads code mid (fun n => Row code lo [n]) (build k parts) :=
  reads_build_of (h.imp fun _ _ ⟨hrow, hne⟩ => ⟨hrow, hne, fits_of_isLoose hk _ _ _⟩)

theorem spells_build {k : Kind} (hk : k.isLoose = true) {parts : Parse (List Node)}
    (h : SpellsSome code parts) : Spells code (build k parts) :=
  fun lo => reads_build hk (h lo)

theorem reads_within {α : Type} {Q : α → Nat → Prop} {n : Nat} {p : Parse α}
    (hp : Reads code lo Q p) : Reads code lo Q (within n p) := by
  intro ts hi a rest heq hts
  obtain ⟨⟨b, rest'⟩, hread, he⟩ := Option.map_eq_some_iff.mp heq
  obtain ⟨rfl, rfl⟩ := Prod.mk.inj he
  rw [← List.take_append_drop n ts] at hts
  obtain ⟨stop, hfront, hback⟩ := hts.split
  obtain ⟨mid, hb, hrest⟩ := hp _ stop b rest' hread hfront
  exact ⟨mid, hb, hrest.append hback⟩

theorem reads_guardThat (b : Bool) :
    Reads code lo (fun _ hi => lo = hi ∧ b = true) (guardThat b) := by
  intro ts hi a rest heq hts
  unfold guardThat at heq
  split at heq
  · rename_i hb
    obtain ⟨rfl, rfl⟩ := Prod.mk.inj (Option.some.inj heq)
    exact ⟨lo, ⟨rfl, hb⟩, hts⟩
  · cases heq

def Spelt (code : List Token) (sub : Sub) : Prop := ∀ g, Spells code (sub g)

end Grammar

end Carve.Java
