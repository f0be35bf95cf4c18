import Carve.Proofs.Java.Origins
import Carve.Proofs.Java.Writing

/-!
# Calls of other constructors

The first statement of a constructor may call another one, of its own class or of the class above.
The reader looks for the call in front of everything else in the body, comments included, and the
writer tells a call within the class by the first characters of its text. So a call is kept and
taken for what it is unless a comment comes before it, type arguments hide the word behind them or
the object before another word looks like it.
-/

namespace Carve

namespace Text

theorem stripStart_isSome {p cs : List Char} : (stripStart p cs).isSome = true ↔ p <+: cs := by
  constructor
  · intro h
    obtain ⟨rest, hrest⟩ := Option.isSome_iff_exists.mp h
    exact ⟨rest, (stripStart_eq_some.mp hrest).symm⟩
  · rintro ⟨rest, hrest⟩
    rw [stripStart_eq_some.mpr hrest.symm]
    rfl

theorem first_eq_of_prefix {c d : Char} {cs ds text : List Char} (h : c :: cs <+: text)
    (k : d :: ds <+: text) : c = d := by
  obtain ⟨rest, rfl⟩ := h
  exact (List.cons_prefix_cons.mp k).1.symm

theorem joined_cons (sep s : String) (ss : List String) :
    ∃ rest, joined sep (s :: ss) = s ++ rest := by
  cases ss with
  | nil => exact ⟨"", by simp [joined, join]⟩
  | cons t ss =>
    refine ⟨sep ++ joined sep (t :: ss), ?_⟩
    rw [← String.toList_inj]
    simp [joined, join]

end Text

namespace Java

open Text

namespace Node

/-- What comes first in a body apart from comments. -/
def firstStatement? (b : Node) : Option Node := b.named.find? (·.kind != .comment)

/-- The body begins with a comment. -/
def CommentAhead (b : Node) : Prop := b.named.head?.map (·.kind) = some .comment

instance (b : Node) : Decidable b.CommentAhead := inferInstanceAs (Decidable (_ = _))

/-- The constructor call goes to a constructor of the same class. -/
def CallsThis (c : Node) : Prop := ∃ t ∈ c.children, t.role = none ∧ t.kind = .this

instance (c : Node) : Decidable c.CallsThis :=
  inferInstanceAs (Decidable (∃ t ∈ c.children, t.role = none ∧ t.kind = .this))

def HasPart (c : Node) (r : Role) : Prop := ∃ a ∈ c.children, a.role = some r

instance (c : Node) (r : Role) : Decidable (c.HasPart r) :=
  inferInstanceAs (Decidable (∃ a ∈ c.children, a.role = some r))

/-- The text of the node begins so. -/
def Begins (source : List Char) (n : Node) (s : String) : Prop :=
  s.toList <+: (n.text source).toList

/-- A call within the class with type arguments in front, or a call of the class above whose object
is told like one within the class. -/
def Misread (source : List Char) (c : Node) : Prop :=
  c.CallsThis ∧ c.HasPart .typeArguments ∨
    ¬ c.CallsThis ∧ c.HasPart .object ∧ c.Begins source "this"

end Node

variable {source : List Char} {n b c : Node} {o : Outline}

theorem sliceOf_span (n : Node) : sliceOf source n.span = n.text source := rfl

theorem Laid.begins (h : Laid (.ofText source) n) {e : Extent} {s : String}
    (htells : (Ground.ofText source).tells e s) (hstart : e.start = n.extent.start)
    (hstop : e.span.stop ≤ n.span.stop) : n.Begins source s := by
  obtain ⟨whole, hwhole⟩ := slice?_of_cuts h.cuts.1 h.cuts.2 (Nat.le_of_lt h.nonempty)
  have hpart : slice? source n.span.start e.span.stop = some s.toList := by
    rw [show n.span.start = e.span.start from congrArg Mark.offset hstart.symm]
    exact htells
  unfold Node.Begins Node.text
  rw [hwhole, String.toList_ofList]
  exact slice?_prefix_slice? hwhole hpart hstop

theorem Node.Begins.first_eq {c d : Char} {cs ds : List Char}
    (h : n.Begins source (.ofList (c :: cs))) (k : n.Begins source (.ofList (d :: ds))) : c = d := by
  unfold Node.Begins at h k
  rw [String.toList_ofList] at h k
  exact first_eq_of_prefix h k

/-- By its text a constructor call is told for one within the class exactly if it is one without
type arguments, or one that looks like it. -/
theorem begins_this_iff (h : Laid (.ofText source) c) (hk : c.kind = .ctorInvocation) :
    c.Begins source "this" ↔ c.CallsThis ∧ ¬ c.HasPart .typeArguments ∨
      ¬ c.CallsThis ∧ c.HasPart .object ∧ c.Begins source "this" := by
  have hparts : CallParts c.extent c.children := by
    have hfits := h.fits
    rw [hk] at hfits
    exact hfits
  obtain ⟨t, ht, ⟨hrole, hword⟩, halone, hfront⟩ := hparts.target
  have hinside := (Stands.children h).bounds
  have htlaid := h.children t ht
  have hthis : c.CallsThis ↔ t.kind = .this := by
    refine ⟨?_, fun hkind => ⟨t, ht, hrole, hkind⟩⟩
    rintro ⟨t', ht', hrole', hkind'⟩
    rw [← halone t' ht' ⟨hrole', .inl hkind'⟩]
    exact hkind'
  rcases hfront with ⟨hstart, hnone⟩ | ⟨a, ha, hakind, harole, hastart⟩ | ⟨hsuper, object, hobject⟩
  · have hplain : ¬ c.HasPart .typeArguments := fun ⟨a, ha, hrole⟩ => hnone a ha hrole
    rcases hword with hword | hword
    · have htells := htlaid.fits
      rw [hword] at htells
      have hbegins : c.Begins source "this" := h.begins htells hstart (hinside t ht).2
      exact iff_of_true hbegins (.inl ⟨hthis.mpr hword, hplain⟩)
    · have htells := htlaid.fits
      rw [hword] at htells
      have hbegins : c.Begins source "super" := h.begins htells hstart (hinside t ht).2
      have hnot : ¬ c.Begins source "this" := fun h' =>
        absurd (Node.Begins.first_eq h' hbegins) (by decide)
      have hother : ¬ c.CallsThis := by
        rw [hthis, hword]
        decide
      exact iff_of_false hnot fun hor => hor.elim (fun h => hother h.1) (fun h => hnot h.2.2)
  · have halaid := h.children a ha
    have hafits := halaid.fits
    rw [hakind] at hafits
    obtain ⟨mark, hmark, hmarkstart, htells⟩ := hafits
    have hmarkin := (Stands.children halaid).bounds mark hmark
    have hbegins : c.Begins source "<" := h.begins htells (hmarkstart.trans hastart)
      (Nat.le_trans hmarkin.2 (hinside a ha).2)
    have hnot : ¬ c.Begins source "this" := fun h' =>
      absurd (Node.Begins.first_eq h' hbegins) (by decide)
    exact iff_of_false hnot fun hor => hor.elim (fun h => h.2 ⟨a, ha, harole⟩) fun h => hnot h.2.2
  · have hother : ¬ c.CallsThis := by
      rw [hthis, hsuper]
      decide
    exact ⟨fun hbegins => .inr ⟨hother, ⟨object, hobject⟩, hbegins⟩,
      fun hor => hor.elim (fun h => absurd h.1 hother) fun h => h.2.2⟩

theorem begins_this_iff_callsThis (h : Laid (.ofText source) c) (hk : c.kind = .ctorInvocation) :
    (c.Begins source "this" ↔ c.CallsThis) ↔ ¬ c.Misread source := by
  have hiff := begins_this_iff h hk
  unfold Node.Misread
  by_cases hthis : c.CallsThis
  · by_cases hargs : c.HasPart .typeArguments <;> simp_all
  · by_cases hobject : c.HasPart .object <;> simp_all

theorem delegates_iff (hcall : o.ctorCall = some c.span) :
    delegates source o = true ↔ c.Begins source "this" := by
  unfold delegates Node.Begins
  rw [hcall]
  exact stripStart_isSome

theorem stubCtor_of_call (hcall : o.ctorCall = some c.span) {body : Span} (hbody : o.body = some body)
    (style : Placeholder) (enclosing : Option Enclosing) :
    ∃ rest, stubCtor source style o enclosing =
      headerOf source o body ++ " \x7b " ++ c.text source ++ rest := by
  have hstatements : ∃ more, ctorStatements source style o enclosing = c.text source :: more := by
    unfold ctorStatements
    rw [hcall]
    exact ⟨_, rfl⟩
  obtain ⟨more, hmore⟩ := hstatements
  obtain ⟨rest, hrest⟩ := joined_cons " " (c.text source) more
  refine ⟨rest ++ " \x7d", ?_⟩
  unfold stubCtor
  rw [hbody, hmore]
  simp only [hrest, braces]
  rw [show " \x7b " = " " ++ "\x7b " from rfl]
  simp only [String.append_assoc]

/-- The reader finds the call exactly if no comment comes before it. -/
theorem ctorCall?_eq_some_iff (hc : b.firstStatement? = some c) (hk : c.kind = .ctorInvocation) :
    Reader.ctorCall? b = some c.span ↔ ¬ b.CommentAhead := by
  unfold Node.firstStatement? at hc
  unfold Reader.ctorCall? Node.CommentAhead
  cases hnamed : b.named with
  | nil =>
    rw [hnamed] at hc
    cases hc
  | cons first rest =>
    rw [hnamed, List.find?_cons] at hc
    by_cases hcomment : first.kind = .comment
    · simp [hcomment]
    · rw [show (first.kind != .comment) = true by simpa using hcomment] at hc
      obtain rfl := Option.some.inj hc
      simp [hk]

/-- What becomes of the call with which a constructor begins. -/
structure KeepsCall (source : List Char) (o : Outline) (b c : Node) : Prop where
  call : o.ctorCall = some c.span
  stub : ∀ style enclosing, ∃ rest, stubCtor source style o enclosing =
    headerOf source o b.span ++ " \x7b " ++ c.text source ++ rest
  delegates : delegates source o = true ↔ c.CallsThis

theorem keepsCall_iff (h : Laid (.ofText source) n) (hb : n.child? .body = some b)
    (hc : b.firstStatement? = some c) (hk : c.kind = .ctorInvocation) :
    KeepsCall source (n.callableOutline source) b c ↔ ¬ b.CommentAhead ∧ ¬ c.Misread source := by
  have hmem : c ∈ b.children := (List.mem_filter.mp (List.mem_of_find?_eq_some hc)).1
  have hlaid := (h.children b (Reader.child?_mem hb)).children c hmem
  have hcall : (n.callableOutline source).ctorCall = some c.span ↔ ¬ b.CommentAhead := by
    rw [← ctorCall?_eq_some_iff hc hk, Node.callableOutline, hb]
    rfl
  have hbody : (n.callableOutline source).body = some b.span := by
    rw [Node.callableOutline, hb]
    rfl
  constructor
  · intro h
    refine ⟨hcall.mp h.call, (begins_this_iff_callsThis hlaid hk).mp ?_⟩
    rw [← delegates_iff h.call]
    exact h.delegates
  · rintro ⟨hahead, hread⟩
    have hfound := hcall.mpr hahead
    refine ⟨hfound, stubCtor_of_call hfound hbody, ?_⟩
    rw [delegates_iff hfound]
    exact (begins_this_iff_callsThis hlaid hk).mpr hread

/-- All constructors of a file and their overloads are read from nodes of its tree. Where the first
statement of one is a call of another constructor, the call is kept, stands first in every stub and
is taken for what it is, unless a comment comes before it or it is misread. -/
theorem constructor_calls_kept (s : SourceTree) :
    (∀ e ∈ s.read.entries, e.decl.kind = .ctor →
      ∀ o ∈ e.decl.outlines, ∃ n, InTree s.tree n ∧
        (n.kind = .ctorDeclaration ∨ n.kind = .compactCtorDeclaration) ∧
        o = n.callableOutline s.text.toList) ∧
    ∀ n b c, InTree s.tree n → n.child? .body = some b → b.firstStatement? = some c →
      c.kind = .ctorInvocation →
      (KeepsCall s.text.toList (n.callableOutline s.text.toList) b c ↔
        ¬ b.CommentAhead ∧ ¬ c.Misread s.text.toList) := by
  refine ⟨fun e he hkind o ho => ?_, fun n b c hn => keepsCall_iff hn.laid⟩
  obtain ⟨n, name, hn, hgives⟩ := (s.sprung e he).all o ho
  obtain ⟨hk, rfl⟩ := hgives.of_ctor hkind
  exact ⟨n, hn, hk, rfl⟩

def remarked : SourceText :=
  { path := ⟨"src/p/T.java"⟩
    text := "class T \x7b final int n; T(int a) \x7b n = a; \x7d T() \x7b /* */ this(1); \x7d \x7d"
    provenance := { module := "m" } }

/-- A constructor call behind a comment is lost. -/
theorem remarked_call_is_lost :
    ∃ n b c, InTree remarked.parsed.tree n ∧ n.child? .body = some b ∧
      b.firstStatement? = some c ∧ c.kind = .ctorInvocation ∧
      ¬ KeepsCall remarked.text.toList (n.callableOutline remarked.text.toList) b c := by
  have hfound : ∃ n ∈ Node.nodesIn (parse remarked.text.toList).children,
      n.kind = .ctorDeclaration ∧ ∃ b ∈ n.child? .body, b.CommentAhead ∧
        ∃ c ∈ b.firstStatement?, c.kind = .ctorInvocation := by decide +kernel
  obtain ⟨n, hn, -, b, hb, hahead, c, hc, hk⟩ := hfound
  refine ⟨n, b, c, hn, hb, hc, hk, fun hkept => ?_⟩
  have hiff := (constructor_calls_kept remarked.parsed).2 n b c hn hb hc hk
  exact (hiff.mp hkept).1 hahead

end Java

end Carve
