import Carve.Proofs.Java.Layout.Declarations

/-!
# Places of all nodes of a file

The tokens of a text stand one after the other. Comments are tokens that no production sees; they
are handed to the nodes around them and stand in between the parts of these. So every node of the
tree of a text lies inside its parent, behind its elder siblings and between cuts of the text.
-/

namespace Carve.Java

theorem Token.queue_scanFrom (code : List Token) (m : Mark) (cs : List Char)
    (hcode : ∀ t ∈ scanFrom m cs, t ∈ code) :
    Queue code m.offset (scanFrom m cs) (m.advance cs).offset := by
  induction hn : cs.length using Nat.strongRecOn generalizing m cs with
  | _ n ih =>
    unfold scanFrom at hcode ⊢
    cases cs with
    | nil => exact .nil (Nat.le_refl _)
    | cons c rest =>
      rcases hmeasure : measure (c :: rest) with ⟨lexeme, k⟩
      simp only [hmeasure] at hcode ⊢
      have hshorter : (rest.drop (k - 1)).length < n := by
        subst hn
        rw [List.length_drop, List.length_cons]
        omega
      have hstop : m.offset < (m.advance (c :: rest.take (k - 1))).offset := by
        have hc := c.utf8Size_pos
        rw [Mark.advance_offset, Text.byteLength]
        omega
      have hend : (m.advance (c :: rest)).offset =
          ((m.advance (c :: rest.take (k - 1))).advance (rest.drop (k - 1))).offset := by
        simp only [Mark.advance_offset]
        rw [Nat.add_assoc, ← Text.byteLength_append, List.cons_append, List.take_append_drop]
      rw [hend]
      cases lexeme with
      | none => exact (ih _ hshorter _ _ hcode rfl).lower (Nat.le_of_lt hstop)
      | some l =>
        refine .cons (Nat.le_refl _) hstop (hcode _ List.mem_cons_self) ?_
        exact ih _ hshorter _ _ (fun t ht => hcode t (List.mem_cons_of_mem _ ht)) rfl

theorem Token.queue_scan (source : List Char) :
    Queue (scan source) 0 (scan source) (Text.byteLength source) := by
  have h := queue_scanFrom (scan source) .origin source fun _ ht => ht
  rwa [Mark.advance_offset, show Mark.origin.offset = 0 from rfl, Nat.zero_add] at h

def Ground.ofText (source : List Char) : Ground where
  starts m := m.In source
  stops m := m.In source
  tells e s := Text.slice? source e.span.start e.span.stop = some s.toList

theorem scan_within (source : List Char) :
    (Ground.ofTokens (Token.scan source)).Within (.ofText source) where
  starts := by
    rintro m ⟨t, ht, rfl⟩
    exact (Token.scan_stands source ht).2.1.1
  stops := by
    rintro m ⟨t, ht, rfl⟩
    exact (Token.scan_stands source ht).2.1.2
  tells := by
    rintro e s ⟨t, ht, rfl, rfl⟩
    exact (Token.scan_stands source ht).1

theorem Laid.cuts {source : List Char} {n : Node} (h : Laid (.ofText source) n) :
    Text.Cut source n.span.start ∧ Text.Cut source n.span.stop :=
  ⟨Mark.In.cut h.starts, Mark.In.cut h.stops⟩

/-- A comment that does not reach across any end of a token of the code. -/
structure Aside (code tokens : List Token) (c : Node) : Prop where
  kind : c.kind = .comment
  role : c.role = none
  laid : Laid (.ofTokens tokens) c
  clear : ∀ m, (Ground.ofTokens code).starts m ∨ (Ground.ofTokens code).stops m →
    c.span.start < m.offset → c.span.stop ≤ m.offset

section

variable {code tokens : List Token} {lo hi a : Nat} {cs : List Node}

theorem Chain.before (h : Chain lo cs hi) (hcs : ∀ c ∈ cs, Aside code tokens c) {m : Mark}
    (hm : (Ground.ofTokens code).starts m ∨ (Ground.ofTokens code).stops m)
    (hlo : lo ≤ m.offset) :
    Chain lo (cs.takeWhile fun c => decide (c.span.start < m.offset)) m.offset := by
  induction h with
  | nil => exact .nil hlo
  | @cons lo hi c cs hstart hrest ih =>
    by_cases hc : c.span.start < m.offset
    · rw [List.takeWhile_cons_of_pos (by simpa using hc)]
      exact .cons hstart (ih (fun d hd => hcs d (List.mem_cons_of_mem _ hd))
        ((hcs c List.mem_cons_self).clear m hm hc))
    · rw [List.takeWhile_cons_of_neg (by simpa using hc)]
      exact .nil hlo

theorem Chain.behind (h : Chain lo cs hi) (hhi : a ≤ hi) :
    Chain a (cs.dropWhile fun c => decide (c.span.start < a)) hi := by
  induction h with
  | nil => exact .nil hhi
  | @cons lo hi c cs hstart hrest ih =>
    by_cases hc : c.span.start < a
    · rw [List.dropWhile_cons_of_pos (by simpa using hc)]
      exact ih hhi
    · rw [List.dropWhile_cons_of_neg (by simpa using hc)]
      exact .cons (by omega) hrest

structure Refilled (c d : Node) : Prop where
  kind : d.kind = c.kind
  role : d.role = c.role
  extent : d.extent = c.extent

theorem refilled_weave (comments : List Node) (n : Node) : Refilled n (n.weave comments) := by
  cases n with
  | mk k r e cs =>
    unfold Node.weave
    exact ⟨rfl, rfl, rfl⟩

theorem mem_weaveInto {comments : List Node} {d : Node} (hd : d ∈ Node.weaveInto comments cs) :
    d ∈ comments ∨ ∃ c ∈ cs, Refilled c d := by
  induction cs generalizing comments with
  | nil =>
    unfold Node.weaveInto at hd
    exact Or.inl hd
  | cons n ns ih =>
    unfold Node.weaveInto at hd
    extract_lets before later inside after at hd
    rcases List.mem_append.mp hd with hd | hd
    · exact Or.inl ((List.takeWhile_sublist _).subset hd)
    rcases List.mem_cons.mp hd with rfl | hd
    · exact Or.inr ⟨n, List.mem_cons_self, refilled_weave _ n⟩
    · have hafter : after.Sublist comments :=
        (List.dropWhile_sublist _).trans (List.dropWhile_sublist _)
      rcases ih hd with hd | ⟨c, hc, hsame⟩
      · exact Or.inl (hafter.subset hd)
      · exact Or.inr ⟨c, List.mem_cons_of_mem _ hc, hsame⟩

theorem exists_weaveInto (comments : List Node) {c : Node} (hc : c ∈ cs) :
    ∃ d ∈ Node.weaveInto comments cs, Refilled c d := by
  induction cs generalizing comments with
  | nil => cases hc
  | cons n ns ih =>
    unfold Node.weaveInto
    extract_lets before later inside after
    rcases List.mem_cons.mp hc with rfl | hc
    · exact ⟨c.weave inside, by simp, refilled_weave _ c⟩
    · obtain ⟨d, hd, hsame⟩ := ih after hc
      exact ⟨d, by simp [hd], hsame⟩

theorem mem_weaveInto_kind {comments : List Node} (hcomments : ∀ c ∈ comments, c.kind = .comment)
    {d : Node} (hd : d ∈ Node.weaveInto comments cs) :
    d.kind = .comment ∨ ∃ c ∈ cs, c.kind = d.kind := by
  rcases mem_weaveInto hd with hd | ⟨c, hc, hsame⟩
  · exact Or.inl (hcomments d hd)
  · exact Or.inr ⟨c, hc, hsame.kind.symm⟩

theorem Refilled.target {c d : Node} (h : Refilled c d) : Target d ↔ Target c := by
  unfold Target
  rw [h.kind, h.role]

theorem CallParts.weaveInto {e : Extent} {comments : List Node} (h : CallParts e cs)
    (hcomments : ∀ c ∈ comments, c.kind = .comment ∧ c.role = none) :
    CallParts e (Node.weaveInto comments cs) := by
  obtain ⟨t, ht, htarget, halone, hfront⟩ := h.target
  obtain ⟨t', ht', hcalled⟩ := exists_weaveInto comments ht
  refine ⟨t', ht', hcalled.target.mpr htarget, fun d hd hdtarget => ?_, ?_⟩
  · rcases mem_weaveInto hd with hd | ⟨c, hc, hsame⟩
    · have hkind := hdtarget.2
      rw [(hcomments d hd).1] at hkind
      simp at hkind
    · rw [hsame.kind, hcalled.kind]
      exact halone c hc (hsame.target.mp hdtarget)
  · rcases hfront with ⟨hstart, hnone⟩ | ⟨a, ha, hkind, hrole, hstart⟩ | ⟨hsuper, o, ho, hrole⟩
    · refine .inl ⟨hcalled.extent ▸ hstart, fun d hd => ?_⟩
      rcases mem_weaveInto hd with hd | ⟨c, hc, hsame⟩
      · rw [(hcomments d hd).2]
        decide
      · rw [hsame.role]
        exact hnone c hc
    · obtain ⟨a', ha', hsame⟩ := exists_weaveInto comments ha
      exact .inr (.inl ⟨a', ha', hsame.kind.trans hkind, hsame.role.trans hrole,
        hsame.extent ▸ hstart⟩)
    · obtain ⟨o', ho', hsame⟩ := exists_weaveInto comments ho
      exact .inr (.inr ⟨hcalled.kind.trans hsuper, o', ho', hsame.role.trans hrole⟩)

theorem EnumParts.weaveInto {comments : List Node} (h : EnumParts cs)
    (hcomments : ∀ c ∈ comments, c.kind = .comment) : EnumParts (Node.weaveInto comments cs) := by
  refine ⟨fun d hd => ?_, ?_⟩
  · rcases mem_weaveInto_kind hcomments hd with hk | ⟨c, hc, hk⟩
    · exact Or.inr (Or.inl hk)
    · rw [← hk]
      exact h.kinds c hc
  · have horder := h.order
    clear h
    induction cs generalizing comments with
    | nil =>
      unfold Node.weaveInto
      refine .imp_of_mem (fun ha _ _ hk => ?_) (List.pairwise_of_forall fun _ _ => trivial)
      rw [hcomments _ ha] at hk
      cases hk
    | cons n ns ih =>
      unfold Node.weaveInto
      extract_lets before later inside after
      have hbefore : ∀ c ∈ before, c.kind = .comment := fun c hc =>
        hcomments c ((List.takeWhile_sublist _).subset hc)
      have hafter : ∀ c ∈ after, c.kind = .comment := fun c hc =>
        hcomments c (((List.dropWhile_sublist _).trans (List.dropWhile_sublist _)).subset hc)
      obtain ⟨hn, hns⟩ := List.pairwise_cons.mp horder
      refine List.pairwise_append.mpr
        ⟨?_, List.pairwise_cons.mpr ⟨fun d hd hk => ?_, ih hafter hns⟩, ?_⟩
      · refine .imp_of_mem (fun ha _ _ hk => ?_) (List.pairwise_of_forall fun _ _ => trivial)
        rw [hbefore _ ha] at hk
        cases hk
      · rw [weave_kind] at hk
        rcases mem_weaveInto_kind hafter hd with hcomment | ⟨c, hc, hkind⟩
        · rw [hcomment]
          decide
        · rw [← hkind]
          exact hn c hc hk
      · intro c hc d _ hk
        rw [hbefore c hc] at hk
        cases hk

theorem roles_weaveInto {comments : List Node} (hcomments : ∀ c ∈ comments, c.role = none) :
    (Node.weaveInto comments cs).filterMap (·.role) = cs.filterMap (·.role) := by
  induction cs generalizing comments with
  | nil =>
    unfold Node.weaveInto
    exact List.filterMap_eq_nil_iff.mpr hcomments
  | cons n ns ih =>
    unfold Node.weaveInto
    extract_lets before later inside after
    have hbefore : before.filterMap (·.role) = [] :=
      List.filterMap_eq_nil_iff.mpr fun c hc => hcomments c ((List.takeWhile_sublist _).subset hc)
    have hafter : after ⊆ comments :=
      ((List.dropWhile_sublist _).trans (List.dropWhile_sublist _)).subset
    have hrest := ih fun c hc => hcomments c (hafter hc)
    rw [List.filterMap_append, hbefore, List.nil_append, List.filterMap_cons,
      List.filterMap_cons, (refilled_weave inside n).role, hrest]

theorem DeclaratorParts.weaveInto {comments : List Node} (h : DeclaratorParts cs)
    (hcomments : ∀ c ∈ comments, c.role = none) :
    DeclaratorParts (Node.weaveInto comments cs) := by
  unfold DeclaratorParts
  rw [roles_weaveInto hcomments]
  exact h

theorem Fits.weaveInto {g : Ground} {k : Kind} {e : Extent} {comments : List Node}
    (h : Fits g k e cs) (hcomments : ∀ c ∈ comments, c.kind = .comment ∧ c.role = none) :
    Fits g k e (Node.weaveInto comments cs) := by
  unfold Fits at h ⊢
  split
  · exact h.weaveInto fun c hc => (hcomments c hc).1
  · exact h
  · exact h
  · obtain ⟨c, hc, hstart, htells⟩ := h
    obtain ⟨d, hd, hsame⟩ := exists_weaveInto comments hc
    exact ⟨d, hd, hsame.extent ▸ hstart, hsame.extent ▸ htells⟩
  · exact h.weaveInto hcomments
  · obtain ⟨c, hc, hrole, hstop, htells⟩ := h
    obtain ⟨d, hd, hsame⟩ := exists_weaveInto comments hc
    exact ⟨d, hd, hsame.role.trans hrole, hsame.extent ▸ hstop, hsame.extent ▸ htells⟩
  · exact h.weaveInto fun c hc => (hcomments c hc).2
  · trivial

end

section

variable {code tokens : List Token}

theorem within_of_subset (h : ∀ t ∈ code, t ∈ tokens) :
    (Ground.ofTokens code).Within (.ofTokens tokens) where
  starts := fun _ ⟨t, ht, hstart⟩ => ⟨t, h t ht, hstart⟩
  stops := fun _ ⟨t, ht, hstop⟩ => ⟨t, h t ht, hstop⟩
  tells := fun _ _ ⟨t, ht, htells⟩ => ⟨t, h t ht, htells⟩

mutual
/-- Nodes of the code stay in their places when comments are handed to them. -/
theorem laid_weave (htokens : ∀ t ∈ code, t ∈ tokens) : ∀ {comments : List Node} {n : Node},
    Laid (.ofTokens code) n → Chain n.span.start comments n.span.stop →
    (∀ c ∈ comments, Aside code tokens c) → Laid (.ofTokens tokens) (n.weave comments)
  | comments, .mk k r e cs, .intro hstart hstop hlt hchain hfits hcs, hinside, hcomments => by
    unfold Node.weave
    have hwithin := within_of_subset htokens
    have hrow := row_weaveInto htokens ⟨hchain, hcs⟩ hinside hcomments
    exact .intro (hwithin.starts _ hstart) (hwithin.stops _ hstop) hlt hrow.chain
      ((hfits.imp hwithin).weaveInto fun c hc => ⟨(hcomments c hc).kind, (hcomments c hc).role⟩)
      hrow.laid

theorem row_weaveInto (htokens : ∀ t ∈ code, t ∈ tokens) : ∀ {comments cs : List Node}
    {lo hi : Nat}, Row code lo cs hi → Chain lo comments hi →
    (∀ c ∈ comments, Aside code tokens c) → Row tokens lo (Node.weaveInto comments cs) hi
  | comments, [], lo, hi, _, hchain, hcomments => by
    unfold Node.weaveInto
    exact ⟨hchain, fun c hc => (hcomments c hc).laid⟩
  | comments, n :: ns, lo, hi, hrow, hchain, hcomments => by
    unfold Node.weaveInto
    extract_lets before later inside after
    have hn := hrow.laid n List.mem_cons_self
    cases hrow.chain with
    | cons hstart hrest =>
      have hns : Row code n.span.stop ns hi :=
        ⟨hrest, fun m hm => hrow.laid m (List.mem_cons_of_mem _ hm)⟩
      have hlt := hn.nonempty
      have hle := hns.le
      have hlater : ∀ c ∈ later, Aside code tokens c := fun c hc =>
        hcomments c ((List.dropWhile_sublist _).subset hc)
      have hbefore : Chain lo before n.span.start :=
        hchain.before hcomments (Or.inl hn.starts) hstart
      have hbehind : Chain n.span.start later hi := hchain.behind (by omega)
      have hinside : Chain n.span.start inside n.span.stop :=
        hbehind.before hlater (Or.inr hn.stops) (Nat.le_of_lt hlt)
      have hafter : Chain n.span.stop after hi := hbehind.behind hle
      have hwoven := laid_weave htokens hn hinside fun c hc =>
        hlater c ((List.takeWhile_sublist _).subset hc)
      have hothers := row_weaveInto htokens hns hafter fun c hc =>
        hlater c ((List.dropWhile_sublist _).subset hc)
      have hspan : (n.weave inside).span = n.span := by
        cases n
        simp [Node.weave, Node.span, Node.extent]
      refine Row.append ⟨hbefore, fun c hc => ?_⟩ ⟨.cons ?_ ?_, fun c hc => ?_⟩
      · exact (hcomments c ((List.takeWhile_sublist _).subset hc)).laid
      · exact Nat.le_of_eq (congrArg Span.start hspan).symm
      · rw [hspan]
        exact hothers.chain
      · rcases List.mem_cons.mp hc with rfl | hc
        · exact hwoven
        · exact hothers.laid c hc
end

end

/-- Nodes of a text one after the other, each with all its parts in their places. -/
structure Stands (source : List Char) (lo : Nat) (ns : List Node) (hi : Nat) : Prop where
  chain : Chain lo ns hi
  laid : ∀ n ∈ ns, Laid (.ofText source) n

namespace Stands

variable {source : List Char} {lo hi : Nat} {n : Node} {ns : List Node}

theorem head (h : Stands source lo (n :: ns) hi) :
    lo ≤ n.span.start ∧ n.span.start < n.span.stop ∧ Stands source n.span.stop ns hi := by
  cases h.chain with
  | cons hstart hrest =>
    exact ⟨hstart, (h.laid n List.mem_cons_self).nonempty, hrest,
      fun m hm => h.laid m (List.mem_cons_of_mem _ hm)⟩

theorem le (h : Stands source lo ns hi) : lo ≤ hi := by
  induction ns generalizing lo with
  | nil =>
    cases h.chain with
    | nil hle => exact hle
  | cons n ns ih =>
    obtain ⟨hstart, hlt, hrest⟩ := h.head
    have := ih hrest
    omega

theorem bounds (h : Stands source lo ns hi) : ∀ n ∈ ns, lo ≤ n.span.start ∧ n.span.stop ≤ hi := by
  induction ns generalizing lo with
  | nil => simp
  | cons m ns ih =>
    obtain ⟨hstart, hlt, hrest⟩ := h.head
    intro n hn
    rcases List.mem_cons.mp hn with rfl | hn
    · exact ⟨hstart, hrest.le⟩
    · have := ih hrest n hn
      omega

theorem lower {mid : Nat} (h : Stands source mid ns hi) (hle : lo ≤ mid) :
    Stands source lo ns hi := by
  refine ⟨?_, h.laid⟩
  cases h.chain with
  | nil hle' => exact .nil (Nat.le_trans hle hle')
  | cons hstart hrest => exact .cons (Nat.le_trans hle hstart) hrest

theorem filter (h : Stands source lo ns hi) (p : Node → Bool) :
    Stands source lo (ns.filter p) hi := by
  induction ns generalizing lo with
  | nil => exact h
  | cons n ns ih =>
    obtain ⟨hstart, hlt, hrest⟩ := h.head
    rw [List.filter_cons]
    split
    · refine ⟨.cons hstart (ih hrest).chain, fun m hm => ?_⟩
      rcases List.mem_cons.mp hm with rfl | hm
      · exact h.laid m List.mem_cons_self
      · exact (ih hrest).laid m hm
    · exact (ih hrest).lower (by omega)

theorem pairwise (h : Stands source lo ns hi) :
    ns.Pairwise fun a b => a.span.stop ≤ b.span.start := by
  induction ns generalizing lo with
  | nil => exact .nil
  | cons n ns ih =>
    obtain ⟨-, -, hrest⟩ := h.head
    exact .cons (fun m hm => (hrest.bounds m hm).1) (ih hrest)

/-- Where roles come in a fixed order, what plays the former of two stands before what plays the
latter. -/
theorem in_order (h : Stands source lo ns hi) {roles : List Role}
    (horder : (ns.filterMap (·.role)).Sublist roles) {c d : Node} (hc : c ∈ ns) (hd : d ∈ ns)
    {former latter : Role} (hformer : c.role = some former) (hlatter : d.role = some latter)
    (hne : former ≠ latter) (hnot : ¬ [latter, former].Sublist roles) :
    c.span.stop ≤ d.span.start := by
  have hpairwise := h.pairwise
  obtain ⟨before, after, rfl⟩ := List.append_of_mem hc
  rcases List.mem_append.mp hd with hbefore | hbehind
  · have hpair : [d, c].Sublist (before ++ c :: after) :=
      (List.singleton_sublist.mpr hbefore).append (List.singleton_sublist.mpr List.mem_cons_self)
    have hroles := (hpair.filterMap (·.role)).trans horder
    simp only [List.filterMap_cons, hformer, hlatter, List.filterMap_nil] at hroles
    exact absurd hroles hnot
  · rcases List.mem_cons.mp hbehind with rfl | hafter
    · exact absurd (Option.some.inj (hformer.symm.trans hlatter)) hne
    · exact (List.pairwise_cons.mp (List.pairwise_append.mp hpairwise).2.1).1 d hafter

theorem children (h : Laid (.ofText source) n) :
    Stands source n.span.start n.children n.span.stop := ⟨h.chain, h.children⟩

end Stands

/-- In the tree of a text the parts of a file stand one after the other, and so do the parts of
every part. -/
theorem parse_stands (source : List Char) :
    Stands source 0 (parse source).children (Text.byteLength source) := by
  unfold parse
  extract_lets tokens isComment code comments sub items stop
  have htokens : Queue tokens 0 tokens (Text.byteLength source) := Token.queue_scan source
  have hcode : Queue code 0 code (Text.byteLength source) :=
    htokens.sublist List.filter_sublist fun _ ht => ht
  have hcomments : Row tokens 0 comments (Text.byteLength source) :=
    (htokens.sublist List.filter_sublist fun t ht => (List.mem_filter.mp ht).1).row_leaves
      (by decide)
  have haside : ∀ c ∈ comments, Aside code tokens c := by
    intro c hc
    have hlaid := hcomments.laid c hc
    obtain ⟨t, ht, rfl⟩ := List.mem_map.mp hc
    obtain ⟨htscan, htcomment⟩ := List.mem_filter.mp ht
    refine ⟨rfl, rfl, hlaid, fun a ha hlt => ?_⟩
    have happart : ∀ u ∈ code, u.extent.span.start < u.extent.span.stop ∧
        (t.extent.span.stop ≤ u.extent.span.start ∨ u.extent.span.stop ≤ t.extent.span.start) := by
      intro u hu
      obtain ⟨huscan, hucode⟩ := List.mem_filter.mp hu
      refine ⟨(htokens.bounds u huscan).2, htokens.apart htscan huscan ?_⟩
      rintro rfl
      simp [htcomment] at hucode
    have hspan : (Parse.leaf .comment t).span = t.extent.span := rfl
    rw [hspan] at hlt ⊢
    rcases ha with ⟨u, hu, rfl⟩ | ⟨u, hu, rfl⟩
    · have hu := happart u hu
      simp only [Extent.span] at hlt hu ⊢
      omega
    · have hu := happart u hu
      simp only [Extent.span] at hlt hu ⊢
      omega
  have hitems : Row code 0 items (Text.byteLength source) := by
    have hsub : Grammar.Spelt code sub := Grammar.spelt_goalAt (8 * code.length + 8)
    have hread := Grammar.spells_repeated (Grammar.spells_fileItem hsub)
    cases h : Parse.many (Parse.one (Grammar.fileItem sub)) code with
    | none => simpa [items, h] using Row.nil.widen (Nat.zero_le _)
    | some r =>
      obtain ⟨ns, rest⟩ := r
      obtain ⟨mid, hns, hrest⟩ := hread 0 code _ ns rest h hcode
      simpa [items, h] using hns.widen hrest.le
  have hrow := row_weaveInto (fun t ht => (List.mem_filter.mp ht).1) hitems hcomments.chain haside
  simp only [Node.weave, Node.children]
  exact ⟨hrow.chain, fun n hn => (hrow.laid n hn).imp (scan_within source)⟩

end Carve.Java
