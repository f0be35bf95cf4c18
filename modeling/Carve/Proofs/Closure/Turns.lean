import Carve.Proofs.Closure.Rounds

/-!
# Turns of the search

The search as a machine that nothing bounds. Its queue are the project nodes that have not been
followed. A turn takes out the first of them and follows its references or, when the queue is
empty, brings in the constructors that are missing. Every run comes to the same end, which shows
the closure. On the way each project node is taken out once, and library nodes are passed over
without a look at their references.
-/

namespace Carve.Closure

/-- What happens in one turn. -/
inductive Event where
  /-- A project node is taken out of the queue and its references are followed. -/
  | followed (a : Admitted)
  /-- A library node, which never was in the queue, is passed over. -/
  | passed (a : Admitted)
  /-- The queue is empty and types lack constructors. -/
  | brought (cs : List Admitted)

def projectNodes (ns : List Admitted) : List Admitted := ns.filter fun a => !a.decl.isLibrary

def Search.queue (s : Search) : List Admitted := projectNodes (s.nodes.drop s.followed)

def followedIn (es : List Event) : List Admitted :=
  es.filterMap fun e => match e with | .followed a => some a | _ => none

section

variable (p : Policy) (x : Index) (root : QName)

/-- The next turn, or nothing at the end. -/
def turn (s : Search) : Option (Event × Search) :=
  match s.nodes[s.followed]? with
  | some a =>
    let s := { s with followed := s.followed + 1 }
    some (if a.decl.isLibrary then (.passed a, s)
      else (.followed a, (x.references a.decl.id).foldl (follow p x a) s))
  | none =>
    match missingCtors p x s root with
    | [] => none
    | more => some (.brought more, more.foldl Search.enter s)

/-- Some turns in a row. -/
inductive Run : Search → List Event → Search → Prop where
  | stay (s : Search) : Run s [] s
  | next {s t u : Search} {e : Event} {es : List Event} :
      turn p x root s = some (e, t) → Run t es u → Run s (e :: es) u

end

section

variable {p : Policy} {x : Index} {root : QName} {s t u : Search} {es es' : List Event}

theorem followedIn_cons (e : Event) (es : List Event) :
    followedIn (e :: es) = followedIn [e] ++ followedIn es := by
  cases e <;> rfl

theorem projectNodes_append (ns ns' : List Admitted) :
    projectNodes (ns ++ ns') = projectNodes ns ++ projectNodes ns' := List.filter_append ns ns'

theorem turn_follow {a : Admitted} (ha : s.nodes[s.followed]? = some a) :
    turn p x root s =
      some (if a.decl.isLibrary then .passed a else .followed a, followNode p x s a) := by
  rw [turn, ha]
  unfold followNode
  dsimp only
  split <;> rfl

theorem turn_bring (hempty : s.nodes[s.followed]? = none) (hmissing : missingCtors p x s root ≠ []) :
    turn p x root s = some (.brought (missingCtors p x s root),
      (missingCtors p x s root).foldl Search.enter s) := by
  rw [turn, hempty]
  dsimp only
  split
  · contradiction
  · rfl

theorem Run.trans (h : Run p x root s es t) (k : Run p x root t es' u) :
    Run p x root s (es ++ es') u := by
  induction h with
  | stay => exact k
  | next hturn _ ih => exact .next hturn (ih k)

/-- A run that has come to an end begins with every other run. -/
theorem Run.prefix_of_end (h : Run p x root s es t) (hend : turn p x root t = none) :
    ∀ {es' : List Event} {u : Search}, Run p x root s es' u → es' <+: es := by
  induction h with
  | stay =>
    intro es' u k
    cases k with
    | stay => exact List.prefix_refl _
    | next hturn _ =>
      rw [hend] at hturn
      cases hturn
  | next hturn _ ih =>
    intro es' u k
    cases k with
    | stay => exact List.nil_prefix
    | next hturn' hrest =>
      obtain ⟨rfl, rfl⟩ := Prod.mk.inj (Option.some.inj (hturn.symm.trans hturn'))
      exact List.cons_prefix_cons.mpr ⟨rfl, ih hend hrest⟩

end

section

variable {p : Policy} {x : Index} {root : Declaration}

/-- The queue is served in order: the nodes that waited at first and the project nodes that came in
are, one after the other, the nodes that were taken out and those that still wait. -/
def Serves (s : Search) (es : List Event) (t : Search) : Prop :=
  ∃ new, t.nodes = s.nodes ++ new ∧ s.queue ++ projectNodes new = followedIn es ++ t.queue

theorem Invariant.turn (hx : x.Distinct) {s t : Search} {e : Event} (h : Invariant p x root s)
    (hturn : turn p x root.id s = some (e, t)) : Invariant p x root t ∧ Serves s [e] t := by
  cases ha : s.nodes[s.followed]? with
  | some a =>
    obtain ⟨rfl, rfl⟩ := Prod.mk.inj (Option.some.inj ((turn_follow ha).symm.trans hturn))
    obtain ⟨hnext, hfollowed, new, hnew⟩ := h.followNode ha
    obtain ⟨hlt, hat⟩ := List.getElem?_eq_some_iff.mp ha
    refine ⟨hnext, new, hnew.symm, ?_⟩
    unfold Search.queue
    rw [hfollowed, ← hnew, List.drop_append_of_le_length hlt, List.drop_eq_getElem_cons hlt, hat,
      projectNodes_append]
    cases hl : a.decl.isLibrary <;> simp [followedIn, projectNodes, hl]
  | none =>
    unfold Closure.turn at hturn
    rw [ha] at hturn
    dsimp only at hturn
    split at hturn
    · cases hturn
    obtain ⟨rfl, rfl⟩ := Prod.mk.inj (Option.some.inj hturn)
    obtain ⟨hnext, hfollowed, hnodes⟩ := h.bringMissing hx
    refine ⟨hnext, _, hnodes, ?_⟩
    have hall := Nat.le_antisymm h.followed_le (List.getElem?_eq_none_iff.mp ha)
    unfold Search.queue
    rw [hfollowed, hnodes, hall, List.drop_left, List.drop_length]
    rfl

theorem Invariant.run (hx : x.Distinct) {s t : Search} {es : List Event}
    (hrun : Run p x root.id s es t) :
    Invariant p x root s → Invariant p x root t ∧ Serves s es t := by
  induction hrun with
  | stay s => exact fun h => ⟨h, [], (List.append_nil _).symm, List.append_nil _⟩
  | @next s t u e es hturn _ ih =>
    intro h
    obtain ⟨hinv, new, hnodes, hqueue⟩ := h.turn hx hturn
    obtain ⟨hend, more, hnodes', hqueue'⟩ := ih hinv
    refine ⟨hend, new ++ more, by rw [hnodes', hnodes, List.append_assoc], ?_⟩
    rw [projectNodes_append, ← List.append_assoc, hqueue, List.append_assoc, hqueue',
      ← List.append_assoc, ← followedIn_cons]

theorem Invariant.run_expand (fuel : Nat) : ∀ {s : Search}, Invariant p x root s →
    ∃ es, Run p x root.id s es (Closure.expand p x fuel s) := by
  induction fuel with
  | zero => exact fun {s} _ => ⟨[], .stay s⟩
  | succ fuel ih =>
    intro s h
    unfold Closure.expand
    cases ha : s.nodes[s.followed]? with
    | none => exact ⟨[], .stay s⟩
    | some a =>
      obtain ⟨es, hrun⟩ := ih (h.followNode ha).1
      exact ⟨_ :: es, .next (turn_follow ha) hrun⟩

theorem Invariant.run_complete (hx : x.Distinct) (hroot : x.get? root.id = some root)
    (fuel : Nat) : ∀ {s : Search}, Invariant p x root s →
      ∃ es, Run p x root.id s es (complete p x root.id fuel s) := by
  induction fuel with
  | zero => exact fun {s} _ => ⟨[], .stay s⟩
  | succ fuel ih =>
    intro s h
    obtain ⟨es, hrun⟩ := h.run_expand (x.nodes.length + 1)
    obtain ⟨hinv, hall, -⟩ := h.expand hroot (x.nodes.length + 1) (by omega)
    unfold complete
    dsimp only
    split
    · exact ⟨es, hrun⟩
    · rename_i hmissing
      obtain ⟨es', hrun'⟩ := ih (hinv.bringMissing hx).1
      have hempty := List.getElem?_eq_none_iff.mpr (Nat.le_of_eq hall.symm)
      exact ⟨_, hrun.trans (.next (turn_bring hempty hmissing) hrun')⟩

/-- How the search for the closure of a declaration comes to its end. -/
structure Ends (p : Policy) (x : Index) (root : Declaration) (es : List Event) (s : Search) :
    Prop where
  run : Run p x root.id (Search.enter {} ⟨root, 0⟩) es s
  last : turn p x root.id s = none
  only : ∀ es' t, Run p x root.id (Search.enter {} ⟨root, 0⟩) es' t → es' <+: es
  /-- The queue gave out every project node and nothing else, in the order of admission. -/
  followed : followedIn es = projectNodes s.nodes
  once : (s.nodes.map (·.decl.id)).Nodup
  bounded : (ofSearch p root.id s).members.length ≤ x.nodes.length

inductive Answers (p : Policy) (x : Index) (name : String) : Except Fault Closure → Prop where
  | unknown : x.get? ⟨name⟩ = none → Answers p x name (.error (.notFound name))
  | library {d : Declaration} : x.get? ⟨name⟩ = some d → d.isLibrary = true →
      Answers p x name
        (.error (.invalidArgument (name ++ " is a library declaration and has no source")))
  | closure {d : Declaration} {es : List Event} {s : Search} : x.get? ⟨name⟩ = some d →
      d.isLibrary = false → Ends p x d es s → Answers p x name (.ok (ofSearch p d.id s))

theorem ends_searchOf (hx : x.Distinct) (hroot : x.get? root.id = some root)
    (hp : root.isLibrary = false) : ∃ es, Ends p x root es (searchOf p x root) := by
  have hstart : Invariant p x root (Search.enter {} ⟨root, 0⟩) := .start hp
  obtain ⟨es, hrun⟩ := hstart.run_complete hx hroot (x.nodes.length + 1)
  have hfinished : Finished p x root (searchOf p x root) :=
    (complete_finished hx hroot _ hstart (by omega)).1
  have hlast : turn p x root.id (searchOf p x root) = none := by
    rw [turn, hfinished.followed, List.getElem?_eq_none_iff.mpr (Nat.le_refl _)]
    dsimp only
    rw [hfinished.complete]
  refine ⟨es, hrun, hlast, fun es' t h => hrun.prefix_of_end hlast h, ?_,
    hfinished.invariant.grown.nodup, ?_⟩
  · obtain ⟨-, new, hnodes, hqueue⟩ := Invariant.run hx hrun hstart
    have hempty : (searchOf p x root).queue = [] := by
      rw [Search.queue, hfinished.followed, List.drop_length]
      rfl
    have hfirst : (Search.enter {} ⟨root, 0⟩).queue =
        projectNodes (Search.enter {} ⟨root, 0⟩).nodes := by
      rw [Search.queue, Search.enter_followed, List.drop_zero]
    rw [show searchOf p x root = complete p x root.id _ _ from rfl] at hempty ⊢
    rw [hnodes, projectNodes_append, ← hfirst, hqueue, hempty, List.append_nil]
  · simpa [ofSearch] using hfinished.invariant.grown.length_le hroot

/-- Whatever is asked for is answered. -/
theorem resolve_answers (base : Path) (ops : List Index.Operation) (p : Policy) (name : String) :
    Answers p (Index.build base ops) name (resolve p (Index.build base ops) name) := by
  generalize hbuilt : Index.build base ops = x
  have hx : x.Distinct := hbuilt ▸ Index.build_distinct base ops
  cases hd : x.get? ⟨name⟩ with
  | none =>
    have hanswer : resolve p x name = .error (.notFound name) := by
      rw [resolve, Index.resolve, hd]
      rfl
    exact hanswer ▸ .unknown hd
  | some d =>
    cases hl : d.isLibrary with
    | true =>
      have hanswer : resolve p x name =
          .error (.invalidArgument (name ++ " is a library declaration and has no source")) := by
        simp [resolve, Index.resolve, hd, hl, bind, Except.bind, throw, throwThe,
          MonadExceptOf.throw]
      exact hanswer ▸ .library hd hl
    | false =>
      have hroot : x.get? d.id = some d := (Index.get?_some hd).2 ▸ hd
      obtain ⟨es, hends⟩ := ends_searchOf hx hroot hl
      exact (resolve_eq_searchOf hx hd hl).1 ▸ .closure hd hl hends

end

end Carve.Closure
