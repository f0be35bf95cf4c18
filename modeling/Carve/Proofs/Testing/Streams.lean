import Carve.Proofs.Path
import Carve.Proofs.QName
import Carve.Proofs.Text.Lines
import Carve.Testing.Exchange
import Mathlib.Logic.Relation

/-!
# Streams of events

A stream is told by the events that its lines decode to: the first event that ends it or breaks it
off decides, and before the end the pieces of all messages make up the answer. So it makes no
difference what else stands between the messages, into how many messages a text is divided, and
what follows the end, as long as the stream has anything to say.
-/

namespace Carve.Testing.Exchange

open Text

namespace Event

def IsMessage (e : Event) : Prop := e.kind = "message" ∨ e.kind = "agent_message"

/-- The stream goes no further than this event. -/
def IsStop (e : Event) : Prop := e.kind = "message_end" ∨ e.kind = "error"

instance (e : Event) : Decidable e.IsMessage := inferInstanceAs (Decidable (_ ∨ _))

instance (e : Event) : Decidable e.IsStop := inferInstanceAs (Decidable (_ ∨ _))

def piece (e : Event) : String := e.answer.getD ""

theorem IsMessage.not_stop {e : Event} (h : e.IsMessage) : ¬ e.IsStop := by
  unfold IsStop
  rcases h with h | h <;> simp [h]

end Event

/-- The line carries data, which decode to the event. -/
def Reads (line : List Char) (e : Event) : Prop :=
  ∃ data, line = "data:".toList ++ data ∧ trim data ≠ [] ∧
    Event.parse? (String.ofList (trim data)) = some e

/-- The events that lines decode to, in the order of the lines. -/
inductive Decodes : List (List Char) → List Event → Prop
  | stop : Decodes [] []
  | skip {line : List Char} {ls : List (List Char)} {es : List Event} :
      (∀ e, ¬ Reads line e) → Decodes ls es → Decodes (line :: ls) es
  | read {line : List Char} {e : Event} {ls : List (List Char)} {es : List Event} :
      Reads line e → Decodes ls es → Decodes (line :: ls) (e :: es)

/-- The pieces of the messages before the end, put together. -/
def spoken (es : List Event) : String :=
  String.join (((es.takeWhile (·.kind ≠ "message_end")).filter (·.IsMessage)).map Event.piece)

/-- What events come to, if they have anything to say. -/
inductive Tells (es : List Event) : Except Failure String → Prop
  | failure {e : Event} : es.find? (·.IsStop) = some e → e.kind = "error" →
      Tells es (.error (.http (e.status.getD 500) (e.message.getD "")))
  | answer : (∀ e ∈ es.find? (·.IsStop), e.kind ≠ "error") → spoken es ≠ "" →
      Tells es (.ok (spoken es))

/-- A line that adds nothing to what is told. -/
inductive Noise (line : List Char) : Prop
  | plain : ¬ "data:".toList <+: line → Noise line
  | blank {data : List Char} : line = "data:".toList ++ data → trim data = [] → Noise line
  | undecodable {data : List Char} : line = "data:".toList ++ data →
      Event.parse? (String.ofList (trim data)) = none → Noise line
  | other {e : Event} : Reads line e → ¬ e.IsMessage → ¬ e.IsStop → Noise line

/-- Lines that are told differently to the same effect. -/
inductive Edit : List (List Char) → List (List Char) → Prop
  | insert {before after : List (List Char)} {line : List Char} : Noise line →
      Edit (before ++ after) (before ++ line :: after)
  | divide {before after pieces : List (List Char)} {line : List Char} {e : Event}
      {es : List Event} : Reads line e → e.IsMessage → List.Forall₂ Reads pieces es →
      (∀ d ∈ es, d.IsMessage) → String.join (es.map Event.piece) = e.piece →
      Edit (before ++ line :: after) (before ++ (pieces ++ after))
  | proceed {before after after' : List (List Char)} {line : List Char} {e : Event} :
      Reads line e → e.kind = "message_end" →
      Edit (before ++ line :: after) (before ++ line :: after')

/-! ### Lines and their events -/

def eventOf? (line : List Char) : Option Event := do
  let data := trim (← stripStart "data:".toList line)
  if data.isEmpty then none else Event.parse? (String.ofList data)

theorem eventOf?_eq_some_iff {line : List Char} {e : Event} :
    eventOf? line = some e ↔ Reads line e := by
  constructor
  · intro h
    obtain ⟨data, hdata, hread⟩ := Option.bind_eq_some_iff.mp h
    by_cases hblank : trim data = []
    · simp [hblank] at hread
    · refine ⟨data, stripStart_eq_some.mp hdata, hblank, ?_⟩
      simpa [hblank] using hread
  · rintro ⟨data, hline, hblank, hparse⟩
    refine Option.bind_eq_some_iff.mpr ⟨data, stripStart_eq_some.mpr hline, ?_⟩
    simp [hblank, hparse]

theorem eventOf?_eq_none_iff {line : List Char} :
    eventOf? line = none ↔ ∀ e, ¬ Reads line e := by
  rw [Option.eq_none_iff_forall_ne_some]
  exact forall_congr' fun e => not_congr eventOf?_eq_some_iff

theorem decodes_iff {ls : List (List Char)} {es : List Event} :
    Decodes ls es ↔ es = ls.filterMap eventOf? := by
  constructor
  · intro h
    induction h with
    | stop => rfl
    | skip hline _ ih => rw [List.filterMap_cons_none (eventOf?_eq_none_iff.mpr hline), ih]
    | read hline _ ih => rw [List.filterMap_cons_some (eventOf?_eq_some_iff.mpr hline), ih]
  · rintro rfl
    induction ls with
    | nil => exact .stop
    | cons line ls ih =>
      cases hline : eventOf? line with
      | none =>
        rw [List.filterMap_cons_none hline]
        exact .skip (eventOf?_eq_none_iff.mp hline) ih
      | some e =>
        rw [List.filterMap_cons_some hline]
        exact .read (eventOf?_eq_some_iff.mp hline) ih

theorem filterMap_eventOf? {ls : List (List Char)} {es : List Event}
    (h : List.Forall₂ Reads ls es) : ls.filterMap eventOf? = es := by
  induction h with
  | nil => rfl
  | cons hline _ ih => rw [List.filterMap_cons_some (eventOf?_eq_some_iff.mpr hline), ih]

theorem trim_concat_blank {c : Char} (hc : isBlank c = true) (cs : List Char) :
    trim (cs ++ [c]) = trim cs := by
  unfold trim
  by_cases hstart : trimStart cs = []
  · have hall : trimStart (cs ++ [c]) = [] := by
      unfold trimStart at hstart ⊢
      rw [List.dropWhile_append, hstart]
      simp [hc]
    rw [hall, hstart]
  · have hend : trimStart (cs ++ [c]) = trimStart cs ++ [c] := by
      unfold trimStart at hstart ⊢
      rw [List.dropWhile_append, if_neg (by simpa using hstart)]
    rw [hend]
    simp [trimEnd, dropEndWhile, hc]

theorem reads_return {front : List Char} {e : Event} :
    Reads (front ++ ['\r']) e ↔ Reads front e := by
  constructor
  · rintro ⟨data, hline, hblank, hparse⟩
    rcases List.eq_nil_or_concat data with rfl | ⟨data, c, rfl⟩
    · have hlast := congrArg List.getLast? hline
      simp at hlast
    · rw [List.concat_eq_append] at hline hblank hparse
      rw [← List.append_assoc] at hline
      obtain ⟨hfront, hc⟩ := List.append_inj' hline rfl
      obtain rfl : '\r' = c := List.singleton_inj.mp hc
      rw [trim_concat_blank rfl] at hblank hparse
      exact ⟨data, hfront, hblank, hparse⟩
  · rintro ⟨data, rfl, hblank, hparse⟩
    refine ⟨data ++ ['\r'], List.append_assoc _ _ _, ?_⟩
    rw [trim_concat_blank rfl]
    exact ⟨hblank, hparse⟩

theorem eventOf?_dropReturn (line : List Char) : eventOf? (dropReturn line) = eventOf? line := by
  rcases dropReturn_eq_or line with heq | heq
  · rw [heq]
  · ext e
    rw [eventOf?_eq_some_iff, eventOf?_eq_some_iff]
    nth_rewrite 2 [heq]
    exact reads_return.symm

/-- The events of a body are those of its lines. -/
theorem decodes_events (body : String) : Decodes (split '\n' body.toList) (events body) :=
  decodes_iff.mpr (filterMap_lines rfl fun line _ => eventOf?_dropReturn line)

/-! ### What events come to -/

section

variable {before es es' : List Event} {e : Event} {r : Except Failure String}

theorem spoken_end (h : e.kind = "message_end") (es : List Event) : spoken (e :: es) = "" := by
  unfold spoken
  rw [List.takeWhile_cons_of_neg (by simp [h])]
  rfl

theorem spoken_message (h : e.IsMessage) (es : List Event) :
    spoken (e :: es) = e.piece ++ spoken es := by
  have hend : e.kind ≠ "message_end" := fun hkind => h.not_stop (Or.inl hkind)
  unfold spoken
  rw [List.takeWhile_cons_of_pos (by simp [hend]), List.filter_cons_of_pos (by simp [h]),
    List.map_cons, String.join_cons]

theorem spoken_other (hend : e.kind ≠ "message_end") (h : ¬ e.IsMessage) (es : List Event) :
    spoken (e :: es) = spoken es := by
  unfold spoken
  rw [List.takeWhile_cons_of_pos (by simp [hend]), List.filter_cons_of_neg (by simp [h])]

theorem collectAnswer_cons (e : Event) (es : List Event) : collectAnswer (e :: es) =
    if e.IsMessage then (collectAnswer es).map (e.piece ++ ·)
    else if e.kind = "message_end" then .ok ""
    else if e.kind = "error" then .error (.http (e.status.getD 500) (e.message.getD ""))
    else collectAnswer es := by
  rw [collectAnswer]
  simp only [Bool.or_eq_true, beq_iff_eq, Event.piece]
  rfl

/-- The loop over the events and what it comes to. -/
theorem collectAnswer_eq (es : List Event) : collectAnswer es =
    match es.find? (·.IsStop) with
    | none => .ok (spoken es)
    | some e =>
      if e.kind = "error" then .error (.http (e.status.getD 500) (e.message.getD ""))
      else .ok (spoken es) := by
  induction es with
  | nil => rfl
  | cons e es ih =>
    rw [collectAnswer_cons]
    by_cases hmessage : e.IsMessage
    · have hfind : (e :: es).find? (·.IsStop) = es.find? (·.IsStop) :=
        List.find?_cons_of_neg (by simpa using hmessage.not_stop)
      rw [if_pos hmessage, hfind, ih, spoken_message hmessage]
      cases es.find? (·.IsStop) with
      | none => rfl
      | some d => by_cases hkind : d.kind = "error" <;> simp [hkind, Except.map]
    rw [if_neg hmessage]
    by_cases hend : e.kind = "message_end"
    · have hfind : (e :: es).find? (·.IsStop) = some e :=
        List.find?_cons_of_pos (by simp [Event.IsStop, hend])
      rw [if_pos hend, hfind, spoken_end hend]
      simp [hend]
    rw [if_neg hend]
    by_cases herror : e.kind = "error"
    · have hfind : (e :: es).find? (·.IsStop) = some e :=
        List.find?_cons_of_pos (by simp [Event.IsStop, herror])
      rw [if_pos herror, hfind]
      simp [herror]
    · have hfind : (e :: es).find? (·.IsStop) = es.find? (·.IsStop) :=
        List.find?_cons_of_neg (by simp [Event.IsStop, hend, herror])
      rw [if_neg herror, hfind, ih, spoken_other hend hmessage]

theorem collectAnswer_of_tells (h : Tells es r) : collectAnswer es = r := by
  rw [collectAnswer_eq]
  cases h with
  | failure hfind herror =>
    rw [hfind]
    exact if_pos herror
  | answer hkind _ =>
    cases hfind : es.find? (·.IsStop) with
    | none => rfl
    | some e => exact if_neg (hkind e hfind)

theorem readStream_of_tells {body : String} (h : Tells (events body) r) : readStream body = r := by
  unfold readStream
  rw [collectAnswer_of_tells h]
  cases h with
  | failure => rfl
  | answer _ hspoken =>
    have hfull : (spoken (events body)).isEmpty = false := by simpa using hspoken
    simp only [bind, Except.bind, hfull, Bool.false_eq_true, if_false]
    rfl

/-! ### Changes that make no difference -/

theorem tells_congr (hfind : es.find? (·.IsStop) = es'.find? (·.IsStop))
    (hspoken : spoken es = spoken es') : Tells es r → Tells es' r := by
  intro h
  cases h with
  | failure hstop herror => exact .failure (hfind ▸ hstop) herror
  | answer hkind hne =>
    rw [hspoken] at hne ⊢
    exact .answer (hfind ▸ hkind) hne

theorem spoken_congr (h : spoken es = spoken es') (before : List Event) :
    spoken (before ++ es) = spoken (before ++ es') := by
  induction before with
  | nil => exact h
  | cons e before ih =>
    rw [List.cons_append, List.cons_append]
    by_cases hend : e.kind = "message_end"
    · rw [spoken_end hend, spoken_end hend]
    by_cases hmessage : e.IsMessage
    · rw [spoken_message hmessage, spoken_message hmessage, ih]
    · rw [spoken_other hend hmessage, spoken_other hend hmessage, ih]

theorem find?_congr (h : es.find? (·.IsStop) = es'.find? (·.IsStop)) (before : List Event) :
    (before ++ es).find? (·.IsStop) = (before ++ es').find? (·.IsStop) := by
  rw [List.find?_append, List.find?_append, h]

theorem spoken_messages (h : ∀ d ∈ es', d.IsMessage) (es : List Event) :
    spoken (es' ++ es) = String.join (es'.map Event.piece) ++ spoken es := by
  induction es' with
  | nil => simp
  | cons d es' ih =>
    have hrest := ih fun c hc => h c (List.mem_cons_of_mem _ hc)
    rw [List.cons_append, spoken_message (h d List.mem_cons_self), hrest, List.map_cons,
      String.join_cons, String.append_assoc]

theorem find?_messages (h : ∀ d ∈ es', d.IsMessage) (es : List Event) :
    (es' ++ es).find? (·.IsStop) = es.find? (·.IsStop) := by
  have hnone : es'.find? (·.IsStop) = none :=
    List.find?_eq_none.mpr fun d hd => by simpa using (h d hd).not_stop
  rw [List.find?_append, hnone, Option.none_or]

end

def Agrees (ls ls' : List (List Char)) : Prop :=
  (ls.filterMap eventOf?).find? (·.IsStop) = (ls'.filterMap eventOf?).find? (·.IsStop) ∧
    spoken (ls.filterMap eventOf?) = spoken (ls'.filterMap eventOf?)

theorem Agrees.behind {ls ls' : List (List Char)} (h : Agrees ls ls')
    (before : List (List Char)) : Agrees (before ++ ls) (before ++ ls') := by
  unfold Agrees
  rw [List.filterMap_append, List.filterMap_append]
  exact ⟨find?_congr h.1 _, spoken_congr h.2 _⟩

theorem Noise.agrees {line : List Char} (h : Noise line) (after : List (List Char)) :
    Agrees after (line :: after) := by
  unfold Agrees
  cases hline : eventOf? line with
  | none =>
    rw [List.filterMap_cons_none hline]
    exact ⟨rfl, rfl⟩
  | some e =>
    obtain ⟨data, hdata, hfull, hparse⟩ := eventOf?_eq_some_iff.mp hline
    rw [List.filterMap_cons_some hline]
    cases h with
    | plain hplain => exact absurd ⟨data, hdata.symm⟩ hplain
    | blank hdata' hblank =>
      obtain rfl := List.append_cancel_left (hdata.symm.trans hdata')
      exact absurd hblank hfull
    | undecodable hdata' hnone =>
      obtain rfl := List.append_cancel_left (hdata.symm.trans hdata')
      rw [hparse] at hnone
      cases hnone
    | other hreads hmessage hstop =>
      have hsame := eventOf?_eq_some_iff.mpr hreads
      obtain rfl := Option.some.inj (hline.symm.trans hsame)
      constructor
      · exact (List.find?_cons_of_neg (by simpa using hstop)).symm
      · exact (spoken_other (fun hkind => hstop (Or.inl hkind)) hmessage _).symm

theorem Edit.agrees {ls ls' : List (List Char)} (h : Edit ls ls') : Agrees ls ls' := by
  cases h with
  | insert hnoise => exact (hnoise.agrees _).behind _
  | divide hline hmessage hpieces hmessages hjoin =>
    apply Agrees.behind
    have hevents := filterMap_eventOf? hpieces
    unfold Agrees
    rw [List.filterMap_cons_some (eventOf?_eq_some_iff.mpr hline), List.filterMap_append, hevents,
      find?_messages hmessages, spoken_messages hmessages, spoken_message hmessage, hjoin]
    exact ⟨List.find?_cons_of_neg (by simpa using hmessage.not_stop), rfl⟩
  | proceed hline hend =>
    apply Agrees.behind
    have hread := eventOf?_eq_some_iff.mpr hline
    unfold Agrees
    rw [List.filterMap_cons_some hread, List.filterMap_cons_some hread, spoken_end hend,
      spoken_end hend]
    have hstop : Event.IsStop _ := Or.inl hend
    exact ⟨by simp [hstop], rfl⟩

theorem agrees_of_edits {ls ls' : List (List Char)} (h : Relation.EqvGen Edit ls ls') :
    Agrees ls ls' := by
  induction h with
  | rel _ _ h => exact h.agrees
  | refl => exact ⟨rfl, rfl⟩
  | symm _ _ _ ih => exact ⟨ih.1.symm, ih.2.symm⟩
  | trans _ _ _ _ _ ih ih' => exact ⟨ih.1.trans ih'.1, ih.2.trans ih'.2⟩

/-- A stream comes to what its events tell, however the lines around them are edited. -/
theorem readStream_concatenates (body : String) : ∃ es, Decodes (split '\n' body.toList) es ∧
    ∀ r, Tells es r → readStream body = r ∧
      ∀ body' : String, Relation.EqvGen Edit (split '\n' body.toList) (split '\n' body'.toList) →
        readStream body' = r := by
  refine ⟨events body, decodes_events body, fun r hr => ⟨readStream_of_tells hr, ?_⟩⟩
  intro body' hedits
  have hagrees := agrees_of_edits hedits
  unfold Agrees at hagrees
  rw [← decodes_iff.mp (decodes_events body), ← decodes_iff.mp (decodes_events body')] at hagrees
  exact readStream_of_tells (tells_congr hagrees.1 hagrees.2 hr)

def eventLine (kind answer : String) : List Char :=
  ("data: \x7b\"event\": \"" ++ kind ++ "\", \"answer\": \"" ++ answer ++ "\"\x7d").toList

def ended : Event := ⟨"message_end", some "", none, none⟩

def brief : List (List Char) :=
  ["event: ping".toList, eventLine "message" "class A", eventLine "message_end" ""]

def lengthy : List (List Char) :=
  [eventLine "agent_message" "class ", ": wait\r".toList, eventLine "message" "A",
    "data: not yet".toList, eventLine "message_end" "", eventLine "error" "late"]

def unlines (ls : List (List Char)) : String := String.ofList (join ['\n'] ls)

theorem brief_to_lengthy : Relation.EqvGen Edit brief lengthy := by
  have hping : Noise "event: ping".toList := .plain (by decide +kernel)
  have hwait : Noise ": wait\r".toList := .plain (by decide +kernel)
  have hdata : Noise "data: not yet".toList :=
    @Noise.undecodable _ " not yet".toList (by decide +kernel) (by decide +kernel)
  have hwhole : Reads (eventLine "message" "class A") ⟨"message", some "class A", none, none⟩ :=
    eventOf?_eq_some_iff.mp (by decide +kernel)
  have hfirst : Reads (eventLine "agent_message" "class ")
      ⟨"agent_message", some "class ", none, none⟩ := eventOf?_eq_some_iff.mp (by decide +kernel)
  have hsecond : Reads (eventLine "message" "A") ⟨"message", some "A", none, none⟩ :=
    eventOf?_eq_some_iff.mp (by decide +kernel)
  have hend : Reads (eventLine "message_end" "") ended :=
    eventOf?_eq_some_iff.mp (by decide +kernel)
  let first := eventLine "agent_message" "class "
  let second := eventLine "message" "A"
  let last := eventLine "message_end" ""
  apply Quot.eqvGen_exact
  calc Quot.mk Edit brief
      = Quot.mk Edit [eventLine "message" "class A", last] :=
        (Quot.sound (@Edit.insert [] _ _ hping)).symm
    _ = Quot.mk Edit [first, second, last] :=
        Quot.sound (@Edit.divide [] [last] [first, second] _ _ _ hwhole (by decide)
          (.cons hfirst (.cons hsecond .nil)) (by decide) (by decide +kernel))
    _ = Quot.mk Edit [first, ": wait\r".toList, second, last] :=
        Quot.sound (@Edit.insert [first] _ _ hwait)
    _ = Quot.mk Edit [first, ": wait\r".toList, second, "data: not yet".toList, last] :=
        Quot.sound (@Edit.insert [first, ": wait\r".toList, second] _ _ hdata)
    _ = Quot.mk Edit lengthy :=
        Quot.sound (@Edit.proceed [first, ": wait\r".toList, second, "data: not yet".toList] []
          [eventLine "error" "late"] _ _ hend rfl)

/-- A message in two pieces, among other lines and with an error behind the end, is read like the
message in one piece. -/
theorem lengthy_is_read : ∃ es, Decodes (split '\n' (unlines brief).toList) es ∧
    Tells es (.ok "class A") ∧
    Relation.EqvGen Edit (split '\n' (unlines brief).toList) (split '\n' (unlines lengthy).toList) ∧
    readStream (unlines brief) = .ok "class A" ∧ readStream (unlines lengthy) = .ok "class A" := by
  have hbrief : split '\n' (unlines brief).toList = brief := by
    rw [unlines, String.toList_ofList]
    decide +kernel
  have hlengthy : split '\n' (unlines lengthy).toList = lengthy := by
    rw [unlines, String.toList_ofList]
    decide +kernel
  obtain ⟨es, hes, htold⟩ := readStream_concatenates (unlines brief)
  have hevents : es = [⟨"message", some "class A", none, none⟩, ended] :=
    (decodes_iff.mp hes).trans (by decide +kernel)
  have htells : Tells es (.ok "class A") := by
    have hspoken : spoken es = "class A" := by
      rw [hevents]
      decide +kernel
    rw [← hspoken]
    refine .answer ?_ (by simp [hspoken])
    rw [hevents]
    decide +kernel
  have hedits : Relation.EqvGen Edit (split '\n' (unlines brief).toList)
      (split '\n' (unlines lengthy).toList) := by
    rw [hbrief, hlengthy]
    exact brief_to_lengthy
  obtain ⟨hread, hothers⟩ := htold _ htells
  exact ⟨es, hes, htells, hedits, hread, hothers _ hedits⟩

end Carve.Testing.Exchange
