import LanguageClient.Proofs.Client.Release
import LanguageClient.Proofs.Client.Reordering
import Mathlib.Data.List.Induction

/-!
# Every caller gets its own reply

Whatever arrives in whatever order, the outcome of a call is a reply exactly if this was the first
response with the id of the call that arrived while the call was pending (`outcome?_eq_reply_iff`).
The rest follows because ids are not issued twice: what a caller is told, and that a reply that comes
too late is for nobody (`routed_after`).
-/

namespace LanguageClient.Client

open Calls (Sound)

variable {c : Client} {id : Int64} {m : Move} {ms : List Move} {r : Response}

theorem Lasting.sound (h : Lasting c ms) (hc : Sound c.calls) : Sound (c.after ms).calls := by
  obtain ⟨es, hrun⟩ := h.run
  exact hc.run hrun

theorem Lasting.outcome? (h : Lasting c ms) (hc : Sound c.calls) {o : Calls.Outcome}
    (ho : c.calls.outcome? id = some o) : (c.after ms).calls.outcome? id = some o := by
  obtain ⟨es, hrun⟩ := h.run
  exact hc.outcome?_of_run hrun ho

/-! ### The reply to a call -/

/-- Of the responses with the id of a call, `r` is the first one that arrives while the call is
pending. -/
def FirstReply (c : Client) (ms : List Move) (id : Int64) (r : Response) : Prop :=
  ∃ before later, ms = before ++ .reply r :: later ∧ r.id = .int id ∧
    id ∈ (c.after before).calls.pending ∧
    ∀ earlier q between, before = earlier ++ .reply q :: between → q.id = .int id →
      id ∉ (c.after earlier).calls.pending

theorem outcome?_of_reply (hc : Sound c.calls) {before later : List Move}
    (h : Lasting c (before ++ .reply r :: later)) (hr : r.id = .int id)
    (hid : id ∈ (c.after before).calls.pending) :
    (c.after (before ++ .reply r :: later)).calls.outcome? id = some (.reply r) := by
  have hanswered : c.after (before ++ [.reply r]) = (c.after before).answered id r := by
    rw [after_append, ← move_reply hr hid]
    rfl
  rw [List.append_cons] at h ⊢
  rw [after_append]
  refine h.right.outcome? (h.left.sound hc) ?_
  rw [hanswered, answered_calls, Calls.outcome?_retire, if_pos rfl]

theorem reply_of_outcome? (hc : Sound c.calls) (hnew : c.calls.outcome? id = none)
    (h : Lasting c ms) (ho : (c.after ms).calls.outcome? id = some (.reply r)) :
    ∃ before later, ms = before ++ .reply r :: later ∧ r.id = .int id ∧
      id ∈ (c.after before).calls.pending := by
  induction ms using List.reverseRecOn with
  | nil => cases hnew.symm.trans ho
  | append_singleton ms m ih =>
    have hkeep (ho : (c.after ms).calls.outcome? id = some (.reply r)) :
        ∃ before later, ms ++ [m] = before ++ .reply r :: later ∧ r.id = .int id ∧
          id ∈ (c.after before).calls.pending := by
      obtain ⟨before, later, rfl, hr, hid⟩ := ih h.left ho
      exact ⟨before, later ++ [m], by simp, hr, hid⟩
    have hlast : Lasting (c.after ms) [m] := h.right
    rw [after_append] at ho
    -- A call that is not pending keeps its outcome, and one that is gets a reply from a reply only.
    rcases move_calls (c.after ms) m hlast.head with heq | ⟨e, hstep, hm⟩
    · exact hkeep (heq ▸ ho)
    · rw [after_cons, after_nil, (h.left.sound hc).outcome?_step hstep] at ho
      split at ho
      · cases e with
        | reply q =>
          obtain ⟨hq, heq⟩ := Option.ite_none_right_eq_some.mp ho
          cases heq
          exact ⟨ms, [], hm ▸ rfl, hq, ‹_›⟩
        | remove k => exact absurd ho (by simp [Calls.Event.outcomeFor?])
        | begin | register | close | fetch => cases ho
      · exact hkeep ho

/-- A call has a reply for its outcome if and only if it was the first for it. -/
theorem outcome?_eq_reply_iff (hc : Sound c.calls) (hnew : c.calls.outcome? id = none)
    (h : Lasting c ms) :
    (c.after ms).calls.outcome? id = some (.reply r) ↔ FirstReply c ms id r := by
  constructor
  · intro ho
    obtain ⟨before, later, rfl, hr, hid⟩ := reply_of_outcome? hc hnew h ho
    refine ⟨before, later, rfl, hr, hid, ?_⟩
    rintro earlier q between rfl hq hearlier
    have hbefore := outcome?_of_reply hc h.left hq hearlier
    rw [(h.left.sound hc).outcome?_of_mem hid] at hbefore
    cases hbefore
  · rintro ⟨before, later, rfl, hr, hid, -⟩
    exact outcome?_of_reply hc h hr hid

/-! ### What a caller is told -/

theorem conclude_cases (c : Client) (method : Bytes) (id : Int64) :
    (∃ o, c.calls.outcome? id = some o ∧ (c.conclude method id).2 = answer o) ∨
      (c.conclude method id).2 = .error .abandoned ∨
      (c.conclude method id).2 = .error (.timeout (.noReply method)) ∧
        (c.conclude method id).1.calls = (c.calls.remove (.int id)).1 := by
  unfold conclude
  rcases c.calls.fetch_cases id with ⟨o, -, ho, h⟩ | ⟨-, -, h⟩ | ⟨-, h⟩ <;> rw [h]
  · exact .inl ⟨o, ho, rfl⟩
  · exact .inr (.inr ⟨rfl, rfl⟩)
  · exact .inr (.inl rfl)

theorem reply_of_answer_ok {o : Calls.Outcome} {v : Json} (h : answer o = .ok v) :
    ∃ r, o = .reply r ∧ r.error = none ∧ r.result.getD .null = v := by
  cases o with
  | removed | closed => cases h
  | reply r => cases hr : r.error <;> simp_all [answer]

theorem reply_of_answer_protocol {o : Calls.Outcome} {e : ErrorObject}
    (h : answer o = .error (.protocol e)) : ∃ r, o = .reply r ∧ r.error = some e := by
  cases o with
  | removed | closed => cases h
  | reply r => cases hr : r.error <;> simp_all [answer]

theorem reply_of_conclude_ok {method : Bytes} {v : Json} (h : (c.conclude method id).2 = .ok v) :
    ∃ r, c.calls.outcome? id = some (.reply r) ∧ r.error = none ∧ r.result.getD .null = v := by
  rcases conclude_cases c method id with ⟨o, ho, heq⟩ | heq | ⟨heq, -⟩ <;> rw [heq] at h
  · obtain ⟨r, rfl, hr, hv⟩ := reply_of_answer_ok h
    exact ⟨r, ho, hr, hv⟩
  · cases h
  · cases h

theorem reply_of_conclude_protocol {method : Bytes} {e : ErrorObject}
    (h : (c.conclude method id).2 = .error (.protocol e)) :
    ∃ r, c.calls.outcome? id = some (.reply r) ∧ r.error = some e := by
  rcases conclude_cases c method id with ⟨o, ho, heq⟩ | heq | ⟨heq, -⟩ <;> rw [heq] at h
  · obtain ⟨r, rfl, hr⟩ := reply_of_answer_protocol h
    exact ⟨r, ho, hr⟩
  · cases h
  · cases h

/-! ### Replies that come too late -/

/-- The caller of `id` is told that the time is up, when it asks for the outcome or before its
request was sent. -/
def Move.TimesOut (c : Client) (id : Int64) : Move → Prop
  | .conclude method k => k = id ∧ (c.conclude method k).2 = .error (.timeout (.noReply method))
  | .withdraw _ k failure => k = id ∧ ∃ e, failure = .timeout e
  | .start .. | .connect _ | .stop _ | .meet _ | .pop | .note _ | .register _ => False

theorem not_mem_of_timesOut (hc : Sound c.calls) (h : m.TimesOut c id) :
    id ∉ (c.move m).calls.pending := by
  have hgone := (Calls.remove_released hc.nodup_pending id).gone
  cases m with
  | conclude method k =>
    obtain ⟨rfl, htimeout⟩ := h
    rcases conclude_cases c method k with ⟨o, -, heq⟩ | heq | ⟨-, hcalls⟩
    · exact absurd (heq.symm.trans htimeout) (answer_ne_timeout o _)
    · cases heq.symm.trans htimeout
    · rwa [move, hcalls]
  | withdraw method k failure =>
    obtain ⟨rfl, e, rfl⟩ := h
    exact hgone
  | start | connect | stop | meet | pop | note | register => exact h.elim

theorem Lasting.issued (h : Lasting c ms) (hc : Sound c.calls) (hid : 0 < id ∧ id < c.calls.nextId) :
    0 < id ∧ id < (c.after ms).calls.nextId := by
  obtain ⟨es, hrun⟩ := h.run
  exact ((h.sound hc).mem_known id).mp (hrun.mem_known ((hc.mem_known id).mpr hid))

/-- A call that has left the table does not come back. -/
theorem Lasting.not_mem (h : Lasting c ms) (hc : Sound c.calls)
    (hissued : 0 < id ∧ id < c.calls.nextId) (hid : id ∉ c.calls.pending) :
    id ∉ (c.after ms).calls.pending := by
  cases ho : c.calls.outcome? id with
  | none => exact absurd (hc.mem_pending_iff.mpr ⟨hissued, ho⟩) hid
  | some o =>
    intro hafter
    have hlasts := h.outcome? hc ho
    rw [(h.sound hc).outcome?_of_mem hafter] at hlasts
    cases hlasts

/-- A message that no call waits for leaves the table as it is. -/
theorem receive_calls {x : Message}
    (h : ∀ r, x = .response r → c.calls.waitsFor r.id = false) : (c.receive x).calls = c.calls := by
  cases x with
  | response r => rw [receive, receiveResponse_calls, Calls.complete_of_not_waiting (h r rfl)]
  | request q => exact queue_calls c (.request q)
  | notification q => exact queue_calls c (.notification q)

theorem receiveFault_calls (c : Client) (f : ReadFault) : (c.receiveFault f).calls = c.calls := by
  cases f <;> rfl

theorem waitsFor_eq_false (hid : id ∉ c.calls.pending) (hr : r.id = .int id) :
    c.calls.waitsFor r.id = false := by
  simpa [Calls.waitsFor, hr] using hid

/-! ### The routing of replies -/

/-- What callers can rely on after the moves `ms`. -/
structure Routed (c : Client) (ms : List Move) : Prop where
  /-- A value that a call returns is the result of the first response to it. -/
  value : ∀ method id v, ((c.after ms).conclude method id).2 = .ok v →
    ∃ r, FirstReply c ms id r ∧ r.error = none ∧ r.result.getD .null = v
  /-- An error of the server that a call ends with is the error of the first response to it. -/
  error : ∀ method id e, ((c.after ms).conclude method id).2 = .error (.protocol e) →
    ∃ r, FirstReply c ms id r ∧ r.error = some e
  /-- The first response to a call becomes its outcome. -/
  outcome : ∀ id r, FirstReply c ms id r → (c.after ms).calls.outcome? id = some (.reply r)
  /-- The replies to calls that are pending at some time may come in any order after it. -/
  reordered : ∀ before span later, ms = before ++ span ++ later →
    ∀ span', Reordered (c.after before).calls.pending span span' →
      c.told (before ++ span' ++ later) = c.told ms
  /-- A reply that arrives after its call has timed out is for nobody, and nobody will get the id of
  the call again. -/
  late : ∀ before m later, ms = before ++ m :: later →
    ∀ id, 0 < id ∧ id < (c.after before).calls.nextId → m.TimesOut (c.after before) id →
      (∀ r, r.id = .int id → ((c.after ms).receive (.response r)).calls = (c.after ms).calls) ∧
        id < (c.after ms).calls.nextId
  /-- What is not a response to a pending call leaves all calls as they are. -/
  unmoved : ∀ x, (∀ r, x = .response r → (c.after ms).calls.waitsFor r.id = false) →
    ((c.after ms).receive x).calls = (c.after ms).calls
  faults : ∀ f, ((c.after ms).receiveFault f).calls = (c.after ms).calls

theorem Lasting.routed (h : Lasting c ms) (hc : Sound c.calls)
    (hnew : ∀ id, c.calls.outcome? id = none) : Routed c ms where
  value method id v hv := by
    obtain ⟨r, ho, hr⟩ := reply_of_conclude_ok hv
    exact ⟨r, (outcome?_eq_reply_iff hc (hnew id) h).mp ho, hr⟩
  error method id e he := by
    obtain ⟨r, ho, hr⟩ := reply_of_conclude_protocol he
    exact ⟨r, (outcome?_eq_reply_iff hc (hnew id) h).mp ho, hr⟩
  outcome id r := (outcome?_eq_reply_iff hc (hnew id) h).mpr
  reordered before span later hms span' hspan := by
    subst hms
    have hsound := h.left.left.sound hc
    have hwaits : ∀ k ∈ (c.after before).calls.pending, (c.after before).calls.Waits k :=
      fun k hk => ⟨hsound.running_of_mem hk, hk⟩
    obtain ⟨htwin, htold⟩ := hspan.twin hwaits
    simp only [told_append, after_append, htold, htwin.told_eq]
  late before m later hms id hid hm := by
    subst hms
    have hsound := h.left.sound hc
    have hgone := not_mem_of_timesOut hsound hm
    have hlater : Lasting ((c.after before).move m) later := h.right.tail
    have hmove : Lasting (c.after before) [m] := by
      rw [List.append_cons] at h
      exact h.left.right
    have hissued := hmove.issued hsound hid
    have hnot := hlater.not_mem (hmove.sound hsound) hissued hgone
    rw [after_append, after_cons]
    refine ⟨fun r hr => receive_calls ?_, (hlater.issued (hmove.sound hsound) hissued).2⟩
    rintro q ⟨⟩
    exact waitsFor_eq_false hnot hr
  unmoved x := receive_calls
  faults f := receiveFault_calls _ f

/-- Every caller gets its own reply, as long as the ids last. -/
theorem routed_after (options : Options) (ms : List Move)
    (h : ms.countP Move.isRegister < Int64.maxValue.toInt) : Routed (ofOptions options) ms := by
  have hlasting : Lasting (ofOptions options) ms := by
    have hone : (ofOptions options).calls.nextId.toInt = 1 := rfl
    rw [Lasting, hone]
    omega
  exact hlasting.routed .init fun _ => rfl

/-- Two calls whose replies cross, among a response with a text for its id, a request of the server's
with the id of a call, a fault, and a second response to the second call. -/
def crossingReplies : List Move :=
  [.connect true, .register (bytes "a"), .register (bytes "b"),
    .reply { id := .string (bytes "1"), result := some .null, error := none },
    .meet (.message (.request { id := .int 1, method := bytes "a", params := none })),
    .reply { id := .int 2, result := some (.bool true), error := none },
    .meet (.fault (.frame (.header .noLength))),
    .reply { id := .int 1, result := some (.bool false), error := none },
    .reply { id := .int 2, result := some .null, error := none }]

theorem routed_crossingReplies :
    crossingReplies.countP Move.isRegister < Int64.maxValue.toInt ∧
      Routed (ofOptions {}) crossingReplies :=
  ⟨by decide, routed_after {} crossingReplies (by decide)⟩

end LanguageClient.Client
