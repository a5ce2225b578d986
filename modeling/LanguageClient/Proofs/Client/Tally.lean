import LanguageClient.Proofs.Calls.Accounting
import LanguageClient.Proofs.Client.Routing
import LanguageClient.Proofs.Inbox
import Mathlib.Data.List.Basic

/-!
# What reaches a client is counted once

A response completes a call or is discarded, and everything else that a server sends goes through
the inbox: in the order in which they arrive, these messages are taken by the host, or lost, or wait
(`fates_fst`). The log has the lines that follow from that and no others of their kind
(`arrivals_after`), so that its lines, the inbox, its count of losses and the table of calls agree
(`tallied_after`).
-/

namespace LanguageClient

/-- The line about a fault. -/
def Log.Entry.ofFault : ReadFault → Log.Entry
  | .frame f => .frameDiscarded f
  | .transport e => .transportFailed e

/-- The fault that a line tells of. -/
def Log.Entry.fault? : Log.Entry → Option ReadFault
  | .frameDiscarded f => some (.frame f)
  | .transportFailed e => some (.transport e)
  | _ => none

theorem Log.Entry.fault?_ofFault (f : ReadFault) : (ofFault f).fault? = some f := by cases f <;> rfl

theorem Log.Entry.level_ofFault (f : ReadFault) : (ofFault f).level = .warn := by cases f <;> rfl

theorem Log.Entry.isArrival_of_isOf {kind : Log.Arrival} {e : Log.Entry}
    (h : e.isOf kind = true) : e.isArrival = true := by
  rw [isArrival, of_decide_eq_true h]
  rfl

theorem Log.Entry.isArrival_of_fault? (e : Log.Entry) (h : e.isArrival = false) :
    e.fault? = none := by
  cases e <;> first | rfl | cases h

namespace Calls

variable {c d : Calls} {e : Event}

/-- How many calls were completed by a response. -/
def replies (c : Calls) : Nat := c.settled.countP (·.2.isReply)

theorem replies_retire (c : Calls) (id : Int64) (o : Outcome) :
    (c.retire id o).replies = c.replies + if o.isReply then 1 else 0 :=
  List.countP_cons

theorem replies_closed (c : Calls) (reason : Bytes) : (c.closed reason).replies = c.replies := by
  have hnone : (c.pending.map fun id => (id, Outcome.closed reason)).reverse.countP
      (·.2.isReply) = 0 := by
    simp [List.countP_eq_zero, Outcome.isReply]
  rw [replies, closed, List.countP_append, hnone, Nat.zero_add, replies]

theorem complete_verdict (c : Calls) (r : Response) : (c.complete r).2 = c.waitsFor r.id := by
  rcases c.complete_cases r with ⟨id, hr, hid, h⟩ | ⟨hw, h⟩ <;> rw [h]
  · simp [waitsFor, hr, hid]
  · exact hw.symm

theorem replies_complete (c : Calls) (r : Response) :
    (c.complete r).1.replies = c.replies + if c.waitsFor r.id then 1 else 0 := by
  rcases c.complete_cases r with ⟨id, hr, hid, h⟩ | ⟨hw, h⟩ <;> rw [h]
  · rw [replies_retire]
    simp [waitsFor, hr, hid, Outcome.isReply]
  · simp [hw]

/-- Only a reply completes a call. -/
theorem Step.replies (h : Step c e d) (he : ∀ r, e ≠ .reply r) : d.replies = c.replies := by
  cases h with
  | reply => exact absurd rfl (he _)
  | begin | register | fetch => rfl
  | remove => exact replies_retire ..
  | close reason => exact replies_closed c reason

end Calls

namespace Client

variable {c : Client} {m : Move} {ms : List Move}

namespace Move

/-- The message that the server sends on its own account, if the move is that it arrives. -/
def unsolicited? : Move → Option Message
  | .meet (.message (.request q)) => some (.request q)
  | .meet (.message (.notification n)) => some (.notification n)
  | _ => none

def response? : Move → Option Response
  | .meet (.message (.response r)) => some r
  | _ => none

def fault? : Move → Option ReadFault
  | .meet (.fault f) => some f
  | _ => none

theorem unsolicited?_ne_response {x : Message} (h : m.unsolicited? = some x) (r : Response) :
    x ≠ .response r := by
  unfold unsolicited? at h
  split at h <;> cases h <;> exact nofun

end Move

/-- What the moves give, each for the client as it finds it. -/
def along {α : Type} (f : Client → Move → List α) (c : Client) : List Move → List α
  | [] => []
  | m :: ms => f c m ++ (c.move m).along f ms

theorem receiveFault_eq (c : Client) (f : ReadFault) : c.receiveFault f = c.note (.ofFault f) := by
  cases f <;> rfl

/-! ### Moves that are no arrivals -/

/-- Nothing arrives, the host takes nothing out of the inbox and writes nothing into the log. -/
def Move.isAside : Move → Bool
  | .meet (.message _) | .meet (.fault _) | .pop | .note _ => false
  | .meet .outputEnded | .meet .stop | .start .. | .connect _ | .stop _ | .register _
  | .withdraw .. | .conclude .. => true

theorem start_aside (c : Client) (launched : Except LaunchError Unit)
    (piped : Except TransportError Unit) :
    (c.start launched piped).1.inbox = c.inbox ∧
      (c.start launched piped).1.arrivals = c.arrivals := by
  rcases start_cases c launched piped with h | ⟨_, _, lines, h, -, hlines⟩ <;> rw [h]
  · exact ⟨rfl, rfl⟩
  · refine ⟨rfl, ?_⟩
    rw [arrivals, List.filter_append, hlines, List.append_nil, arrivals]

theorem stop_aside (c : Client) (ended : Option ExitStatus) :
    (c.stop ended).inbox = c.inbox ∧ (c.stop ended).arrivals = c.arrivals := by
  rcases stop_cases c ended with ⟨-, h⟩ | ⟨-, _, h⟩ <;> rw [h]
  · exact ⟨rfl, rfl⟩
  · exact ⟨rfl, note_arrivals _ rfl⟩

theorem move_aside (c : Client) (h : m.isAside = true) :
    (c.move m).inbox = c.inbox ∧ (c.move m).arrivals = c.arrivals := by
  have table (h : TableOnly c (c.move m)) :
      (c.move m).inbox = c.inbox ∧ (c.move m).arrivals = c.arrivals := ⟨h.inbox, h.arrivals⟩
  cases m with
  | start launched piped => exact start_aside c launched piped
  | connect given => exact table (connect_tableOnly c given)
  | stop ended => exact stop_aside c ended
  | meet x =>
    cases x with
    | message | fault => cases h
    | outputEnded => exact table (endOutput_tableOnly c)
    | stop => exact stop_aside c none
  | pop | note => cases h
  | register method => exact table (register_tableOnly c method)
  | withdraw method id failure => exact table (withdraw_tableOnly c method (.int id) failure)
  | conclude method id => exact table (conclude_tableOnly c method id)

/-! ### The inbox -/

/-- What the host gets out of the inbox. -/
def taken (c : Client) : Move → List Message
  | .pop => c.inbox.pop.2.toList
  | _ => []

/-- What is lost for a message that arrives. -/
def lost (c : Client) (m : Move) : List Message :=
  match m.unsolicited? with
  | some _ => c.inbox.displaced?.toList
  | none => []

theorem queue_inbox (c : Client) (x : Message) : (c.queue x).inbox = (c.inbox.push x).1 := by
  unfold queue
  dsimp only [note]
  split <;> rename_i heq <;> rw [heq]

/-- The host takes messages out, messages that are no responses go in, and nothing else touches the
inbox. -/
theorem move_inbox (c : Client) (m : Move) :
    (m = .pop ∧ (c.move m).inbox = c.inbox.pop.1) ∨
      (∃ x, m.unsolicited? = some x ∧ (c.move m).inbox = (c.inbox.push x).1) ∨
      (m ≠ .pop ∧ m.unsolicited? = none ∧ (c.move m).inbox = c.inbox) := by
  cases m with
  | pop => exact .inl ⟨rfl, rfl⟩
  | meet x =>
    cases x with
    | message x =>
      cases x with
      | response r =>
        rw [move, react, receive, receiveResponse_eq]
        exact .inr (.inr ⟨by rintro ⟨⟩, rfl, rfl⟩)
      | request q => exact .inr (.inl ⟨_, rfl, queue_inbox c (.request q)⟩)
      | notification n => exact .inr (.inl ⟨_, rfl, queue_inbox c (.notification n)⟩)
    | fault f =>
      rw [move, react, receiveFault_eq]
      exact .inr (.inr ⟨by rintro ⟨⟩, rfl, rfl⟩)
    | outputEnded | stop => exact .inr (.inr ⟨by rintro ⟨⟩, rfl, (c.move_aside rfl).1⟩)
  | note e => exact .inr (.inr ⟨by rintro ⟨⟩, rfl, rfl⟩)
  | start | connect | stop | register | withdraw | conclude =>
    exact .inr (.inr ⟨by rintro ⟨⟩, rfl, (c.move_aside rfl).1⟩)

/-- What leaves the inbox and what stays is what there was, and what arrives behind it. -/
theorem move_items (c : Client) (m : Move) :
    c.taken m ++ c.lost m ++ (c.move m).inbox.items = c.inbox.items ++ m.unsolicited?.toList := by
  rcases c.move_inbox m with ⟨rfl, h⟩ | ⟨x, hx, h⟩ | ⟨hpop, hx, h⟩
  · rw [h]
    simpa [taken, lost, Move.unsolicited?] using c.inbox.pop_items
  · have htaken : c.taken m = [] := by
      unfold taken
      split
      · cases hx
      · rfl
    rw [h, htaken, lost, hx]
    exact c.inbox.push_items x
  · have htaken : c.taken m = [] := by
      unfold taken
      split
      · exact absurd rfl hpop
      · rfl
    simp [h, htaken, lost, hx]

theorem move_capacity (c : Client) (m : Move) : (c.move m).inbox.capacity = c.inbox.capacity := by
  rcases c.move_inbox m with ⟨-, h⟩ | ⟨x, -, h⟩ | ⟨-, -, h⟩ <;> rw [h]
  · rfl
  · exact c.inbox.push_capacity x

theorem move_dropped (hc : 0 < c.inbox.capacity) (m : Move) :
    (c.move m).inbox.dropped = c.inbox.dropped + (c.lost m).length := by
  rcases c.move_inbox m with ⟨rfl, h⟩ | ⟨x, hx, h⟩ | ⟨-, hx, h⟩
  · rw [h]
    rfl
  · rw [h, lost, hx]
    exact Inbox.push_dropped hc x
  · simp [h, lost, hx]

/-- What becomes of a message that goes into the inbox. -/
inductive Fate where
  | taken
  | lost
  | waiting
  deriving DecidableEq

/-- What leaves the inbox. -/
def leaving (c : Client) (m : Move) : List (Message × Fate) :=
  (c.taken m).map (·, .taken) ++ (c.lost m).map (·, .lost)

/-- What has become of the messages that went into the inbox, in the order in which they are out
of it. -/
def fates (c : Client) (ms : List Move) : List (Message × Fate) :=
  c.along leaving ms ++ (c.after ms).inbox.items.map (·, .waiting)

theorem fates_cons (c : Client) (m : Move) (ms : List Move) :
    c.fates (m :: ms) = c.leaving m ++ (c.move m).fates ms :=
  List.append_assoc ..

/-- The messages have their fates in the order in which they arrive. -/
theorem fates_fst (c : Client) (ms : List Move) :
    (c.fates ms).map Prod.fst = c.inbox.items ++ ms.filterMap Move.unsolicited? := by
  induction ms generalizing c with
  | nil => simp [fates, along, Function.comp_def]
  | cons m ms ih =>
    have hstep := c.move_items m
    have hleaving : (c.leaving m).map Prod.fst = c.taken m ++ c.lost m := by
      simp [leaving, Function.comp_def]
    rw [fates_cons, List.map_append, ih, hleaving, ← List.append_assoc, hstep,
      List.append_assoc, List.filterMap_cons]
    cases m.unsolicited? <;> rfl

theorem fates_kept (c : Client) (ms : List Move) :
    ((c.fates ms).filter (·.2 != .lost)).map Prod.fst =
      c.along taken ms ++ (c.after ms).inbox.items := by
  have hkeep (xs : List Message) (fate : Fate) :
      ((xs.map (·, fate)).filter (·.2 != .lost)).map Prod.fst =
        if fate = .lost then [] else xs := by
    cases fate <;> simp [List.filter_map, Function.comp_def]
  induction ms generalizing c with
  | nil => exact hkeep _ .waiting
  | cons m ms ih =>
    rw [fates_cons, leaving, List.filter_append, List.filter_append, List.map_append,
      List.map_append, hkeep, hkeep, ih]
    simp [along]

theorem fates_lost (hc : 0 < c.inbox.capacity) (ms : List Move) :
    (c.after ms).inbox.dropped = c.inbox.dropped + (c.fates ms).countP (·.2 == .lost) := by
  induction ms generalizing c with
  | nil => simp [fates, along, List.countP_map, Function.comp_def]
  | cons m ms ih =>
    have hlost : (c.leaving m).countP (·.2 == .lost) = (c.lost m).length := by
      simp [leaving, List.countP_map, Function.comp_def]
    rw [after_cons, ih (c.move_capacity m ▸ hc), move_dropped hc, fates_cons, List.countP_append,
      hlost, Nat.add_assoc]

/-! ### The log -/

/-- The lines about what arrives in a move. -/
def arrivalLines (c : Client) : Move → List Log.Entry
  | .meet (.message (.response r)) =>
    [if c.calls.waitsFor r.id then .responseReceived r.id else .responseDiscarded r.id]
  | .meet (.message x) =>
    .messageReceived x.method :: if c.inbox.isFull then [.inboxFull c.inbox.capacity] else []
  | .meet (.fault f) => [.ofFault f]
  | _ => []

theorem note_arrival (c : Client) {e : Log.Entry} (h : e.isArrival = true) :
    (c.note e).arrivals = c.arrivals ++ [e] := by
  simp [arrivals, note, List.filter_append, h]

theorem queue_arrivals (c : Client) (x : Message) :
    (c.queue x).arrivals =
      c.arrivals ++ .messageReceived x.method ::
        if c.inbox.isFull then [.inboxFull c.inbox.capacity] else [] := by
  by_cases hfull : c.inbox.isFull = true <;>
    simp [queue, arrivals, note, Inbox.push, hfull, Log.Entry.isArrival, Log.Entry.arrival?,
      List.filter_append]

theorem move_arrivals (c : Client) (hm : ∀ e, m = .note e → e.isArrival = false) :
    (c.move m).arrivals = c.arrivals ++ c.arrivalLines m := by
  cases m with
  | meet x =>
    cases x with
    | message x =>
      cases x with
      | response r =>
        rw [move, react, receive, receiveResponse_eq, arrivalLines, Calls.complete_verdict]
        refine note_arrival { c with calls := (c.calls.complete r).1 } ?_
        split <;> rfl
      | request q => exact queue_arrivals c (.request q)
      | notification n => exact queue_arrivals c (.notification n)
    | fault f =>
      rw [move, react, receiveFault_eq]
      exact note_arrival c (by cases f <;> rfl)
    | outputEnded | stop => exact (c.move_aside rfl).2.trans (List.append_nil _).symm
  | pop => exact (List.append_nil _).symm
  | note e => exact (note_arrivals c (hm e rfl)).trans (List.append_nil _).symm
  | start | connect | stop | register | withdraw | conclude =>
    exact (c.move_aside rfl).2.trans (List.append_nil _).symm

theorem arrivals_after (h : Quiet ms) :
    (c.after ms).arrivals = c.arrivals ++ c.along arrivalLines ms := by
  induction ms generalizing c with
  | nil => exact (List.append_nil _).symm
  | cons m ms ih =>
    have hm : ∀ e, m = .note e → e.isArrival = false := fun e he => h e (he ▸ List.mem_cons_self)
    rw [after_cons, ih fun e he => h e (List.mem_cons_of_mem _ he), move_arrivals c hm,
      List.append_assoc]
    rfl

/-- The lines of one kind in the log are among those about arrivals. -/
theorem countP_arrivals (c : Client) (kind : Log.Arrival) :
    c.log.countP (Log.Entry.isOf kind) = c.arrivals.countP (Log.Entry.isOf kind) := by
  rw [arrivals, List.countP_filter]
  exact List.countP_congr fun e _ => by simpa using Log.Entry.isArrival_of_isOf

/-! ### The counts agree -/

theorem arrivalLines_cases (c : Client) (m : Move) :
    (∃ r, m = .reply r ∧ c.arrivalLines m =
        [if c.calls.waitsFor r.id then .responseReceived r.id else .responseDiscarded r.id]) ∨
      (∃ x, m.unsolicited? = some x ∧ m.response? = none ∧ m.fault? = none ∧
        c.arrivalLines m = .messageReceived x.method ::
          if c.inbox.isFull then [.inboxFull c.inbox.capacity] else []) ∨
      (∃ f, m = .meet (.fault f) ∧ c.arrivalLines m = [.ofFault f]) ∨
      (m.unsolicited? = none ∧ m.response? = none ∧ m.fault? = none ∧ c.arrivalLines m = []) := by
  cases m with
  | meet x =>
    cases x with
    | message x =>
      cases x with
      | response r => exact .inl ⟨r, rfl, rfl⟩
      | request | notification => exact .inr (.inl ⟨_, rfl, rfl, rfl, rfl⟩)
    | fault f => exact .inr (.inr (.inl ⟨f, rfl, rfl⟩))
    | outputEnded | stop => exact .inr (.inr (.inr ⟨rfl, rfl, rfl, rfl⟩))
  | start | connect | stop | pop | note | register | withdraw | conclude =>
    exact .inr (.inr (.inr ⟨rfl, rfl, rfl, rfl⟩))

theorem arrivalLines_fault? (c : Client) (m : Move) :
    (c.arrivalLines m).filterMap Log.Entry.fault? = m.fault?.toList := by
  rcases c.arrivalLines_cases m with ⟨r, rfl, h⟩ | ⟨x, -, -, hf, h⟩ | ⟨f, rfl, h⟩ | ⟨-, -, hf, h⟩
  · rw [h]
    split <;> rfl
  · rw [h, hf]
    split <;> rfl
  · rw [h, List.filterMap_cons, Log.Entry.fault?_ofFault]
    rfl
  · rw [h, hf]
    rfl

theorem arrivalLines_inboxFull (hc : 0 < c.inbox.capacity) (m : Move) :
    (c.arrivalLines m).countP (Log.Entry.isOf .overflow) = (c.lost m).length := by
  have hsome := Inbox.displaced?_isSome hc
  rcases c.arrivalLines_cases m with ⟨r, rfl, h⟩ | ⟨x, hx, -, -, h⟩ | ⟨f, rfl, h⟩ | ⟨hx, -, -, h⟩
  · rw [h]
    split <;> rfl
  · rw [h, lost, hx]
    cases hd : c.inbox.displaced? <;> rw [hd] at hsome <;> rw [← hsome] <;> rfl
  · rw [h]
    cases f <;> rfl
  · rw [h, lost, hx]
    rfl

/-- A response has one line of two, a completion or an orphan. -/
theorem arrivalLines_response (c : Client) (m : Move) :
    (c.arrivalLines m).countP (Log.Entry.isOf .completion) +
      (c.arrivalLines m).countP (Log.Entry.isOf .orphan) = m.response?.toList.length := by
  rcases c.arrivalLines_cases m with ⟨r, rfl, h⟩ | ⟨x, -, hr, -, h⟩ | ⟨f, rfl, h⟩ | ⟨-, hr, -, h⟩
  · rw [h]
    split <;> rfl
  · rw [h, hr]
    split <;> rfl
  · rw [h]
    cases f <;> rfl
  · rw [h, hr]
    rfl

theorem move_replies (c : Client) (m : Move) :
    (c.move m).calls.replies =
      c.calls.replies + (c.arrivalLines m).countP (Log.Entry.isOf .completion) := by
  cases hr : m.response? with
  | some r =>
    obtain rfl : m = .reply r := by
      unfold Move.response? at hr
      split at hr <;> cases hr
      rfl
    rw [move, react, receive, receiveResponse_calls, Calls.replies_complete, arrivalLines]
    split <;> rfl
  | none =>
    have hlines := c.arrivalLines_response m
    rw [hr, Option.toList_none, List.length_nil, Nat.add_eq_zero_iff] at hlines
    rw [hlines.1, Nat.add_zero]
    rcases move_does_or_register c m with (heq | ⟨e, hstep, hm⟩) | ⟨method, rfl⟩
    · rw [heq]
    · refine hstep.replies fun r he => ?_
      subst he
      rw [show m = .reply r from hm] at hr
      cases hr
    · by_cases hrun : c.phase = .running
      · rw [move, register_of_running hrun]
        rfl
      · rw [move, register_of_not_running hrun]

theorem replies_after (c : Client) (ms : List Move) :
    (c.after ms).calls.replies =
      c.calls.replies + (c.along arrivalLines ms).countP (Log.Entry.isOf .completion) := by
  induction ms generalizing c with
  | nil => rfl
  | cons m ms ih => rw [after_cons, ih, move_replies, along, List.countP_append, Nat.add_assoc]

theorem dropped_after (hc : 0 < c.inbox.capacity) (ms : List Move) :
    (c.after ms).inbox.dropped =
      c.inbox.dropped + (c.along arrivalLines ms).countP (Log.Entry.isOf .overflow) := by
  induction ms generalizing c with
  | nil => rfl
  | cons m ms ih =>
    rw [after_cons, ih (c.move_capacity m ▸ hc), move_dropped hc, ← arrivalLines_inboxFull hc,
      along, List.countP_append, Nat.add_assoc]

theorem faults_along (c : Client) (ms : List Move) :
    (c.along arrivalLines ms).filterMap Log.Entry.fault? = ms.filterMap Move.fault? := by
  induction ms generalizing c with
  | nil => rfl
  | cons m ms ih =>
    rw [along, List.filterMap_append, arrivalLines_fault?, ih, List.filterMap_cons]
    cases m.fault? <;> rfl

theorem responses_along (c : Client) (ms : List Move) :
    (c.along arrivalLines ms).countP (Log.Entry.isOf .completion) +
      (c.along arrivalLines ms).countP (Log.Entry.isOf .orphan) =
        (ms.filterMap Move.response?).length := by
  induction ms generalizing c with
  | nil => rfl
  | cons m ms ih =>
    have hm := c.arrivalLines_response m
    have hms := ih (c.move m)
    rw [along, List.countP_append, List.countP_append]
    cases hr : m.response? with
    | none =>
      rw [hr, Option.toList_none, List.length_nil] at hm
      rw [List.filterMap_cons_none hr]
      omega
    | some r =>
      rw [hr, Option.toList_some, List.length_singleton] at hm
      rw [List.filterMap_cons_some hr, List.length_cons]
      omega

/-- What the moves `ms` have led to agrees with what arrived in them. -/
structure Tallied (c : Client) (ms : List Move) : Prop where
  /-- The messages that the server sent on its own account have one fate each, in their order; -/
  fates : (c.fates ms).map Prod.fst = ms.filterMap Move.unsolicited?
  /-- those that the host has taken and those that wait are all but the lost ones; -/
  kept : c.along taken ms ++ (c.after ms).inbox.items =
    ((c.fates ms).filter (·.2 != .lost)).map Prod.fst
  /-- and the losses are counted, with a warning for each. -/
  dropped : (c.after ms).inbox.dropped = (c.fates ms).countP (·.2 == .lost)
  warned : (c.after ms).inbox.dropped = (c.after ms).log.countP (Log.Entry.isOf .overflow) ∧
    ∀ capacity, (Log.Entry.inboxFull capacity).level = .warn
  /-- No response is in the inbox, and nothing but a response touches the table. -/
  noResponse : ∀ x ∈ (c.after ms).inbox.items, ∀ r, x ≠ .response r
  untouched : ∀ x, (∀ r, x ≠ .response r) → ((c.after ms).receive x).calls = (c.after ms).calls
  /-- A response completes the call that waits for it, or is noted down as one that no call waits
  for, and nothing else happens. -/
  response : ∀ r,
    (∃ id, r.id = .int id ∧ id ∈ (c.after ms).calls.pending ∧
        (c.after ms).receive (.response r) = (c.after ms).answered id r) ∨
      ((c.after ms).calls.waitsFor r.id = false ∧
        (c.after ms).receive (.response r) = (c.after ms).note (.responseDiscarded r.id) ∧
        (Log.Entry.responseDiscarded r.id).level = .debug)
  /-- Altogether there are as many completions and lines about orphans as responses. -/
  responses : (c.after ms).calls.replies + (c.after ms).log.countP (Log.Entry.isOf .orphan) =
    (ms.filterMap Move.response?).length
  completions : (c.after ms).log.countP (Log.Entry.isOf .completion) = (c.after ms).calls.replies
  /-- A fault is a warning and nothing else, and the log has them all in their order. -/
  fault : ∀ f, (c.after ms).receiveFault f = (c.after ms).note (.ofFault f) ∧
    (Log.Entry.ofFault f).level = .warn
  faults : (c.after ms).log.filterMap Log.Entry.fault? = ms.filterMap Move.fault?
  /-- These are all the lines about what arrives. -/
  lines : (c.after ms).arrivals = c.along arrivalLines ms

theorem filterMap_arrivals (c : Client) :
    c.arrivals.filterMap Log.Entry.fault? = c.log.filterMap Log.Entry.fault? := by
  rw [arrivals, List.filterMap_filter]
  refine List.filterMap_congr fun e _ => ?_
  cases he : e.isArrival with
  | true => rfl
  | false => exact (e.isArrival_of_fault? he).symm

theorem receive_response (c : Client) (r : Response) :
    (∃ id, r.id = .int id ∧ id ∈ c.calls.pending ∧ c.receive (.response r) = c.answered id r) ∨
      (c.calls.waitsFor r.id = false ∧
        c.receive (.response r) = c.note (.responseDiscarded r.id) ∧
        (Log.Entry.responseDiscarded r.id).level = .debug) := by
  rcases c.calls.complete_cases r with ⟨id, hr, hid, -⟩ | ⟨hw, h⟩
  · exact .inl ⟨id, hr, hid, move_reply hr hid⟩
  · refine .inr ⟨hw, ?_, rfl⟩
    rw [receive, receiveResponse, h]

/-- What arrives is routed and counted once, whatever else is done to a client. -/
theorem tallied_after (options : Options) (ms : List Move) (h : Quiet ms) :
    Tallied (ofOptions options) ms := by
  have hpos : 0 < (ofOptions options).inbox.capacity :=
    Nat.lt_of_lt_of_le Nat.one_pos (Nat.le_max_left ..)
  have hlines : ((ofOptions options).after ms).arrivals =
      (ofOptions options).along arrivalLines ms := arrivals_after h
  have hcount (kind : Log.Arrival) :
      ((ofOptions options).after ms).log.countP (Log.Entry.isOf kind) =
        ((ofOptions options).along arrivalLines ms).countP (Log.Entry.isOf kind) := by
    rw [countP_arrivals, hlines]
  have hreplies := replies_after (ofOptions options) ms
  have hdropped := dropped_after hpos ms
  have hfates : ((ofOptions options).fates ms).map Prod.fst = ms.filterMap Move.unsolicited? :=
    fates_fst ..
  rw [show (ofOptions options).calls.replies = 0 from rfl, Nat.zero_add] at hreplies
  rw [show (ofOptions options).inbox.dropped = 0 from rfl, Nat.zero_add] at hdropped
  exact {
    fates := hfates
    kept := (fates_kept ..).symm
    dropped := (fates_lost hpos ms).trans (Nat.zero_add _)
    warned := ⟨by rw [hdropped, hcount], fun _ => rfl⟩
    noResponse := by
      intro x hx
      have hfate : x ∈ ((ofOptions options).fates ms).map Prod.fst := by
        rw [fates, List.map_append, List.map_map]
        exact List.mem_append_right _ (by simpa [Function.comp_def] using hx)
      rw [hfates] at hfate
      obtain ⟨m, -, hm⟩ := List.mem_filterMap.mp hfate
      exact Move.unsolicited?_ne_response hm
    untouched := fun x hx => receive_calls fun r hr => absurd hr (hx r)
    response := receive_response _
    responses := by
      rw [hreplies, hcount, responses_along]
    completions := by rw [hreplies, hcount]
    fault := fun f => ⟨receiveFault_eq _ f, Log.Entry.level_ofFault f⟩
    faults := by rw [← filterMap_arrivals, hlines, faults_along]
    lines := hlines }

/-- Into an inbox for one message come two, of which the host can take the second; a response answers
a call, and a second one finds no call. -/
def crowdedInbox : List Move :=
  [.connect true, .register (bytes "a"),
    .meet (.message (.notification { method := bytes "b", params := none })),
    .note (.sendingNotification (bytes "c")),
    .meet (.message (.request { id := .int 1, method := bytes "a", params := none })),
    .meet (.fault (.frame (.header .noLength))),
    .reply { id := .int 1, result := some .null, error := none },
    .pop,
    .reply { id := .int 1, result := some .null, error := none }]

theorem tallied_crowdedInbox :
    Quiet crowdedInbox ∧ Tallied (ofOptions { capacity := 1 }) crowdedInbox := by
  have hquiet : Quiet crowdedInbox := by
    intro e he
    simp only [crowdedInbox, List.mem_cons, reduceCtorEq, Move.note.injEq, List.not_mem_nil,
      or_false, false_or] at he
    rw [he]
    rfl
  exact ⟨hquiet, tallied_after { capacity := 1 } crowdedInbox hquiet⟩

end Client

end LanguageClient
