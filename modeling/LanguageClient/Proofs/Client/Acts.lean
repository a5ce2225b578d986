import LanguageClient.Client.Call
import LanguageClient.Proofs.Calls.Step

/-!
# Everything that is done to a client

An `Act` is one thing that a host or a server does to a client, and a client is `Reachable` if acts
lead to it from its beginning. Whatever the act, the table of calls takes a run of its steps
(`act_run`), so that the table of a reachable client is sound (`Reachable.sound`). What the server
and a stop do meanwhile consists of arrivals (`foldl_react_arrivals`).
-/

namespace LanguageClient

/-- The table changes by arrivals only. -/
def Calls.Arrivals (c d : Calls) : Prop := ∃ es : List Event, (∀ e ∈ es, e.IsArrival) ∧ Run c es d

namespace Calls.Arrivals

variable {c d f : Calls}

theorem refl (c : Calls) : Arrivals c c := ⟨[], fun _ h => absurd h List.not_mem_nil, .nil⟩

theorem of_step {e : Event} (he : e.IsArrival) (h : Step c e d) : Arrivals c d :=
  ⟨[e], by simpa using he, h.run⟩

theorem trans (h : Arrivals c d) (h' : Arrivals d f) : Arrivals c f := by
  obtain ⟨es, hes, hrun⟩ := h
  obtain ⟨es', hes', hrun'⟩ := h'
  exact ⟨es ++ es', by simpa [or_imp, forall_and] using ⟨hes, hes'⟩, hrun.append hrun'⟩

theorem complete (c : Calls) (r : Response) : Arrivals c (c.complete r).1 := by
  rcases c.complete_cases r with ⟨id, hr, hid, h⟩ | ⟨-, h⟩ <;> rw [h]
  · exact of_step (e := .reply r) trivial (.reply hr hid)
  · exact refl c

theorem close (c : Calls) (reason : Bytes) : Arrivals c (c.close reason).1 := by
  rcases c.close_cases reason with ⟨hp, h⟩ | ⟨-, h⟩ <;> rw [h]
  · exact of_step (e := .close reason) trivial (.close reason hp)
  · exact refl c

end Calls.Arrivals

namespace Client

open Calls (Arrivals Run Event)

variable {c : Client}

@[simp] theorem note_calls (c : Client) (e : Log.Entry) : (c.note e).calls = c.calls := rfl

/-! ### What reaches a client -/

theorem receiveResponse_calls (c : Client) (r : Response) :
    (c.receiveResponse r).calls = (c.calls.complete r).1 := by
  rcases c.calls.complete_cases r with ⟨id, -, -, h⟩ | ⟨-, h⟩ <;> simp only [receiveResponse, h] <;>
    rfl

theorem queue_calls (c : Client) (m : Message) : (c.queue m).calls = c.calls := by
  unfold queue
  dsimp only
  split <;> rfl

theorem endOutput_calls (c : Client) :
    c.endOutput.calls = (c.calls.close outputEndedReason).1 := by
  rcases c.calls.close_cases outputEndedReason with ⟨-, h⟩ | ⟨-, h⟩ <;> simp only [endOutput, h] <;>
    rfl

theorem receiveResponse_eq (c : Client) (r : Response) :
    c.receiveResponse r =
      { c with calls := (c.calls.complete r).1 }.note
        (if (c.calls.complete r).2 then .responseReceived r.id else .responseDiscarded r.id) := by
  rcases c.calls.complete_cases r with ⟨id, -, -, h⟩ | ⟨-, h⟩ <;> simp [receiveResponse, h]

theorem endOutput_eq (c : Client) :
    c.endOutput =
      if (c.calls.close outputEndedReason).2 then
        { c with calls := (c.calls.close outputEndedReason).1 }.note .outputEnded
      else c := by
  rcases c.calls.close_cases outputEndedReason with ⟨-, h⟩ | ⟨-, h⟩ <;> simp [endOutput, h]

theorem stop_calls (c : Client) (ended : Option ExitStatus) :
    (c.stop ended).calls = (c.calls.close stoppedReason).1 := by
  unfold stop
  dsimp only
  split <;> rfl

theorem react_arrivals (c : Client) (h : Happening) : Arrivals c.calls (c.react h).calls := by
  cases h with
  | message m =>
    cases m with
    | response r => exact receiveResponse_calls c r ▸ .complete ..
    | request r => exact queue_calls c (.request r) ▸ .refl _
    | notification n => exact queue_calls c (.notification n) ▸ .refl _
  | fault f => cases f <;> exact .refl _
  | outputEnded => exact endOutput_calls c ▸ .close ..
  | stop => exact stop_calls c none ▸ .close ..

theorem foldl_react_arrivals (c : Client) (hs : List Happening) :
    Arrivals c.calls (hs.foldl react c).calls := by
  induction hs generalizing c with
  | nil => exact .refl _
  | cons h hs ih => exact (react_arrivals c h).trans (ih _)

/-! ### What a host does -/

/-- Sending notes down at most its failure. -/
theorem handOver_calls (c : Client) (m : Message) (transport : Transport) :
    (c.handOver m transport).1.calls = ((transport m).during.foldl react c).calls := by
  unfold handOver
  dsimp only
  split
  · rfl
  · rfl
  · rfl
  · split <;> rfl

/-- Only a call whose request cannot be written is not taken back. -/
theorem withdraw_calls (c : Client) (method : Bytes) (id : Id) {failure : Failure}
    (h : failure ≠ .unwritable) : (c.withdraw method id failure).calls = (c.calls.remove id).1 := by
  cases failure with
  | unwritable => exact absurd rfl h
  | launch | notRunning | timeout | transport | protocol | abandoned => rfl

theorem conclude_eq (c : Client) (method : Bytes) (id : Int64) :
    c.conclude method id =
      match (c.calls.fetch id).2 with
      | .outcome o => ({ c with calls := (c.calls.fetch id).1 }, answer o)
      | .taken => (c, .error .abandoned)
      | .waiting =>
        ({ c with calls := (c.calls.remove (.int id)).1 }.note (.timedOut method (.int id)),
          .error (.timeout (.noReply method))) := by
  rcases c.calls.fetch_cases id with ⟨o, -, -, h⟩ | ⟨-, -, h⟩ | ⟨-, h⟩ <;> simp [conclude, h]

theorem conclude_of_outcome? {id : Int64} {o : Calls.Outcome} (ho : c.calls.outcome? id = some o)
    (hid : id ∉ c.calls.fetched) (method : Bytes) : (c.conclude method id).2 = answer o := by
  rcases c.calls.fetch_cases id with ⟨p, -, hp, h⟩ | ⟨-, hnone, -⟩ | ⟨hfetched, -⟩
  · cases ho.symm.trans hp
    simp only [conclude, h]
  · cases ho.symm.trans hnone
  · exact absurd hfetched hid

theorem remove_run (c : Calls) (id : Int64) : ∃ es, Run c es (c.remove (.int id)).1 := by
  rcases c.remove_cases id with ⟨hid, h⟩ | ⟨-, h⟩ <;> rw [h]
  · exact ⟨_, (Calls.Step.remove hid).run⟩
  · exact ⟨_, .nil⟩

theorem withdraw_run (c : Client) (method : Bytes) (id : Int64) (failure : Failure) :
    ∃ es, Run c.calls es (c.withdraw method (.int id) failure).calls := by
  by_cases h : failure = .unwritable
  · exact ⟨[], h ▸ .nil⟩
  · exact withdraw_calls c method (.int id) h ▸ remove_run c.calls id

/-- One thing that is done to a client. -/
inductive Act where
  | start (launched : Except LaunchError Unit) (piped : Except TransportError Unit)
  | connect (given : Bool)
  | stop (ended : Option ExitStatus)
  | meet (h : Happening)
  | issue (method : Bytes) (params : Json) (transport : Transport)
  | conclude (method : Bytes) (id : Int64)
  | notify (method : Bytes) (params : Json) (transport : Transport)
  /-- The host takes a message out of the inbox. -/
  | pop

def act (c : Client) : Act → Client
  | .start launched piped => (c.start launched piped).1
  | .connect given => (c.connect given).1
  | .stop ended => c.stop ended
  | .meet h => c.react h
  | .issue method params transport => (c.issue method params transport).1
  | .conclude method id => (c.conclude method id).1
  | .notify method params transport => (c.notify method params transport).1
  | .pop => { c with inbox := c.inbox.pop.1 }

/-- The client comes about by acts, and its ids have not run out. -/
inductive Reachable : Client → Prop where
  | ofOptions (options : Options) : Reachable (.ofOptions options)
  | act {c : Client} (a : Act) : Reachable c → c.calls.nextId < Int64.maxValue → Reachable (c.act a)

/-- A caller who gets an outcome is not told that the time is up. -/
theorem answer_ne_timeout (o : Calls.Outcome) (e : TimeoutError) :
    answer o ≠ .error (.timeout e) := by
  cases o with
  | removed | closed => exact nofun
  | reply r => cases hr : r.error <;> simp [answer, hr]

/-! ### Every act takes steps of the table -/

theorem begin_run (c : Calls) : ∃ es, Run c es c.begin.1 := by
  rcases c.begin_cases with ⟨hp, h⟩ | ⟨-, h⟩ <;> rw [h]
  · exact ⟨_, (Calls.Step.begin hp).run⟩
  · exact ⟨_, .nil⟩

theorem close_run (c : Calls) (reason : Bytes) : ∃ es, Run c es (c.close reason).1 :=
  let ⟨es, _, hrun⟩ := Arrivals.close c reason
  ⟨es, hrun⟩

theorem start_run (c : Client) (launched : Except LaunchError Unit)
    (piped : Except TransportError Unit) :
    ∃ es, Run c.calls es (c.start launched piped).1.calls := by
  unfold start
  split
  · exact ⟨_, .nil⟩
  · dsimp only
    split
    · exact close_run ..
    · split
      · exact close_run ..
      · exact begin_run ..

theorem connect_run (c : Client) (given : Bool) :
    ∃ es, Run c.calls es (c.connect given).1.calls := by
  unfold connect
  split
  · exact ⟨_, .nil⟩
  · split
    · exact ⟨_, .nil⟩
    · exact begin_run ..

theorem notify_run (c : Client) (method : Bytes) (params : Json) (transport : Transport) :
    ∃ es, Run c.calls es (c.notify method params transport).1.calls := by
  unfold notify
  split
  · have hsend := handOver_calls (c.note (.sendingNotification method))
      (.notification { method, params := some params }) transport
    obtain ⟨es, -, hrun⟩ := foldl_react_arrivals (c.note (.sendingNotification method))
      (transport (.notification { method, params := some params })).during
    refine ⟨es, ?_⟩
    dsimp only
    split <;> rename_i heq <;> rw [heq] at hsend <;> exact hsend ▸ hrun
  · exact ⟨_, .nil⟩

/-- The request that a call hands to the transport. -/
def requestFor (c : Client) (method : Bytes) (params : Json) : Message :=
  .request { id := .int c.calls.nextId, method, params := some params }

/-- The client when a call of it begins to send. -/
def awaiting (c : Client) (method : Bytes) : Client :=
  { c with calls := c.calls.issueNext }.note (.sendingRequest method (.int c.calls.nextId))

@[simp] theorem awaiting_calls (c : Client) (method : Bytes) :
    (c.awaiting method).calls = c.calls.issueNext := rfl

theorem issue_of_running (hr : c.phase = .running) (method : Bytes) (params : Json)
    (transport : Transport) :
    c.issue method params transport =
      match (c.awaiting method).handOver (c.requestFor method params) transport with
      | (d, none) => (d, .ok c.calls.nextId)
      | (d, some failure) =>
        (d.withdraw method (.int c.calls.nextId) failure, .error failure) := by
  unfold issue
  rw [Calls.register_of_running hr]
  rfl

theorem issue_of_not_running (hr : c.phase ≠ .running) (method : Bytes) (params : Json)
    (transport : Transport) :
    c.issue method params transport = (c, .error (.notRunning (.cannotSend c.phase method))) := by
  unfold issue
  rw [Calls.register_of_not_running hr]
  rfl

theorem issue_run (c : Client) (method : Bytes) (params : Json) (transport : Transport)
    (hn : c.calls.nextId < Int64.maxValue) :
    ∃ es, Run c.calls es (c.issue method params transport).1.calls := by
  by_cases hr : c.phase = .running
  · rw [issue_of_running hr]
    have hsend := handOver_calls (c.awaiting method) (c.requestFor method params) transport
    obtain ⟨es, -, hrun⟩ := foldl_react_arrivals (c.awaiting method)
      (transport (c.requestFor method params)).during
    split <;> rename_i d _ heq <;> rw [heq] at hsend <;> rw [← hsend] at hrun
    · exact ⟨_, .cons (.register hr hn) hrun⟩
    · obtain ⟨es', hrun'⟩ := withdraw_run d method c.calls.nextId ‹Failure›
      exact ⟨_, .cons (.register hr hn) (hrun.append hrun')⟩
  · exact ⟨[], issue_of_not_running hr method params transport ▸ .nil⟩

theorem conclude_run (c : Client) (method : Bytes) (id : Int64) :
    ∃ es, Run c.calls es (c.conclude method id).1.calls := by
  rcases c.calls.fetch_cases id with ⟨o, hid, ho, h⟩ | ⟨-, -, h⟩ | ⟨-, h⟩ <;>
    simp only [conclude, h]
  · exact ⟨_, (Calls.Step.fetch hid ho).run⟩
  · exact remove_run ..
  · exact ⟨_, .nil⟩

theorem act_run (c : Client) (a : Act) (hn : c.calls.nextId < Int64.maxValue) :
    ∃ es, Run c.calls es (c.act a).calls := by
  cases a with
  | start launched piped => exact start_run ..
  | connect given => exact connect_run ..
  | stop ended => exact stop_calls c ended ▸ close_run ..
  | meet h =>
    obtain ⟨es, -, hrun⟩ := react_arrivals c h
    exact ⟨es, hrun⟩
  | issue method params transport => exact issue_run _ _ _ _ hn
  | conclude method id => exact conclude_run ..
  | notify method params transport => exact notify_run ..
  | pop => exact ⟨_, .nil⟩

/-- In a reachable client every issued id is in one place. -/
theorem Reachable.sound (hc : Reachable c) : c.calls.Sound := by
  induction hc with
  | ofOptions options => exact .init
  | @act c a _ hn ih =>
    obtain ⟨es, hrun⟩ := act_run c a hn
    exact ih.run hrun

end Client

end LanguageClient
