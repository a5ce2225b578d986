import LanguageClient.Client.Scripted
import LanguageClient.Proofs.Client.Release
import LanguageClient.Proofs.Client.Routing

/-!
# Calls that are answered

A response that arrives while its call is pending ends the call, whatever arrives before and after it
(`called_reply`), and whatever else the host does meanwhile (`concluded_reply`). So a body that is
parsed as a response decides what its call returns (`answers_of_parse`).
-/

namespace LanguageClient

namespace Calls

variable {c d : Calls} {id : Int64}

/-- What arrives leaves a call alone that is not pending. -/
theorem Step.outcome?_of_not_mem {e : Event} (h : Step c e d) (he : e.IsArrival)
    (hid : id ∉ c.pending) : id ∉ d.pending ∧ d.outcome? id = c.outcome? id := by
  cases h with
  | begin | register | remove | fetch => exact he.elim
  | @reply r k _ hk =>
    have hne : id ≠ k := fun heq => hid (heq ▸ hk)
    refine ⟨fun hmem => hid (List.mem_of_mem_erase hmem), ?_⟩
    rw [outcome?_retire, if_neg hne]
  | close reason => exact ⟨List.not_mem_nil, by rw [outcome?_closed, if_neg hid]⟩

theorem Arrivals.outcome?_of_not_mem (h : Arrivals c d) (hid : id ∉ c.pending) :
    d.outcome? id = c.outcome? id := by
  obtain ⟨es, hes, hrun⟩ := h
  induction hrun with
  | nil => rfl
  | cons step _ ih =>
    obtain ⟨he, hes⟩ := List.forall_mem_cons.mp hes
    obtain ⟨hid', houtcome⟩ := step.outcome?_of_not_mem he hid
    rw [ih hid' hes, houtcome]

end Calls

namespace Client

variable {c : Client} {id : Int64} {r : Response}

/-- A body arrives. -/
abbrev arrival (raw : Bytes) : Happening := .ofDelivery (.ofOutcome (.body raw))

theorem arrival_of_parse {raw : Bytes} {m : Message} (h : Message.parse raw = .ok m) :
    arrival raw = .message m := by
  rw [arrival, Channel.Delivery.ofOutcome, h]
  rfl

/-- A call ends with the response that arrives while it is pending. -/
theorem called_reply (hc : c.calls.Sound) (hr : c.phase = .running) {method : Bytes}
    {params : Json} {transport : Transport} {later before rest : List Happening}
    (hsent : (transport (c.requestFor method params)).failure = none)
    (hcourse : (transport (c.requestFor method params)).during ++ later =
      before ++ .message (.response r) :: rest)
    (hid : r.id = .int c.calls.nextId)
    (hpending : c.calls.nextId ∈ (before.foldl react (c.awaiting method)).calls.pending) :
    (c.call method params transport later).2 = answer (.reply r) := by
  have hawaited := beforeReturn_awaited hc method params transport later
  have hcourse' : (transport (c.requestFor method params)).meantime later =
      before ++ .message (.response r) :: rest := by
    rw [← hcourse, Exchange.meantime, hsent]
    rfl
  rw [call_of_sent hr method params transport later hsent]
  rw [beforeReturn, hcourse', List.foldl_append, List.foldl_cons] at hawaited ⊢
  have hreply : (before.foldl react (c.awaiting method)).react (.message (.response r)) =
      (before.foldl react (c.awaiting method)).answered c.calls.nextId r :=
    move_reply hid hpending
  rw [hreply] at hawaited ⊢
  obtain ⟨es, hes, hrun⟩ := foldl_react_arrivals (c.awaiting method) before
  have hnodup := (hc.awaited.run hes hrun).nodup
  have houtcome := (foldl_react_arrivals ((before.foldl react (c.awaiting method)).answered
    c.calls.nextId r) rest).outcome?_of_not_mem hnodup.not_mem_erase
  rw [answered_calls, Calls.outcome?_retire, if_pos rfl] at houtcome
  rw [conclude_of_outcome? houtcome hawaited.unfetched]

theorem lasting_ofOptions (options : Options) {ms : List Move}
    (h : ms.countP Move.isRegister < Int64.maxValue.toInt) : Lasting (ofOptions options) ms := by
  have hone : (ofOptions options).calls.nextId.toInt = 1 := rfl
  rw [Lasting, hone]
  omega

/-- The same if the call is one of several whose moves come in any order. -/
theorem concluded_reply {options : Options} {before later : List Move}
    (hids : (before ++ .reply r :: later).countP Move.isRegister < Int64.maxValue.toInt)
    (hid : r.id = .int id) (hpending : id ∈ ((ofOptions options).after before).calls.pending)
    (hfetched : id ∉ ((ofOptions options).after (before ++ .reply r :: later)).calls.fetched)
    (method : Bytes) :
    (((ofOptions options).after (before ++ .reply r :: later)).conclude method id).2 =
      answer (.reply r) := by
  have houtcome := outcome?_of_reply .init (lasting_ofOptions options hids) hid hpending
  rw [conclude_of_outcome? houtcome hfetched]

/-- A call that the body `raw` of the response `r` answers returns `result`. -/
structure Answers (raw : Bytes) (r : Response) (result : Except Failure Json) : Prop where
  /-- It does so if the body arrives while the call is pending, -/
  call : ∀ (c : Client) (method : Bytes) (params : Json) (transport : Transport)
    (later before rest : List Happening), Reachable c → c.phase = .running →
      (transport (c.requestFor method params)).failure = none →
      (transport (c.requestFor method params)).during ++ later = before ++ arrival raw :: rest →
      r.id = .int c.calls.nextId →
      c.calls.nextId ∈ (before.foldl react (c.awaiting method)).calls.pending →
      (c.call method params transport later).2 = result
  /-- whatever else the host does meanwhile, other calls included. -/
  conclude : ∀ (options : Options) (before later : List Move) (method : Bytes) (id : Int64),
    (before ++ .meet (arrival raw) :: later).countP Move.isRegister < Int64.maxValue.toInt →
      r.id = .int id → id ∈ ((ofOptions options).after before).calls.pending →
      id ∉ ((ofOptions options).after (before ++ .meet (arrival raw) :: later)).calls.fetched →
      (((ofOptions options).after (before ++ .meet (arrival raw) :: later)).conclude method id).2 =
        result

theorem answers_of_parse {raw : Bytes} (hr : Message.parse raw = .ok (.response r)) :
    Answers raw r (answer (.reply r)) := by
  have harrival := arrival_of_parse hr
  refine ⟨?_, ?_⟩
  · intro c method params transport later before rest hc hrun hsent hcourse hid hpending
    rw [harrival] at hcourse
    exact called_reply hc.sound hrun hsent hcourse hid hpending
  · intro options before later method id hids hid hpending hfetched
    rw [harrival] at hids hfetched ⊢
    exact concluded_reply hids hid hpending hfetched method

end Client

end LanguageClient
