import LanguageClient.Client.Piped
import LanguageClient.Proofs.Client.Acts
import LanguageClient.Proofs.Message.Members

/-!
# What a call leaves behind

A call registers an id, and when it ends its id should have left the table (`Released`) and its
failure should be one of those that callers know of (`Documented`). `call_released_iff` says
when this is so: whatever the transport and the server do, unless the request could not be written
at all. Such a request stays in the table (`call_unwritable_stays`).
-/

namespace LanguageClient

/-- The caller of `id` has left the table, and nothing else about it has changed. -/
structure Calls.Released (c d : Calls) (id : Int64) : Prop where
  pending : d.pending = c.pending.erase id
  gone : id ∉ d.pending
  others : ∀ other, other ≠ id → d.outcome? other = c.outcome? other

/-- The failures that a caller of `call` is told of. -/
def Failure.IsDocumented : Failure → Prop
  | .notRunning _ | .timeout _ | .transport _ | .protocol _ => True
  | .launch _ | .unwritable | .abandoned => False

namespace Calls

variable {c : Calls} {id : Int64}

theorem remove_released (hc : c.pending.Nodup) (id : Int64) :
    Released c (c.remove (.int id)).1 id := by
  rcases c.remove_cases id with ⟨-, h⟩ | ⟨hid, h⟩ <;> rw [h]
  · exact ⟨rfl, hc.not_mem_erase, fun other hne => by rw [outcome?_retire, if_neg hne]⟩
  · exact ⟨(List.erase_of_not_mem hid).symm, hid, fun _ _ => rfl⟩

end Calls

namespace Client

open Calls (Released Awaited Arrivals)

variable {c : Client}

/-- A call ends with a value or with a failure that its caller is told of. -/
def Documented (result : Except Failure Json) : Prop := ∀ f, result = .error f → f.IsDocumented

theorem answer_documented {o : Calls.Outcome} (h : o.IsGiven) : Documented (answer o) := by
  cases o with
  | removed => exact h.elim
  | closed reason => exact fun f hf => by cases hf; trivial
  | reply r =>
    intro f hf
    unfold answer at hf
    cases hr : r.error <;> simp only [hr] at hf <;> cases hf
    trivial

/-- A caller who asks for the outcome of an awaited id gets it, or gives the id up. -/
theorem conclude_released {id : Int64} (hc : Awaited c.calls id) (method : Bytes) :
    Released c.calls (c.conclude method id).1.calls id ∧ Documented (c.conclude method id).2 := by
  rcases c.calls.fetch_cases id with ⟨o, -, ho, h⟩ | ⟨-, ho, h⟩ | ⟨hid, -⟩
  · simp only [conclude, h]
    rcases hc.state with ⟨-, hnone⟩ | ⟨hid, o', ho', hgiven⟩
    · exact absurd (ho.symm.trans hnone) (Option.some_ne_none o)
    · obtain rfl : o' = o := Option.some.inj (ho'.symm.trans ho)
      exact ⟨⟨(List.erase_of_not_mem hid).symm, hid, fun _ _ => rfl⟩, answer_documented hgiven⟩
  · simp only [conclude, h]
    exact ⟨Calls.remove_released hc.nodup id, fun f hf => by cases hf; trivial⟩
  · exact absurd hid hc.unfetched

/-! ### The course of a call -/

/-- What happens to the client from the registration of a call to the moment at which its caller
comes back, which is at once if sending fails. -/
def Exchange.meantime (x : Exchange) (later : List Happening) : List Happening :=
  x.during ++ if x.failure.isNone then later else []

/-- The client when the caller of a call comes back. -/
def beforeReturn (c : Client) (method : Bytes) (params : Json) (transport : Transport)
    (later : List Happening) : Client :=
  ((transport (c.requestFor method params)).meantime later).foldl react (c.awaiting method)

section

variable (hr : c.phase = .running) (method : Bytes) (params : Json) (transport : Transport)
  (later : List Happening)

include hr

theorem call_of_sent (h : (transport (c.requestFor method params)).failure = none) :
    c.call method params transport later =
      (c.beforeReturn method params transport later).conclude method c.calls.nextId := by
  unfold call
  rw [issue_of_running hr]
  simp only [handOver, h, beforeReturn, Exchange.meantime, Option.isNone_none, if_true,
    List.foldl_append]

theorem call_of_unwritable
    (h : (transport (c.requestFor method params)).failure = some .unwritable) :
    c.call method params transport later =
      (c.beforeReturn method params transport later, .error .unwritable) := by
  unfold call
  rw [issue_of_running hr]
  simp [handOver, h, beforeReturn, Exchange.meantime, withdraw]

theorem call_of_failed {e : SendError}
    (h : (transport (c.requestFor method params)).failure = some e) (he : e ≠ .unwritable) :
    (c.call method params transport later).1.calls =
        ((c.beforeReturn method params transport later).calls.remove (.int c.calls.nextId)).1 ∧
      Documented (c.call method params transport later).2 := by
  unfold call
  rw [issue_of_running hr]
  cases e with
  | unwritable => exact absurd rfl he
  | timeout e =>
    simp only [handOver, h, beforeReturn, Exchange.meantime]
    exact ⟨by simp [withdraw], fun f hf => by cases hf; trivial⟩
  | transport e =>
    -- A client that stopped meanwhile says so in place of the transport.
    by_cases hrun : ((transport (c.requestFor method params)).during.foldl react
        (c.awaiting method)).isRunning = true <;>
      simp only [handOver, h, beforeReturn, Exchange.meantime, hrun, if_true]
    · exact ⟨by simp [withdraw], fun f hf => by cases hf; trivial⟩
    · exact ⟨by simp [withdraw], fun f hf => by cases hf; trivial⟩

end

theorem beforeReturn_awaited (hc : c.calls.Sound) (method : Bytes) (params : Json)
    (transport : Transport) (later : List Happening) :
    Awaited (c.beforeReturn method params transport later).calls c.calls.nextId := by
  obtain ⟨es, hes, hrun⟩ := foldl_react_arrivals (c.awaiting method)
    ((transport (c.requestFor method params)).meantime later)
  exact hc.awaited.run hes hrun

end Client

/-! ### Requests that cannot be written -/

namespace Channel

theorem settleCut_ne_unwritable (channel : Channel) (accepted : Bytes) (cut : Option Cut) :
    (channel.settleCut accepted cut).2 ≠ .failed .unwritable := by
  rcases cut with _ | _ | _ | _ | _
  case some.expired =>
    unfold settleCut
    dsimp only
    split <;> simp
  all_goals simp [settleCut]

/-- A channel refuses a message for its strings unless it is shut down, and for nothing else does it
call one unwritable. -/
theorem send_unwritable_iff (channel : Channel) (m : Message) (lock : Lock)
    (answers : List Answer) :
    (channel.send m lock answers).result = .failed .unwritable ↔
      channel.shutDown = false ∧ m.body? = none := by
  by_cases hs : channel.shutDown = true
  · simp [send, frame?, hs]
  · cases hb : m.body? with
    | none => simp [send, frame?, hs, hb]
    | some body =>
      have hsend : (channel.send m lock answers).result ≠ .failed .unwritable := by
        unfold send frame? writeFrame
        cases lock with
        | expired => simp [hs, hb]
        | obtained =>
          by_cases ho : channel.inputOpen = true
          · have hcut := settleCut_ne_unwritable channel (write [] (Frame.encode body) answers).accepted
              (write [] (Frame.encode body) answers).cut
            simpa [hs, hb, ho] using hcut
          · simp [hs, hb, ho]
      simpa using hsend

end Channel

namespace Client

open Calls (Released)

variable {c : Client}

/-- The request of a call can be written if the strings of the call are valid. -/
theorem requestFor_body? (c : Client) (method : Bytes) (params : Json) :
    (c.requestFor method params).body? = none ↔
      ¬ (Utf8.valid method = true ∧ params.isWritable = true) := by
  rw [body?_eq_none_iff]
  change Json.isWritable (Request.toJson _) = false ↔ _
  rw [Request.isWritable_toJson]
  simp [Id.toJson, Json.isWritable]

/-- A call takes its id out of the table and ends as its caller is told, whatever happens meanwhile,
exactly if its request could be written. Otherwise its caller gets the writer's failure, and the id
stays. A channel that is not shut down refuses to write exactly the calls with a string that is not
valid UTF-8. -/
theorem call_released_iff (hc : Reachable c) (hr : c.phase = .running) (method : Bytes)
    (params : Json) (transport : Transport) (later : List Happening) :
    (Released (c.beforeReturn method params transport later).calls
          (c.call method params transport later).1.calls c.calls.nextId ∧
        Documented (c.call method params transport later).2 ↔
      (transport (c.requestFor method params)).failure ≠ some .unwritable) ∧
    ((transport (c.requestFor method params)).failure = some .unwritable →
      c.call method params transport later =
          (c.beforeReturn method params transport later, .error .unwritable) ∧
        ((transport (c.requestFor method params)).during = [] →
          c.calls.nextId ∈ (c.call method params transport later).1.calls.pending)) ∧
    ∀ (channel : Channel) (lock : Channel.Lock) (answers : List Channel.Answer),
      (channel.send (c.requestFor method params) lock answers).result = .failed .unwritable ↔
        channel.shutDown = false ∧ ¬ (Utf8.valid method = true ∧ params.isWritable = true) := by
  have hawaited := beforeReturn_awaited hc.sound method params transport later
  refine ⟨⟨?_, ?_⟩, ?_, ?_⟩
  · rintro ⟨-, hdoc⟩ hfail
    rw [call_of_unwritable hr method params transport later hfail] at hdoc
    exact hdoc _ rfl
  · intro hfail
    cases hx : (transport (c.requestFor method params)).failure with
    | none =>
      rw [call_of_sent hr method params transport later hx]
      exact conclude_released hawaited method
    | some e =>
      have he : e ≠ .unwritable := fun h => hfail (h ▸ hx)
      obtain ⟨hcalls, hdoc⟩ := call_of_failed hr method params transport later hx he
      exact ⟨hcalls ▸ Calls.remove_released hawaited.nodup _, hdoc⟩
  · intro hfail
    have hcall := call_of_unwritable hr method params transport later hfail
    refine ⟨hcall, fun hnone => ?_⟩
    rw [hcall]
    simp [beforeReturn, Exchange.meantime, hfail, hnone, Calls.issueNext]
  · intro channel lock answers
    rw [Channel.send_unwritable_iff, requestFor_body?]

/-! ### A call over a pipe -/

/-- A client with no calls that runs over a transport of its host's. -/
def fresh : Client := (ofOptions {}).act (.connect true)

theorem fresh_reachable : Reachable fresh := .act _ (.ofOptions {}) (by decide)

/-- Sends into a pipe with a reader that takes everything. -/
def pipeTransport : Transport := fun m => { failure := Piped.failure? (Piped.sendWhole {} m).result }

/-- The server's answer to the first call. -/
def firstReply : Message := .response { id := .int 1, result := some .null, error := none }

theorem call_released_fresh :
    fresh.phase = .running ∧
      Released
        (fresh.beforeReturn (bytes "m") .emptyObject pipeTransport [.message firstReply]).calls
        (fresh.call (bytes "m") .emptyObject pipeTransport [.message firstReply]).1.calls 1 ∧
      Documented (fresh.call (bytes "m") .emptyObject pipeTransport [.message firstReply]).2 :=
  ⟨rfl, (call_released_iff fresh_reachable rfl (bytes "m") .emptyObject pipeTransport
    [.message firstReply]).1.mpr (by decide)⟩

/-- A method that is not valid UTF-8 leaves its id in the table. -/
theorem call_unwritable_stays :
    Reachable fresh ∧ fresh.phase = .running ∧
      (fresh.call [0xFF] .emptyObject pipeTransport []).1.calls.pending = [1] ∧
      (fresh.call [0xFF] .emptyObject pipeTransport []).2 = .error .unwritable ∧
      ¬ Documented (fresh.call [0xFF] .emptyObject pipeTransport []).2 :=
  ⟨fresh_reachable, rfl, rfl, rfl, fun h => h _ rfl⟩

end Client

end LanguageClient
