import LanguageClient.Proofs.Calls.Outcome
import LanguageClient.Proofs.Client.Acts

/-!
# Moves

The calls of several callers overlap, so that an act of one of them is not done in one go. A `Move`
is: it registers a call, takes one back or asks for its outcome, or it is one thing that reaches the
client. Every act comes about by moves (`act_moves`, `call_moves`), and a move takes at most one step
of the table (`move_calls`). As long as the ids last, a table stays sound (`Lasting.run`).
-/

namespace LanguageClient

/-- What a line says has arrived, or what has become of it. -/
inductive Log.Arrival where
  | message
  | overflow
  | completion
  | orphan
  | fault
  deriving DecidableEq

namespace Log.Entry

def arrival? : Log.Entry → Option Log.Arrival
  | .messageReceived _ => some .message
  | .inboxFull _ => some .overflow
  | .responseReceived _ => some .completion
  | .responseDiscarded _ => some .orphan
  | .frameDiscarded _ | .transportFailed _ => some .fault
  | .lengthIgnored _ | .starting .. | .launchFailed _ | .started | .sendingRequest ..
  | .sendingNotification _ | .sendFailed .. | .timedOutUnwritten .. | .timedOut .. | .outputEnded
  | .stopped => none

/-- The line says that something has arrived. -/
def isArrival (e : Log.Entry) : Bool := e.arrival?.isSome

/-- The line is of this kind. -/
def isOf (kind : Log.Arrival) (e : Log.Entry) : Bool := e.arrival? = some kind

end Log.Entry

namespace Client

open Calls (Event Step Run Sound)

inductive Move where
  | start (launched : Except LaunchError Unit) (piped : Except TransportError Unit)
  | connect (given : Bool)
  | stop (ended : Option ExitStatus)
  | meet (h : Happening)
  /-- The host takes a message out of the inbox. -/
  | pop
  | note (e : Log.Entry)
  | register (method : Bytes)
  | withdraw (method : Bytes) (id : Int64) (failure : Failure)
  | conclude (method : Bytes) (id : Int64)

namespace Move

/-- A response arrives. -/
abbrev reply (r : Response) : Move := .meet (.message (.response r))

def isRegister : Move → Bool
  | .register _ => true
  | .start .. | .connect _ | .stop _ | .meet _ | .pop | .note _ | .withdraw .. | .conclude .. => false

/-- The event may come from the move. -/
def Brings (m : Move) : Event → Prop
  | .reply r => m = .reply r
  | .register => m.isRegister = true
  | .begin | .remove _ | .close _ | .fetch _ => True

end Move

/-- Registers a call, without sending anything yet. -/
def register (c : Client) (method : Bytes) : Client :=
  match c.calls.register with
  | .error _ => c
  | .ok (id, calls) => { c with calls }.note (.sendingRequest method (.int id))

def move (c : Client) : Move → Client
  | .start launched piped => (c.start launched piped).1
  | .connect given => (c.connect given).1
  | .stop ended => c.stop ended
  | .meet h => c.react h
  | .pop => { c with inbox := c.inbox.pop.1 }
  | .note e => c.note e
  | .register method => c.register method
  | .withdraw method id failure => c.withdraw method (.int id) failure
  | .conclude method id => (c.conclude method id).1

/-- The client after these moves. -/
def after (c : Client) (ms : List Move) : Client := ms.foldl move c

variable {c : Client} {m : Move} {ms : List Move}

@[simp] theorem after_nil (c : Client) : c.after [] = c := rfl

@[simp] theorem after_cons (c : Client) (m : Move) (ms : List Move) :
    c.after (m :: ms) = (c.move m).after ms := rfl

theorem after_append (c : Client) (ms ms' : List Move) :
    c.after (ms ++ ms') = (c.after ms).after ms' :=
  List.foldl_append

theorem register_of_running (hr : c.phase = .running) (method : Bytes) :
    c.register method = c.awaiting method := by
  unfold register
  rw [Calls.register_of_running hr]
  rfl

theorem register_of_not_running (hr : c.phase ≠ .running) (method : Bytes) :
    c.register method = c := by
  unfold register
  rw [Calls.register_of_not_running hr]

/-! ### The table and the log -/

/-- The lines of the log that say what has arrived. -/
def arrivals (c : Client) : List Log.Entry := c.log.filter Log.Entry.isArrival

/-- Nothing has changed but the table, and the log, which says of nothing more that it arrived. -/
structure TableOnly (c d : Client) : Prop where
  inbox : d.inbox = c.inbox
  child : d.child = c.child
  tornDown : d.tornDown = c.tornDown
  arrivals : d.arrivals = c.arrivals

theorem note_arrivals (c : Client) {e : Log.Entry} (h : e.isArrival = false) :
    (c.note e).arrivals = c.arrivals := by
  simp [arrivals, note, List.filter_append, h]

theorem TableOnly.setCalls (c : Client) (calls : Calls) : TableOnly c { c with calls } :=
  ⟨rfl, rfl, rfl, rfl⟩

theorem TableOnly.note (c : Client) (calls : Calls) {e : Log.Entry} (h : e.isArrival = false) :
    TableOnly c ({ c with calls }.note e) :=
  ⟨rfl, rfl, rfl, note_arrivals _ h⟩

/-- A start does nothing, or begins or closes the table and notes down that it is made. -/
theorem start_cases (c : Client) (launched : Except LaunchError Unit)
    (piped : Except TransportError Unit) :
    (c.start launched piped).1 = c ∨
      ∃ calls child lines,
        (c.start launched piped).1 = { c with calls, child, log := c.log ++ lines } ∧
        (calls = c.calls.begin.1 ∨ calls = (c.calls.close launchFailedReason).1) ∧
        lines.filter Log.Entry.isArrival = [] := by
  unfold start
  split
  · exact .inl rfl
  · dsimp only
    split
    · rename_i child e _ _
      refine .inr ⟨(c.calls.close launchFailedReason).1, child, [.starting c.options.command
        c.options.arguments.length, .launchFailed e], ?_, .inr rfl, rfl⟩
      simp [note]
    · rename_i child _ _
      split
      · exact .inr ⟨_, _, [.starting ..], rfl, .inr rfl, rfl⟩
      · refine .inr ⟨c.calls.begin.1, child, [.starting c.options.command
          c.options.arguments.length, .started], ?_, .inl rfl, rfl⟩
        simp [note]

theorem stop_cases (c : Client) (ended : Option ExitStatus) :
    (c.tornDown = true ∧ c.stop ended = { c with calls := (c.calls.close stoppedReason).1 }) ∨
      (c.tornDown = false ∧ ∃ child,
        c.stop ended =
          { c with calls := (c.calls.close stoppedReason).1, tornDown := true, child }.note
            .stopped) := by
  by_cases htorn : c.tornDown = true
  · exact .inl ⟨htorn, if_pos htorn⟩
  · exact .inr ⟨Bool.eq_false_iff.mpr htorn, _, if_neg htorn⟩

theorem connect_tableOnly (c : Client) (given : Bool) : TableOnly c (c.connect given).1 := by
  unfold connect
  split
  · exact .setCalls c c.calls
  · split
    · exact .setCalls c c.calls
    · exact .setCalls c _

theorem endOutput_tableOnly (c : Client) : TableOnly c c.endOutput := by
  rw [endOutput_eq]
  split
  · exact .note c _ rfl
  · exact .setCalls c c.calls

theorem register_tableOnly (c : Client) (method : Bytes) : TableOnly c (c.register method) := by
  by_cases hr : c.phase = .running
  · rw [register_of_running hr]
    exact .note c _ rfl
  · rw [register_of_not_running hr]
    exact .setCalls c c.calls

theorem withdraw_tableOnly (c : Client) (method : Bytes) (id : Id) (failure : Failure) :
    TableOnly c (c.withdraw method id failure) := by
  cases failure with
  | unwritable => exact .setCalls c c.calls
  | timeout => exact .note c _ rfl
  | launch | notRunning | transport | protocol | abandoned => exact .setCalls c _

theorem conclude_tableOnly (c : Client) (method : Bytes) (id : Int64) :
    TableOnly c (c.conclude method id).1 := by
  rw [conclude_eq]
  split
  · exact .setCalls c _
  · exact .setCalls c c.calls
  · exact .note c _ rfl

/-! ### Acts come about by moves -/

/-- The lines that are noted down by themselves do not say that something has arrived. -/
def Quiet (ms : List Move) : Prop := ∀ e, Move.note e ∈ ms → e.isArrival = false

theorem Quiet.nil : Quiet [] := fun _ h => absurd h List.not_mem_nil

theorem Quiet.cons (hm : ∀ e, m = .note e → e.isArrival = false) (h : Quiet ms) :
    Quiet (m :: ms) := by
  intro e he
  rcases List.mem_cons.mp he with rfl | he
  · exact hm e rfl
  · exact h e he

theorem Quiet.append {ms' : List Move} (h : Quiet ms) (h' : Quiet ms') : Quiet (ms ++ ms') :=
  fun e he => (List.mem_append.mp he).elim (h e) (h' e)

theorem Quiet.meets (hs : List Happening) : Quiet (hs.map .meet) := by
  intro e he
  obtain ⟨h, -, heq⟩ := List.mem_map.mp he
  cases heq

/-- The client comes about by moves of which none is a line about an arrival. -/
def LeadsTo (c d : Client) : Prop := ∃ ms, Quiet ms ∧ d = c.after ms

theorem LeadsTo.refl (c : Client) : c.LeadsTo c := ⟨[], .nil, rfl⟩

theorem LeadsTo.trans {d e : Client} (h : c.LeadsTo d) (h' : d.LeadsTo e) : c.LeadsTo e := by
  obtain ⟨ms, hq, rfl⟩ := h
  obtain ⟨ms', hq', rfl⟩ := h'
  exact ⟨ms ++ ms', hq.append hq', (after_append ..).symm⟩

theorem LeadsTo.move (c : Client) (hm : ∀ e, m = .note e → e.isArrival = false) :
    c.LeadsTo (c.move m) := ⟨[m], .cons hm .nil, rfl⟩

theorem foldl_react (c : Client) (hs : List Happening) :
    hs.foldl react c = c.after (hs.map .meet) := by
  induction hs generalizing c with
  | nil => rfl
  | cons h hs ih => exact ih (c.react h)

theorem foldl_react_moves (c : Client) (hs : List Happening) : c.LeadsTo (hs.foldl react c) :=
  ⟨_, .meets hs, foldl_react c hs⟩

theorem handOver_moves (c : Client) (m : Message) (transport : Transport) :
    c.LeadsTo (c.handOver m transport).1 := by
  have hduring := foldl_react_moves c (transport m).during
  unfold handOver
  dsimp only
  split
  case h_4 e _ =>
    split
    · exact hduring.trans (.move (m := .note (.sendFailed m.method e)) _ (by rintro _ ⟨⟩; rfl))
    · exact hduring
  all_goals exact hduring

theorem issue_moves (c : Client) (method : Bytes) (params : Json) (transport : Transport) :
    c.LeadsTo (c.issue method params transport).1 := by
  by_cases hr : c.phase = .running
  · rw [issue_of_running hr]
    have hregister : c.LeadsTo (c.awaiting method) :=
      register_of_running hr method ▸ .move (m := .register method) c nofun
    have hsend := hregister.trans
      (handOver_moves (c.awaiting method) (c.requestFor method params) transport)
    split <;> rename_i d failure heq <;> rw [heq] at hsend
    · exact hsend
    · exact hsend.trans (.move (m := .withdraw method c.calls.nextId failure) d nofun)
  · rw [issue_of_not_running hr]
    exact .refl c

theorem notify_moves (c : Client) (method : Bytes) (params : Json) (transport : Transport) :
    c.LeadsTo (c.notify method params transport).1 := by
  unfold notify
  split
  · have hnote : c.LeadsTo (c.note (.sendingNotification method)) :=
      .move (m := .note (.sendingNotification method)) c (by rintro _ ⟨⟩; rfl)
    have hsend := hnote.trans (handOver_moves (c.note (.sendingNotification method))
      (.notification { method, params := some params }) transport)
    dsimp only
    split <;> rename_i heq <;> rw [heq] at hsend <;> exact hsend
  · exact .refl c

theorem act_moves (c : Client) (a : Act) : c.LeadsTo (c.act a) := by
  cases a with
  | start launched piped => exact .move (m := .start launched piped) c nofun
  | connect given => exact .move (m := .connect given) c nofun
  | stop ended => exact .move (m := .stop ended) c nofun
  | meet h => exact .move (m := .meet h) c nofun
  | issue method params transport => exact issue_moves ..
  | conclude method id => exact .move (m := .conclude method id) c nofun
  | notify method params transport => exact notify_moves ..
  | pop => exact .move (m := .pop) c nofun

theorem call_moves (c : Client) (method : Bytes) (params : Json) (transport : Transport)
    (later : List Happening) : c.LeadsTo (c.call method params transport later).1 := by
  have hissue := issue_moves c method params transport
  unfold call
  split <;> rename_i d result heq <;> rw [heq] at hissue
  · exact hissue
  · exact (hissue.trans (foldl_react_moves d later)).trans
      (.move (m := .conclude method result) _ nofun)

/-! ### A move takes at most one step of the table -/

/-- The table stays as it is or takes one step, which may come from the move. -/
def Move.Does (m : Move) (c d : Calls) : Prop := d = c ∨ ∃ e, Step c e d ∧ m.Brings e

theorem does_begin (c : Calls) : m.Does c c.begin.1 := by
  rcases c.begin_cases with ⟨hp, h⟩ | ⟨-, h⟩ <;> rw [h]
  · exact .inr ⟨_, .begin hp, trivial⟩
  · exact .inl rfl

theorem does_close (c : Calls) (reason : Bytes) : m.Does c (c.close reason).1 := by
  rcases c.close_cases reason with ⟨hp, h⟩ | ⟨-, h⟩ <;> rw [h]
  · exact .inr ⟨_, .close reason hp, trivial⟩
  · exact .inl rfl

theorem does_remove (c : Calls) (id : Int64) : m.Does c (c.remove (.int id)).1 := by
  rcases c.remove_cases id with ⟨hid, h⟩ | ⟨-, h⟩ <;> rw [h]
  · exact .inr ⟨_, .remove hid, trivial⟩
  · exact .inl rfl

theorem does_complete (c : Calls) (r : Response) : (Move.reply r).Does c (c.complete r).1 := by
  rcases c.complete_cases r with ⟨id, hr, hid, h⟩ | ⟨-, h⟩ <;> rw [h]
  · exact .inr ⟨_, .reply hr hid, rfl⟩
  · exact .inl rfl

theorem start_does (c : Client) (launched : Except LaunchError Unit)
    (piped : Except TransportError Unit) : m.Does c.calls (c.start launched piped).1.calls := by
  rcases start_cases c launched piped with h | ⟨_, _, _, h, rfl | rfl, -⟩ <;> rw [h]
  · exact .inl rfl
  · exact does_begin ..
  · exact does_close ..

theorem connect_does (c : Client) (given : Bool) : m.Does c.calls (c.connect given).1.calls := by
  unfold connect
  split
  · exact .inl rfl
  · split
    · exact .inl rfl
    · exact does_begin ..

theorem react_does (c : Client) (h : Happening) : (Move.meet h).Does c.calls (c.react h).calls := by
  cases h with
  | message m =>
    cases m with
    | response r => exact receiveResponse_calls c r ▸ does_complete ..
    | request r => exact .inl (queue_calls c (.request r))
    | notification n => exact .inl (queue_calls c (.notification n))
  | fault f => cases f <;> exact .inl rfl
  | outputEnded => exact endOutput_calls c ▸ does_close ..
  | stop => exact stop_calls c none ▸ does_close ..

theorem withdraw_does (c : Client) (method : Bytes) (id : Int64) (failure : Failure) :
    m.Does c.calls (c.withdraw method (.int id) failure).calls := by
  by_cases h : failure = .unwritable
  · exact .inl (h ▸ rfl)
  · exact withdraw_calls c method (.int id) h ▸ does_remove c.calls id

theorem conclude_does (c : Client) (method : Bytes) (id : Int64) :
    m.Does c.calls (c.conclude method id).1.calls := by
  rcases c.calls.fetch_cases id with ⟨o, hid, ho, h⟩ | ⟨-, -, h⟩ | ⟨-, h⟩ <;>
    simp only [conclude, h]
  · exact .inr ⟨_, .fetch hid ho, trivial⟩
  · exact does_remove ..
  · exact .inl rfl

theorem move_calls (c : Client) (m : Move)
    (hn : m.isRegister = true → c.calls.nextId < Int64.maxValue) :
    m.Does c.calls (c.move m).calls := by
  cases m with
  | start launched piped => exact start_does ..
  | connect given => exact connect_does ..
  | stop ended => exact stop_calls c ended ▸ does_close ..
  | meet h => exact react_does ..
  | pop | note => exact .inl rfl
  | register method =>
    by_cases hr : c.phase = .running
    · rw [move, register_of_running hr, awaiting_calls]
      exact .inr ⟨_, .register hr (hn rfl), rfl⟩
    · exact .inl (congrArg calls (register_of_not_running hr method))
  | withdraw method id failure => exact withdraw_does ..
  | conclude method id => exact conclude_does ..

theorem move_does_or_register (c : Client) (m : Move) :
    m.Does c.calls (c.move m).calls ∨ ∃ method, m = .register method := by
  by_cases hm : m.isRegister = true
  · cases m with
    | register method => exact .inr ⟨method, rfl⟩
    | start | connect | stop | meet | pop | note | withdraw | conclude => cases hm
  · exact .inl (move_calls c m fun h => absurd h hm)

/-! ### The ids last -/

/-- The moves register no more calls than there are ids left. -/
def Lasting (c : Client) (ms : List Move) : Prop :=
  c.calls.nextId.toInt + ms.countP Move.isRegister ≤ Int64.maxValue.toInt

theorem Lasting.head (h : Lasting c (m :: ms)) (hm : m.isRegister = true) :
    c.calls.nextId < Int64.maxValue := by
  rw [Lasting, List.countP_cons_of_pos hm] at h
  rw [Int64.lt_iff_toInt_lt]
  omega

theorem Lasting.tail (h : Lasting c (m :: ms)) : Lasting (c.move m) ms := by
  have hcalls := move_calls c m h.head
  have hle : ms.countP Move.isRegister ≤ (m :: ms).countP Move.isRegister :=
    (List.sublist_cons_self m ms).countP_le
  rw [Lasting] at h ⊢
  rcases hcalls with heq | ⟨e, hstep, hm⟩
  · rw [heq]
    omega
  · rcases hstep.nextId_cases with ⟨rfl, hn⟩ | hn
    · rw [List.countP_cons_of_pos hm] at h
      omega
    · rw [hn]
      omega

theorem Lasting.run (h : Lasting c ms) : ∃ es, Run c.calls es (c.after ms).calls := by
  induction ms generalizing c with
  | nil => exact ⟨[], .nil⟩
  | cons m ms ih =>
    obtain ⟨es, hrun⟩ := ih h.tail
    rcases move_calls c m h.head with heq | ⟨e, hstep, -⟩
    · exact ⟨es, heq ▸ hrun⟩
    · exact ⟨e :: es, .cons hstep hrun⟩

theorem Lasting.left {ms' : List Move} (h : Lasting c (ms ++ ms')) : Lasting c ms := by
  rw [Lasting, List.countP_append] at h
  rw [Lasting]
  omega

theorem Lasting.right {ms' : List Move} (h : Lasting c (ms ++ ms')) : Lasting (c.after ms) ms' := by
  induction ms generalizing c with
  | nil => exact h
  | cons m ms ih => exact ih h.tail

end Client

end LanguageClient
