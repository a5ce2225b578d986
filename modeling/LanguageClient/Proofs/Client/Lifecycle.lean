import LanguageClient.Client.Protocol
import LanguageClient.Proofs.Calls.Accounting
import LanguageClient.Proofs.Client.Moves

/-!
# The life of a client

A client is started at most once and stopped for good, whatever is done to it in which order
(`lifecycle_after`). Two facts carry this: no move leads back (`move_movesTo`), and a client stays
`Tidy`: it has pending calls only while it runs, it runs no more once it is torn down, and it has
launched nothing before it starts.
-/

namespace LanguageClient

namespace Phase.MovesTo

variable {p q r : Phase}

theorem refl (p : Phase) : p.MovesTo p := by cases p <;> simp [MovesTo]

theorem trans (h : p.MovesTo q) (h' : q.MovesTo r) : p.MovesTo r := by
  cases p <;> cases q <;> cases r <;> simp_all [MovesTo]

theorem to_stopped (p : Phase) : p.MovesTo .stopped := by cases p <;> simp [MovesTo]

theorem eq_stopped (h : Phase.MovesTo .stopped q) : q = .stopped := h

theorem eq_unstarted (h : p.MovesTo .unstarted) : p = .unstarted := by
  cases p with
  | unstarted => rfl
  | running => exact absurd rfl h
  | stopped => cases h

end Phase.MovesTo

namespace Calls

variable {c d : Calls} {e : Event}

theorem Step.movesTo (h : Step c e d) : c.phase.MovesTo d.phase := by
  cases h with
  | begin hp => simp [hp, Phase.MovesTo]
  | close => exact .to_stopped _
  | register | reply | remove | fetch => exact .refl _

/-- Pending calls are those of a running client. -/
theorem Step.idle (h : Step c e d) (hc : c.phase ≠ .running → c.pending = []) :
    d.phase ≠ .running → d.pending = [] := by
  intro hd
  cases h with
  | begin => exact absurd rfl hd
  | register hr => exact absurd hr hd
  | reply | remove => simp [retire, hc hd]
  | close => rfl
  | fetch => exact hc hd

/-- The outcomes of a stopped client without pending calls are final. -/
theorem Step.settled_of_stopped (h : Step c e d) (hp : c.phase = .stopped) (hc : c.pending = []) :
    d.settled = c.settled := by
  cases h with
  | begin h => cases hp.symm.trans h
  | register h => cases hp.symm.trans h
  | reply _ hid | remove hid => simp [hc] at hid
  | close _ h => exact absurd hp h
  | fetch => rfl

end Calls

namespace Client

variable {c : Client} {m : Move}

/-! ### What start and connect do -/

theorem checkUnstarted_of_ne (h : c.phase ≠ .unstarted) :
    c.checkUnstarted = .error (.alreadyStarted c.phase) := if_neg h

theorem checkUnstarted_of_eq (h : c.phase = .unstarted) : c.checkUnstarted = .ok () := if_pos h

theorem start_of_ne (h : c.phase ≠ .unstarted) (launched : Except LaunchError Unit)
    (piped : Except TransportError Unit) :
    c.start launched piped = (c, .error (.alreadyStarted c.phase)) := by
  simp only [start, checkUnstarted_of_ne h]

theorem connect_of_ne (h : c.phase ≠ .unstarted) :
    c.connect true = (c, .error (.alreadyStarted c.phase)) := by
  simp only [connect, checkUnstarted_of_ne h]
  rfl

theorem connect_of_unstarted (h : c.phase = .unstarted) :
    c.connect true = ({ c with calls := { c.calls with phase := .running } }, .ok ()) := by
  simp only [connect, checkUnstarted_of_eq h, Calls.begin, show c.calls.phase = .unstarted from h]
  rfl

/-- The command can be launched and reached through pipes. -/
def Launches (c : Client) (launched : Except LaunchError Unit) (piped : Except TransportError Unit) :
    Prop :=
  c.options.command.isEmpty = false ∧ launched = .ok () ∧ piped = .ok ()

/-- A client that has launched nothing runs after its start, or is stopped. -/
theorem start_of_unstarted (h : c.phase = .unstarted) (hs : c.child.spawned = false)
    (launched : Except LaunchError Unit) (piped : Except TransportError Unit) :
    (c.Launches launched piped ∧ (c.start launched piped).2 = .ok () ∧
        (c.start launched piped).1.phase = .running) ∨
      (¬ c.Launches launched piped ∧ (∃ e, (c.start launched piped).2 = .error e) ∧
        (c.start launched piped).1.phase = .stopped) := by
  have hclose : (c.calls.close launchFailedReason).1.phase = .stopped := by
    rw [Calls.close_of_ne (by simp [show c.calls.phase = .unstarted from h])]
    rfl
  have hbegin : c.calls.begin.1.phase = .running := by
    simp only [Calls.begin, show c.calls.phase = .unstarted from h, if_true]
  unfold start Launches
  simp only [checkUnstarted_of_eq h, Child.spawn, note, hs]
  by_cases hcommand : c.options.command.isEmpty = true
  · simp only [hcommand]
    exact .inr ⟨by simp, ⟨_, rfl⟩, hclose⟩
  · cases launched with
    | error e =>
      simp only [hcommand]
      exact .inr ⟨by simp, ⟨_, rfl⟩, hclose⟩
    | ok =>
      cases piped with
      | error e =>
        simp only [hcommand]
        exact .inr ⟨by simp, ⟨_, rfl⟩, hclose⟩
      | ok =>
        simp only [hcommand]
        exact .inl ⟨by simp, rfl, hbegin⟩

/-! ### What a move keeps -/

/-- A client does not go back. -/
theorem move_movesTo (c : Client) (m : Move) : c.phase.MovesTo (c.move m).phase := by
  rcases move_does_or_register c m with (heq | ⟨e, hstep, -⟩) | ⟨method, rfl⟩
  · rw [phase, phase, heq]
    exact .refl _
  · exact hstep.movesTo
  · by_cases hr : c.phase = .running
    · rw [move, register_of_running hr]
      exact .refl _
    · rw [move, register_of_not_running hr]
      exact .refl _

theorem stop_phase (c : Client) (ended : Option ExitStatus) : (c.stop ended).phase = .stopped := by
  rw [phase, stop_calls]
  rcases c.calls.close_cases stoppedReason with ⟨-, h⟩ | ⟨hp, h⟩ <;> rw [h]
  · rfl
  · exact hp

theorem endOutput_phase (c : Client) : c.endOutput.phase = .stopped := by
  rw [phase, endOutput_calls]
  rcases c.calls.close_cases outputEndedReason with ⟨-, h⟩ | ⟨hp, h⟩ <;> rw [h]
  · rfl
  · exact hp

theorem stop_tornDown (c : Client) (ended : Option ExitStatus) :
    (c.stop ended).tornDown = true := by
  rcases stop_cases c ended with ⟨htorn, h⟩ | ⟨-, _, h⟩ <;> rw [h]
  · exact htorn
  · rfl

theorem start_tornDown (c : Client) (launched : Except LaunchError Unit)
    (piped : Except TransportError Unit) : (c.start launched piped).1.tornDown = c.tornDown := by
  rcases start_cases c launched piped with h | ⟨_, _, _, h, -⟩ <;> rw [h]

theorem queue_child (c : Client) (x : Message) :
    (c.queue x).child = c.child ∧ (c.queue x).tornDown = c.tornDown := by
  unfold queue
  dsimp only
  split <;> exact ⟨rfl, rfl⟩

/-- Only a start and a stop concern the child. -/
theorem move_cases (c : Client) (m : Move) :
    (∃ launched piped, m = .start launched piped) ∨ (∃ ended, c.move m = c.stop ended) ∨
      ((c.move m).child = c.child ∧ (c.move m).tornDown = c.tornDown) := by
  have table (h : TableOnly c (c.move m)) :
      (c.move m).child = c.child ∧ (c.move m).tornDown = c.tornDown := ⟨h.child, h.tornDown⟩
  cases m with
  | start launched piped => exact .inl ⟨launched, piped, rfl⟩
  | stop ended => exact .inr (.inl ⟨ended, rfl⟩)
  | meet x =>
    cases x with
    | stop => exact .inr (.inl ⟨none, rfl⟩)
    | outputEnded => exact .inr (.inr (table (endOutput_tableOnly c)))
    | fault f => cases f <;> exact .inr (.inr ⟨rfl, rfl⟩)
    | message x =>
      cases x with
      | response r =>
        rw [move, react, receive, receiveResponse_eq]
        exact .inr (.inr ⟨rfl, rfl⟩)
      | request q => exact .inr (.inr (queue_child c (.request q)))
      | notification n => exact .inr (.inr (queue_child c (.notification n)))
  | pop | note => exact .inr (.inr ⟨rfl, rfl⟩)
  | connect given => exact .inr (.inr (table (connect_tableOnly c given)))
  | register method => exact .inr (.inr (table (register_tableOnly c method)))
  | withdraw method id failure =>
    exact .inr (.inr (table (withdraw_tableOnly c method (.int id) failure)))
  | conclude method id => exact .inr (.inr (table (conclude_tableOnly c method id)))

/-! ### The invariant -/

/-- What a client keeps, whatever is done to it. -/
structure Tidy (c : Client) : Prop where
  /-- Pending calls are those of a running client. -/
  idle : c.phase ≠ .running → c.calls.pending = []
  down : c.tornDown = true → c.phase = .stopped
  unspawned : c.phase = .unstarted → c.child.spawned = false

theorem Tidy.init (options : Options) : Tidy (ofOptions options) where
  idle _ := rfl
  down h := nomatch h
  unspawned _ := rfl

theorem Tidy.move (hc : Tidy c) (m : Move) : Tidy (c.move m) where
  idle := by
    rcases move_does_or_register c m with (heq | ⟨e, hstep, -⟩) | ⟨method, rfl⟩
    · rw [phase, heq]
      exact hc.idle
    · exact hstep.idle hc.idle
    · intro hr
      by_cases hrun : c.phase = .running
      · rw [Client.move, register_of_running hrun] at hr
        exact absurd hrun hr
      · rw [Client.move, register_of_not_running hrun]
        exact hc.idle hrun
  down hdown := by
    rcases move_cases c m with ⟨launched, piped, rfl⟩ | ⟨ended, hstop⟩ | ⟨-, htorn⟩
    · have hphase := hc.down (start_tornDown c launched piped ▸ hdown)
      exact (hphase ▸ move_movesTo c (.start launched piped)).eq_stopped
    · exact hstop ▸ stop_phase c ended
    · exact (hc.down (htorn ▸ hdown) ▸ move_movesTo c m).eq_stopped
  unspawned hphase := by
    have hc' : c.phase = .unstarted := (hphase ▸ move_movesTo c m).eq_unstarted
    rcases move_cases c m with ⟨launched, piped, rfl⟩ | ⟨ended, hstop⟩ | ⟨hchild, -⟩
    · rcases start_of_unstarted hc' (hc.unspawned hc') launched piped with ⟨-, -, h⟩ | ⟨-, -, h⟩ <;>
        cases h.symm.trans hphase
    · rw [hstop, stop_phase] at hphase
      cases hphase
    · rw [hchild, hc.unspawned hc']

theorem Tidy.after (hc : Tidy c) (ms : List Move) : Tidy (c.after ms) := by
  induction ms generalizing c with
  | nil => exact hc
  | cons m ms ih => exact ih (hc.move m)

/-! ### For good -/

theorem after_movesTo (c : Client) (ms : List Move) : c.phase.MovesTo (c.after ms).phase := by
  induction ms generalizing c with
  | nil => exact .refl _
  | cons m ms ih => exact (move_movesTo c m).trans (ih _)

theorem after_stopped (h : c.phase = .stopped) (ms : List Move) : (c.after ms).phase = .stopped :=
  (h ▸ after_movesTo c ms).eq_stopped

theorem move_tornDown (h : c.tornDown = true) (m : Move) : (c.move m).tornDown = true := by
  rcases move_cases c m with ⟨launched, piped, rfl⟩ | ⟨ended, hstop⟩ | ⟨-, htorn⟩
  · rwa [← start_tornDown c launched piped] at h
  · exact hstop ▸ stop_tornDown c ended
  · rwa [htorn]

theorem after_tornDown (h : c.tornDown = true) (ms : List Move) : (c.after ms).tornDown = true := by
  induction ms generalizing c with
  | nil => exact h
  | cons m ms ih => exact ih (move_tornDown h m)

theorem stop_of_tornDown (h : c.tornDown = true) (hp : c.phase = .stopped)
    (ended : Option ExitStatus) : c.stop ended = c := by
  rcases stop_cases c ended with ⟨-, hstop⟩ | ⟨hup, -⟩
  · rw [hstop, c.calls.close_of_stopped hp]
  · cases h.symm.trans hup

/-- The outcomes of a stopped client are final. -/
theorem Tidy.settled_after (hc : Tidy c) (hp : c.phase = .stopped) (ms : List Move) :
    (c.after ms).calls.settled = c.calls.settled := by
  induction ms generalizing c with
  | nil => rfl
  | cons m ms ih =>
    have hp' : (c.move m).phase = .stopped := (hp ▸ move_movesTo c m).eq_stopped
    refine (ih (hc.move m) hp').trans ?_
    rcases move_does_or_register c m with (heq | ⟨e, hstep, -⟩) | ⟨method, rfl⟩
    · rw [heq]
    · exact hstep.settled_of_stopped hp (hc.idle (by simp [hp]))
    · rw [Client.move, register_of_not_running (by simp [hp])]

/-- A caller who waits when the client ends is told so. -/
theorem Tidy.told_closed {d : Client} {reason : Bytes} {id : Int64} (hc : Tidy c) (hd : Tidy d)
    (hcalls : d.calls = (c.calls.close reason).1) (hid : id ∈ c.calls.pending) (ms : List Move)
    (hfetched : id ∉ (d.after ms).calls.fetched) (method : Bytes) :
    ((d.after ms).conclude method id).2 = .error (.notRunning (.closed reason)) := by
  have hp : c.phase ≠ .stopped := by
    intro hp
    rw [hc.idle (by simp [hp])] at hid
    cases hid
  rw [c.calls.close_of_ne hp] at hcalls
  have houtcome : (d.after ms).calls.outcome? id = some (.closed reason) := by
    rw [Calls.outcome?, hd.settled_after (by rw [phase, hcalls]; rfl), hcalls]
    exact (Calls.outcome?_closed c.calls reason id).trans (if_pos hid)
  exact conclude_of_outcome? houtcome hfetched method

/-! ### What is handed to a transport -/

theorem handOver_congr {x : Message} {transport transport' : Transport}
    (h : transport x = transport' x) (c : Client) :
    c.handOver x transport = c.handOver x transport' := by
  unfold handOver
  rw [h]

theorem notify_of_not_running (hr : c.phase ≠ .running) (method : Bytes) (params : Json)
    (transport : Transport) :
    c.notify method params transport = (c, .error (.notRunning (.cannotSend c.phase method))) := by
  simp [notify, isRunning, hr]

theorem call_of_not_running (hr : c.phase ≠ .running) (method : Bytes) (params : Json)
    (transport : Transport) (later : List Happening) :
    c.call method params transport later =
      (c, .error (.notRunning (.cannotSend c.phase method))) := by
  simp only [call, issue_of_not_running hr]

theorem outgoing?_of_not_running (hr : c.phase ≠ .running) (op : Operation) :
    c.outgoing? op = none := by
  simp [outgoing?, isRunning, hr]

theorem isRunning_of_running (hr : c.phase = .running) : c.isRunning = true := by
  simp [isRunning, hr]

/-- An operation asks the transport about its outgoing message and nothing else. -/
theorem perform_congr {op : Operation} {transport transport' : Transport}
    (h : ∀ m, c.outgoing? op = some m → transport m = transport' m) (later : List Happening) :
    c.perform op transport later = c.perform op transport' later := by
  cases op with
  | request method params =>
    have hissue : c.issue method params transport = c.issue method params transport' := by
      by_cases hr : c.phase = .running
      · have hsame := h (c.requestFor method params) (by
          simp [outgoing?, isRunning_of_running hr, requestFor])
        rw [issue_of_running hr, issue_of_running hr, handOver_congr hsame]
      · rw [issue_of_not_running hr, issue_of_not_running hr]
    simp only [perform, call, hissue]
  | notification method params =>
    have hnotify : c.notify method params transport = c.notify method params transport' := by
      by_cases hr : c.phase = .running
      · have hsame := h (.notification { method, params := some params }) (by
          simp [outgoing?, isRunning_of_running hr])
        simp only [notify, isRunning_of_running hr, if_true, handOver_congr hsame]
      · rw [notify_of_not_running hr, notify_of_not_running hr]
    simp only [perform, hnotify]

/-- An operation comes about by moves, like any act. -/
theorem perform_moves (c : Client) (op : Operation) (transport : Transport)
    (later : List Happening) : c.LeadsTo (c.perform op transport later).1 := by
  cases op with
  | request method params => exact call_moves ..
  | notification method params => exact (notify_moves ..).trans (foldl_react_moves ..)

/-! ### The whole life -/

/-- What a host can rely on at any moment of a client's life, and for the rest of it. -/
structure Lifecycle (c : Client) : Prop where
  /-- All that a host does and that happens to a client comes about by moves, -/
  acts : ∀ a, c.LeadsTo (c.act a)
  operations : ∀ op transport later, c.LeadsTo (c.perform op transport later).1
  /-- and whatever moves follow, a client does not go back. -/
  forward : ∀ ms, c.phase.MovesTo (c.after ms).phase
  /-- A client that is not unstarted is not started again, -/
  startRefused : c.phase ≠ .unstarted → ∀ launched piped,
    c.start launched piped = (c, .error (.alreadyStarted c.phase))
  connectRefused : c.phase ≠ .unstarted → c.connect true = (c, .error (.alreadyStarted c.phase))
  /-- nor is any without a transport, which does not keep it from being started later. -/
  noTransport : c.connect false = (c, .error .noTransport)
  connected : c.phase = .unstarted →
    c.connect true = ({ c with calls := { c.calls with phase := .running } }, .ok ())
  started : c.phase = .unstarted → ∀ launched piped, c.Launches launched piped →
    (c.start launched piped).2 = .ok () ∧ (c.start launched piped).1.phase = .running
  /-- A start that fails is the end. -/
  notStarted : c.phase = .unstarted → ∀ launched piped, ¬ c.Launches launched piped →
    (∃ e, (c.start launched piped).2 = .error e) ∧
      ∀ ms, ((c.start launched piped).1.after ms).phase = .stopped
  stopped : ∀ ended ms, ((c.stop ended).after ms).phase = .stopped
  outputEnded : ∀ ms, (c.endOutput.after ms).phase = .stopped
  /-- A client that was stopped is not stopped again. -/
  stoppedOnce : ∀ ended ms again,
    ((c.stop ended).after ms).stop again = (c.stop ended).after ms
  /-- Only a running client sends: any other is the same after the attempt, -/
  callRefused : c.phase ≠ .running → ∀ method params transport later,
    c.call method params transport later = (c, .error (.notRunning (.cannotSend c.phase method)))
  notifyRefused : c.phase ≠ .running → ∀ method params transport,
    c.notify method params transport = (c, .error (.notRunning (.cannotSend c.phase method)))
  /-- and hands nothing over, since it matters for no message what the transport does with it. -/
  silent : c.phase ≠ .running → ∀ op, c.outgoing? op = none
  handed : ∀ op transport transport' later,
    (∀ m, c.outgoing? op = some m → transport m = transport' m) →
      c.perform op transport later = c.perform op transport' later
  /-- A client that does not run has no pending calls, -/
  idle : c.phase ≠ .running → c.calls.pending = []
  /-- because all callers who wait when it is stopped or its server's output ends are told so,
  whenever they ask. -/
  toldStopped : ∀ id ∈ c.calls.pending, ∀ ended ms method,
    id ∉ ((c.stop ended).after ms).calls.fetched →
      (((c.stop ended).after ms).conclude method id).2 =
        .error (.notRunning (.closed stoppedReason))
  toldEnded : ∀ id ∈ c.calls.pending, ∀ ms method,
    id ∉ (c.endOutput.after ms).calls.fetched →
      ((c.endOutput.after ms).conclude method id).2 =
        .error (.notRunning (.closed outputEndedReason))

theorem Tidy.lifecycle (hc : Tidy c) : Lifecycle c where
  acts := act_moves c
  operations := perform_moves c
  forward := after_movesTo c
  startRefused := start_of_ne
  connectRefused := connect_of_ne
  noTransport := rfl
  connected := connect_of_unstarted
  started hp launched piped hl := by
    rcases start_of_unstarted hp (hc.unspawned hp) launched piped with ⟨-, h⟩ | ⟨hn, -⟩
    · exact h
    · exact absurd hl hn
  notStarted hp launched piped hn := by
    rcases start_of_unstarted hp (hc.unspawned hp) launched piped with ⟨hl, -⟩ | ⟨-, herror, hs⟩
    · exact absurd hl hn
    · exact ⟨herror, after_stopped hs⟩
  stopped ended := after_stopped (stop_phase c ended)
  outputEnded := after_stopped (endOutput_phase c)
  stoppedOnce ended ms := stop_of_tornDown (after_tornDown (stop_tornDown c ended) ms)
    (after_stopped (stop_phase c ended) ms)
  callRefused := call_of_not_running
  notifyRefused := notify_of_not_running
  silent := outgoing?_of_not_running
  handed _ _ _ later h := perform_congr h later
  idle := hc.idle
  toldStopped id hid ended ms method hfetched :=
    hc.told_closed (hc.move (.stop ended)) (stop_calls c ended) hid ms hfetched method
  toldEnded id hid ms method hfetched :=
    hc.told_closed (hc.move (.meet .outputEnded)) (endOutput_calls c) hid ms hfetched method

/-- A client is started at most once and stopped for good, and leaves no caller waiting, whatever is
done to it in which order. -/
theorem lifecycle_after (options : Options) (ms : List Move) :
    Lifecycle ((ofOptions options).after ms) :=
  ((Tidy.init options).after ms).lifecycle

end Client

end LanguageClient
