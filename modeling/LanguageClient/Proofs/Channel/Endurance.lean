import LanguageClient.Proofs.Channel.Draining
import LanguageClient.Proofs.Channel.Overflow
import LanguageClient.Proofs.Frame.Block
import LanguageClient.Proofs.Json.Grammar

/-!
# What a server can do to the reading

A read loop catches the failures that it expects and lets every other one out, which would be the end
of its host. `startAtRisk` is `startOn` with everything at its own risk that is done to the input.
Nothing is thrown in it (`startAtRisk_eq`), so that a host gets one callback for each frame and for
each header block without one, whatever the server sends in which pieces, unless a body is too deep
for the stack (`enduring`). A body may be as deep as there are bytes (`startOn_nestedText`).
-/

namespace LanguageClient

open Frame (Decoder)

/-- How a process ends in the middle of a read loop. -/
inductive Breakdown where
  /-- Something is thrown that nobody catches. -/
  | uncaught (t : Thrown)
  | stackOverflow

namespace Frame.Decoder

variable {r : Json.Reader} {d e : Decoder}

/-- One turn of the loop over a chunk, as in `turn`, but on a stack. -/
def turnOn (r : Json.Reader) (d : Decoder) :
    Decoder × Except Breakdown (Option Channel.Delivery) :=
  let sheltered := (d.turn.1, d.turn.2.mapError .uncaught)
  match d.attempt with
  | (e, .ok (some raw)) => if r.overflows raw then (e, .error .stackOverflow) else sheltered
  | _ => sheltered

theorem turnOn_of_overflows {o : Outcome} (h : d.Placed) (ho : d.next.outcome = some o)
    (hr : o.overflows r = true) : d.turnOn r = (d.next.decoder, .error .stackOverflow) := by
  unfold turnOn
  rw [attempt_eq h, Step.attempt, ho]
  cases o with
  | error e => cases hr
  | body raw => exact if_pos hr

theorem turnOn_of_not_overflows (h : d.Placed)
    (hr : ∀ o, d.next.outcome = some o → o.overflows r = false) :
    d.turnOn r = (d.next.decoder, .ok (d.next.outcome.map Channel.Delivery.ofOutcome)) := by
  have hturn := turn_eq h
  unfold turnOn
  rw [attempt_eq h, Step.attempt, hturn]
  cases ho : d.next.outcome with
  | none => rfl
  | some o =>
    cases o with
    | error e => rfl
    | body raw => exact if_neg (Bool.eq_false_iff.mp (hr _ ho))

theorem turn_of_turnOn {found : Option Channel.Delivery} (h : d.turnOn r = (e, .ok found)) :
    d.turn = (e, .ok found) := by
  have hsheltered (h : (d.turn.1, d.turn.2.mapError Breakdown.uncaught) = (e, .ok found)) :
      d.turn = (e, .ok found) := by
    cases hturn : d.turn with
    | mk e' result =>
      rw [hturn] at h
      cases result <;> cases h
      rfl
  unfold turnOn at h
  split at h
  · split at h
    · cases h
    · exact hsheltered h
  · exact hsheltered h

end Frame.Decoder

namespace Channel

open Frame.Decoder (exhaust)

variable {r : Json.Reader} {host : Host} {loop : Loop}

/-- Nothing comes back from a stack that has overflowed. -/
def orOverflow {α : Type} : Option α → Except Breakdown α
  | some a => .ok a
  | none => .error .stackOverflow

namespace Loop

/-- Works off what the decoder has got. -/
def workOff (r : Json.Reader) (host : Host) (loop : Loop) : Except Breakdown Loop × List Event :=
  match _h : loop.decoder.turnOn r with
  | (_, .error b) => (.error b, [])
  | (decoder, .ok none) => (.ok { loop with decoder }, [])
  | (decoder, .ok (some delivery)) =>
    let step := { loop with decoder }.deliver host delivery
    let rest := step.1.workOff r host
    (rest.1, step.2 ++ rest.2)
termination_by loop.decoder.buffered
decreasing_by
  have := Frame.Decoder.buffered_turn_lt (Frame.Decoder.turn_of_turnOn _h)
  cases delivery <;> exact this

def runAtRisk (r : Json.Reader) (host : Host) (loop : Loop) :
    List Arrival → Except Breakdown Loop × List Event
  | [] => (.ok loop, [])
  | arrival :: rest =>
    if loop.channel.shutDown then (.ok loop, [])
    else
      match arrival with
      | .failure e => (.ok loop, host.told (.transport e))
      | .chunk bytes =>
        match { loop with decoder := loop.decoder.feed bytes }.workOff r host with
        | (.error b, events) => (.error b, events)
        | (.ok next, events) =>
          let last := next.runAtRisk r host rest
          (last.1, events ++ last.2)

/-- No delivery looks at the decoder. -/
theorem deliver_decoder (host : Host) (loop : Loop) (decoder : Frame.Decoder) (d : Delivery) :
    { loop with decoder }.deliver host d =
      ({ (loop.deliver host d).1 with decoder }, (loop.deliver host d).2) := by
  cases d <;> rfl

theorem workOff_of_none {decoder : Frame.Decoder}
    (h : loop.decoder.turnOn r = (decoder, .ok none)) :
    loop.workOff r host = (.ok { loop with decoder }, []) := by
  rw [workOff]
  split <;> simp_all

theorem workOff_of_error {decoder : Frame.Decoder} {b : Breakdown}
    (h : loop.decoder.turnOn r = (decoder, .error b)) : loop.workOff r host = (.error b, []) := by
  rw [workOff]
  split <;> simp_all

theorem workOff_of_some {decoder : Frame.Decoder} {delivery : Delivery}
    (h : loop.decoder.turnOn r = (decoder, .ok (some delivery))) :
    loop.workOff r host =
      ((({ loop with decoder }.deliver host delivery).1.workOff r host).1,
        ({ loop with decoder }.deliver host delivery).2 ++
          (({ loop with decoder }.deliver host delivery).1.workOff r host).2) := by
  rw [workOff]
  split
  · simp_all
  · simp_all
  · rename_i heq
    cases h.symm.trans heq
    rfl

/-- Working off turn by turn comes to the same as draining the decoder first. -/
theorem workOff_eq (r : Json.Reader) (host : Host) (loop : Loop) (hp : loop.decoder.Placed) :
    loop.workOff r host =
      let handed := { loop with decoder := loop.decoder.drain.last.decoder }.handOn r host
        loop.decoder.drain.outcomes
      (orOverflow handed.1, handed.2) := by
  obtain ⟨channel, d, count⟩ := loop
  induction d using Frame.Decoder.drain_attempts generalizing channel count with
  | found d hs ih =>
    obtain ⟨o, ho⟩ := Option.isSome_iff_exists.mp hs
    have houtcomes : d.drain.outcomes = o :: d.next.decoder.drain.outcomes := by
      rw [Frame.Decoder.drain_of_isSome hs]
      simp [Frame.Decoder.Drained.outcomes, ho]
    have hlast : d.drain.last = d.next.decoder.drain.last := by
      rw [Frame.Decoder.drain_of_isSome hs]
    simp only [houtcomes, hlast, handOn, Delivery.ofOutcomeOn?_eq]
    by_cases hr : o.overflows r = true
    · rw [workOff_of_error (Frame.Decoder.turnOn_of_overflows hp ho hr), if_pos hr]
      rfl
    · have hturn := Frame.Decoder.turnOn_of_not_overflows (r := r) hp fun o' ho' => by
        cases ho.symm.trans ho'
        exact Bool.eq_false_iff.mpr hr
      obtain ⟨step, events, hdeliver⟩ : ∃ (step : Loop) (events : List Event), ∀ decoder,
          Loop.deliver host { channel, decoder, count } (.ofOutcome o) =
            ({ step with decoder }, events) :=
        ⟨_, _, fun decoder => deliver_decoder host { channel, count } decoder (.ofOutcome o)⟩
      rw [ho, Option.map_some] at hturn
      rw [workOff_of_some hturn, if_neg hr]
      simp only [hdeliver, ih _ _ hp.next]
  | nothing d hs =>
    have hturn := Frame.Decoder.turnOn_of_not_overflows (r := r) hp fun o ho => by
      cases hs.symm.trans ho
    rw [hs, Option.map_none] at hturn
    rw [workOff_of_none hturn, Frame.Decoder.drain_of_eq_none hs]
    rfl

/-- Whatever is handed over, the decoder stays. -/
theorem handOn_decoder {outcomes : List Frame.Outcome} {next : Loop}
    (h : (loop.handOn r host outcomes).1 = some next) : next.decoder = loop.decoder := by
  induction outcomes generalizing loop with
  | nil =>
    cases h
    rfl
  | cons o outcomes ih =>
    rw [handOn] at h
    cases hd : Delivery.ofOutcomeOn? r o with
    | none =>
      rw [hd] at h
      cases h
    | some d =>
      rw [hd] at h
      exact (ih h).trans (by cases d <;> rfl)

theorem runAtRisk_eq (r : Json.Reader) (host : Host) (input : List Arrival) (loop : Loop)
    (hp : loop.decoder.Placed) :
    loop.runAtRisk r host input =
      (orOverflow (loop.runOn r host input).1, (loop.runOn r host input).2) := by
  induction input generalizing loop with
  | nil => rfl
  | cons arrival rest ih =>
    cases arrival with
    | failure e =>
      rw [runAtRisk, runOn]
      split <;> rfl
    | chunk bytes =>
      have hwork : { loop with decoder := loop.decoder.feed bytes }.workOff r host =
          (orOverflow (loop.chunkOn r host bytes).1, (loop.chunkOn r host bytes).2) :=
        workOff_eq r host _ (hp.feed bytes)
      rw [runAtRisk, runOn, hwork]
      split
      · rfl
      · cases hchunk : (loop.chunkOn r host bytes) with
        | mk next events =>
          cases next with
          | none => rfl
          | some next =>
            have hplaced : next.decoder.Placed := by
              rw [handOn_decoder (congrArg Prod.fst hchunk)]
              exact (hp.feed bytes).exhaust
            simp only [orOverflow, ih next hplaced]

end Loop

/-- `startOn` with everything at its own risk that is done to the input. -/
def startAtRisk (r : Json.Reader) (c : Channel) (host : Host) (input : List Arrival) :
    Except Breakdown Channel × List Event :=
  match c.enter? with
  | none => (.ok c, [])
  | some entered =>
    let (loop, events) := Loop.runAtRisk r host { channel := entered } input
    (loop.map (·.channel.leave), events)

/-- Nothing is thrown. -/
theorem startAtRisk_eq (r : Json.Reader) (c : Channel) (host : Host) (input : List Arrival) :
    c.startAtRisk r host input =
      (orOverflow (c.startOn r host input).1, (c.startOn r host input).2) := by
  unfold startAtRisk startOn
  cases c.enter? with
  | none => rfl
  | some entered =>
    simp only [Loop.runAtRisk_eq r host input { channel := entered } .empty]
    cases (Loop.runOn r host { channel := entered } input).1 <;> rfl

/-! ### A host that is not told of faults -/

def Event.isMessage : Event → Bool
  | .message .. => true
  | .fault _ => false

/-- The same host without a callback for faults. -/
def Host.deaf (host : Host) : Host := { host with wantsFaults := false }

theorem told_messages (host : Host) (f : ReadFault) :
    host.deaf.told f = (host.told f).filter Event.isMessage := by
  unfold Host.told Host.deaf
  cases host.wantsFaults <;> rfl

theorem Loop.deliver_deaf (loop : Loop) (d : Delivery) :
    loop.deliver host.deaf d =
      ((loop.deliver host d).1, (loop.deliver host d).2.filter Event.isMessage) := by
  cases d with
  | message m => rfl
  | fault f => exact congrArg (Prod.mk loop) (told_messages host (.frame f))

theorem Loop.handOn_deaf (loop : Loop) (outcomes : List Frame.Outcome) :
    loop.handOn r host.deaf outcomes =
      ((loop.handOn r host outcomes).1,
        (loop.handOn r host outcomes).2.filter Event.isMessage) := by
  induction outcomes generalizing loop with
  | nil => rfl
  | cons o outcomes ih =>
    rw [Loop.handOn, Loop.handOn]
    cases Delivery.ofOutcomeOn? r o with
    | none => rfl
    | some d => simp only [Loop.deliver_deaf, ih, List.filter_append]

theorem Loop.runOn_deaf (loop : Loop) (input : List Arrival) :
    loop.runOn r host.deaf input =
      ((loop.runOn r host input).1, (loop.runOn r host input).2.filter Event.isMessage) := by
  induction input generalizing loop with
  | nil => rfl
  | cons arrival rest ih =>
    cases arrival with
    | failure e =>
      rw [Loop.runOn, Loop.runOn, told_messages]
      split <;> rfl
    | chunk bytes =>
      rw [Loop.runOn, Loop.runOn]
      split
      · rfl
      · simp only [Loop.chunkOn, Loop.handOn_deaf]
        generalize Loop.handOn r host _ _ = handed
        obtain ⟨next, events⟩ := handed
        cases next with
        | none => rfl
        | some next => simp only [ih, List.filter_append]

theorem startOn_deaf (r : Json.Reader) (c : Channel) (host : Host) (input : List Arrival) :
    c.startOn r host.deaf input =
      ((c.startOn r host input).1, (c.startOn r host input).2.filter Event.isMessage) := by
  unfold startOn
  cases c.enter? with
  | none => rfl
  | some entered => simp only [Loop.runOn_deaf]

/-! ### All of it -/

/-- What can be relied on when a channel is read on a stack, whatever the server sends. -/
structure Enduring (r : Json.Reader) (c : Channel) (host : Host) : Prop where
  /-- Nothing is thrown in the loop, which ends unless the stack overflows, -/
  contained : ∀ input, c.startAtRisk r host input =
    (orOverflow (c.startOn r host input).1, (c.startOn r host input).2)
  /-- nor in it comes anything out of a decoder but the errors of header blocks, -/
  attempts : ∀ calls, (Decoder.run {} calls).decoder.attempt =
    (Decoder.run {} calls).decoder.next.attempt
  /-- or out of the reading of a body but a rejection, whatever the JSON reader makes of the body. -/
  bodies : ∀ reader raw, Reading.body reader raw = (Reading.parse reader raw).mapError .rejected
  /-- With room for all bodies that it gets to, the loop does what it does on a stack without end. -/
  sufficient : ∀ input, (∀ o ∈ c.taken host input, o.overflows r = false) →
    c.startOn r host input = (some (c.start host input).1, (c.start host input).2)
  /-- The first body that there is no room for ends the process. Before it there is one callback for
  each outcome of the decoder, in order. -/
  overflow : ∀ input before o after, c.taken host input = before ++ o :: after →
    (∀ b ∈ before, b.overflows r = false) → o.overflows r = true →
      (c.startOn r host input).1 = none ∧
        (host.wantsFaults = true → (c.startOn r host input).2.map Event.delivery? =
          before.map (some ∘ .ofOutcome))
  /-- There is room for a JSON text if there is room for the depth of its tree. -/
  room : ∀ raw tree, Json.IsText .strict raw tree → tree.IsFinite →
    ((Frame.Outcome.body raw).overflows r = true ↔ r.room < tree.depth)
  /-- The channel is left at the end. -/
  left : ∀ input channel, c.enter?.isSome → (c.startOn r host input).1 = some channel →
    channel.running = false ∧ channel.connected = false
  /-- The loop gets to every outcome of the decoder until the host shuts the channel down or the input
  ends, -/
  outcomes : c.enter?.isSome → ∀ chunks : List Bytes, ∃ read rest, chunks = read ++ rest ∧
    c.taken host (chunks.map .chunk) = (Decoder.feed {} read.flatten).exhaust.outcomes ∧
    (rest ≠ [] → (c.start host (chunks.map .chunk)).1.shutDown = true) ∧ (host.Calm → rest = [])
  /-- with one callback for each of them, in order. -/
  events : host.wantsFaults = true → ∀ chunks : List Bytes,
    (c.start host (chunks.map .chunk)).2.map Event.delivery? =
      (c.taken host (chunks.map .chunk)).map (some ∘ .ofOutcome)
  /-- The callback is a message if the body is one, and otherwise a fault of the frame. -/
  message : ∀ raw m, Delivery.ofOutcome (.body raw) = .message m ↔ Message.parse raw = .ok m
  fault : ∀ raw f, Delivery.ofOutcome (.body raw) = .fault f ↔
    ∃ e, Message.parse raw = .error e ∧ f = .body e
  header : ∀ e, Delivery.ofOutcome (.error e) = .fault (.header e)
  /-- No more outcomes than bytes. -/
  bounded : ∀ bytes, (Decoder.feed {} bytes).exhaust.outcomes.length ≤ bytes.length
  /-- A host that is not told of faults gets the same messages. -/
  deaf : ∀ input, c.startOn r host.deaf input =
    ((c.startOn r host input).1, (c.startOn r host input).2.filter Event.isMessage)

theorem ofOutcome_eq_message_iff {raw : Bytes} {m : Message} :
    Delivery.ofOutcome (.body raw) = .message m ↔ Message.parse raw = .ok m := by
  rw [Delivery.ofOutcome]
  cases Message.parse raw <;> simp

theorem ofOutcome_eq_fault_iff {raw : Bytes} {f : FrameFault} :
    Delivery.ofOutcome (.body raw) = .fault f ↔
      ∃ e, Message.parse raw = .error e ∧ f = .body e := by
  rw [Delivery.ofOutcome]
  cases Message.parse raw <;> simp [eq_comm]

/-- A calm host does not shut the channel down. -/
theorem start_calm {c entered : Channel} (he : c.enter? = some entered) (hc : host.Calm)
    (chunks : List Bytes) : (c.start host (chunks.map .chunk)).1.shutDown = false := by
  obtain ⟨hshut, rfl⟩ := enter?_eq_some he
  have hrunning : (Loop.channel { channel := { c with running := true, connected := true } }).running
      = true := rfl
  obtain ⟨hchannel, -⟩ :=
    Loop.run_chunks hc hrunning hshut .empty Frame.Decoder.next_empty chunks
  rw [start, he]
  exact (congrArg Channel.shutDown hchannel).trans hshut

/-- Nothing that a server sends ends the reading but a body that is too deep for the stack: every
other input is read to its end, and each frame in it and each header block without one is a callback of
its own. -/
theorem enduring (r : Json.Reader) (c : Channel) (host : Host) : Enduring r c host where
  contained := c.startAtRisk_eq r host
  attempts calls := Decoder.attempt_eq (Decoder.Placed.empty.run calls)
  bodies := Reading.body_eq
  sufficient _ := startOn_of_forall
  overflow _ _ _ _ := startOn_of_overflows
  room _ _ htext := Json.Reader.overflows_iff (Json.Tree.read?_of_isText htext)
  left input channel he h := by
    obtain ⟨entered, he⟩ := Option.isSome_iff_exists.mp he
    rw [startOn, he] at h
    obtain ⟨loop, -, rfl⟩ := Option.map_eq_some_iff.mp h
    exact ⟨rfl, rfl⟩
  outcomes he chunks := by
    obtain ⟨entered, he⟩ := Option.isSome_iff_exists.mp he
    obtain ⟨read, rest, rfl, hread, hrest⟩ :=
      @Loop.exists_taken_eq host { channel := entered } .empty Decoder.next_empty chunks
    have hshut : rest ≠ [] → (c.start host ((read ++ rest).map .chunk)).1.shutDown = true := by
      intro hne
      rw [start, he]
      exact hrest hne
    refine ⟨read, rest, rfl, ?_, hshut, fun hc => ?_⟩
    · rw [taken, he]
      exact hread
    · refine Decidable.byContradiction fun hne => ?_
      have hcalm := start_calm he hc (read ++ rest)
      rw [hshut hne] at hcalm
      cases hcalm
  events hf chunks := by
    unfold start taken
    cases c.enter? with
    | none => rfl
    | some entered => exact Loop.taken_events hf { channel := entered } chunks
  message _ _ := ofOutcome_eq_message_iff
  fault _ _ := ofOutcome_eq_fault_iff
  header _ := rfl
  bounded bytes := by
    have hle := (Decoder.feed {} bytes).length_outcomes_le
    simpa [Decoder.buffered, Decoder.feed] using hle
  deaf := c.startOn_deaf r host

/-- A frame with too many arrays inside one another ends the process. -/
theorem startOn_nestedText {n : Nat} (hroom : r.room ≤ n)
    (hlt : (Json.nestedText (n + 1)).length < UInt64.size) :
    startOn r {} {} [.chunk (Frame.encode (Json.nestedText (n + 1)))] = (none, []) := by
  have htaken : taken {} {} [.chunk (Frame.encode (Json.nestedText (n + 1)))] =
      [] ++ Frame.Outcome.body (Json.nestedText (n + 1)) :: [] := by
    have hpos : 0 < (Json.nestedText (n + 1)).length := by
      rw [Json.nestedText, List.length_append, List.length_replicate]
      omega
    obtain ⟨houtcomes, -⟩ := Decoder.exhaust_encode hpos hlt []
    rw [List.append_nil, Decoder.exhaust_of_next_eq Decoder.next_empty] at houtcomes
    exact (List.append_nil _).trans houtcomes
  obtain ⟨hnone, hevents⟩ :=
    startOn_of_overflows htaken (List.forall_mem_nil _) (Json.Reader.overflows_nestedText hroom)
  exact Prod.ext hnone (List.map_eq_nil_iff.mp (hevents rfl))

theorem startOn_millionArrays :
    startOn .usual {} {} [.chunk (Frame.encode (Json.nestedText 1000000))] = (none, []) := by
  refine startOn_nestedText (n := 999999) (by decide) ?_
  rw [Json.nestedText, List.length_append, List.length_replicate, List.length_replicate]
  decide

end Channel

end LanguageClient
