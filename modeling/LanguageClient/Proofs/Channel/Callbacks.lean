import LanguageClient.Proofs.Channel.Aftermath
import LanguageClient.Proofs.Channel.Endurance

/-!
# Inside a callback

A host may shut a channel down in a callback, or start it once more. `Callback` is a callback with
the channel that the host finds in it and with what the host does there, and `unread` is what a loop
leaves in its pipe. A loop that is shut down works off the chunk in which the message came whose
callback did it, and reads no other (`Loop.run_cut`); a nested start does nothing (`Barred`).
`loopLife_after` says this of a channel with any history.
-/

namespace LanguageClient.Channel

open Frame (Decoder)
open Frame.Decoder (exhaust feed)

structure Callback where
  event : Event
  /-- The channel as the host finds it. -/
  channel : Channel
  /-- What the host does, in order. -/
  reactions : List Reaction

variable {c : Channel} {host : Host} {loop : Loop} {k : Nat}

/-! ### What a loop hands over and what it leaves -/

namespace Loop

/-- The callbacks for one delivery. -/
def callback (host : Host) (loop : Loop) (d : Delivery) : List Callback :=
  (loop.deliver host d).2.map fun event =>
    { event
      channel := loop.channel
      reactions :=
        match d with
        | .message _ => host.onMessage (loop.count + 1)
        | .fault _ => [] }

def callbackAll (host : Host) (loop : Loop) : List Delivery → List Callback
  | [] => []
  | d :: ds => loop.callback host d ++ (loop.deliver host d).1.callbackAll host ds

def callbacks (host : Host) (loop : Loop) : List Arrival → List Callback
  | [] => []
  | arrival :: rest =>
    if loop.channel.shutDown then []
    else
      match arrival with
      | .failure e =>
        (host.told (.transport e)).map fun event =>
          { event, channel := loop.channel, reactions := [] }
      | .chunk bytes =>
        let drained := (loop.decoder.feed bytes).drain
        { loop with decoder := drained.last.decoder }.callbackAll host (deliveries drained) ++
          (loop.chunk host bytes).1.callbacks host rest

/-- What is not read. -/
def unread (host : Host) (loop : Loop) : List Arrival → List Arrival
  | [] => []
  | arrival :: rest =>
    if loop.channel.shutDown then arrival :: rest
    else
      match arrival with
      | .failure _ => rest
      | .chunk bytes => (loop.chunk host bytes).1.unread host rest

end Loop

/-- The loop of a start that is not barred. -/
def inner (c : Channel) : Loop := { channel := { c with running := true, connected := true } }

def callbacks (c : Channel) (host : Host) (input : List Arrival) : List Callback :=
  match c.enter? with
  | none => []
  | some entered => Loop.callbacks host { channel := entered } input

def unread (c : Channel) (host : Host) (input : List Arrival) : List Arrival :=
  match c.enter? with
  | none => input
  | some entered => Loop.unread host { channel := entered } input

theorem Loop.event_callback (host : Host) (loop : Loop) (d : Delivery) :
    (loop.callback host d).map Callback.event = (loop.deliver host d).2 := by
  simp [callback, Function.comp_def]

theorem Loop.event_callbackAll (host : Host) (loop : Loop) (ds : List Delivery) :
    (loop.callbackAll host ds).map Callback.event = (loop.deliverAll host ds).2 := by
  induction ds generalizing loop with
  | nil => rfl
  | cons d ds ih => rw [callbackAll, List.map_append, event_callback, ih, deliverAll]

theorem Loop.event_callbacks (host : Host) (loop : Loop) (input : List Arrival) :
    (loop.callbacks host input).map Callback.event = (loop.run host input).2 := by
  induction input generalizing loop with
  | nil => rfl
  | cons arrival rest ih =>
    cases arrival with
    | failure e =>
      rw [Loop.callbacks, Loop.run]
      split
      · rfl
      · simp [Function.comp_def]
    | chunk bytes =>
      rw [Loop.callbacks, Loop.run]
      split
      · rfl
      · simp only [List.map_append, event_callbackAll, ih]
        rfl

theorem event_callbacks (c : Channel) (host : Host) (input : List Arrival) :
    (c.callbacks host input).map Callback.event = (c.start host input).2 := by
  unfold callbacks start
  cases c.enter? with
  | none => rfl
  | some entered => exact Loop.event_callbacks host { channel := entered } input

/-! ### The channel in a callback -/

/-- A start does nothing: it hands nothing over, reads nothing and leaves all flags. -/
def Barred (c : Channel) : Prop :=
  ∀ host input, c.start host input = (c, []) ∧ c.unread host input = input

theorem barred_of_running (hr : c.running = true) : c.Barred := by
  intro host input
  simp [start, unread, enter?, hr]

theorem barred_of_shutDown (hs : c.shutDown = true) : c.Barred := by
  intro host input
  simp [start, unread, enter?, hs]

theorem running_foldl_react (hr : c.running = true) (reactions : List Reaction) :
    (reactions.foldl react c).running = true := by
  rw [foldl_react hr]
  split <;> exact hr

/-- Each callback finds the channel as the one before has left it; `n` messages came before them,
and `m` with them. -/
inductive Chain (host : Host) : Channel → Nat → List Callback → Channel → Nat → Prop
  | nil {c n} : Chain host c n [] c n
  | message {c d n m rest} (msg : Message) :
    Chain host ((host.onMessage (n + 1)).foldl react c) (n + 1) rest d m →
    Chain host c n (⟨.message msg c.connected, c, host.onMessage (n + 1)⟩ :: rest) d m
  | fault {c d n m rest} (f : ReadFault) :
    Chain host c n rest d m → Chain host c n (⟨.fault f, c, []⟩ :: rest) d m

namespace Chain

variable {d e : Channel} {n m l : Nat} {cbs more : List Callback}

theorem append (h : Chain host c n cbs d m) (hmore : Chain host d m more e l) :
    Chain host c n (cbs ++ more) e l := by
  induction h with
  | nil => exact hmore
  | message msg _ ih => exact .message msg (ih hmore)
  | fault f _ ih => exact .fault f (ih hmore)

theorem last (h : Chain host c n cbs d m) : d = (cbs.flatMap (·.reactions)).foldl react c := by
  induction h with
  | nil => rfl
  | message msg _ ih =>
    rw [List.flatMap_cons, List.foldl_append]
    exact ih
  | fault f _ ih => exact ih

/-- A callback in a chain finds what all reactions before it have made of the channel. -/
theorem at_callback (h : Chain host c n (cbs ++ more) e l) :
    Chain host ((cbs.flatMap (·.reactions)).foldl react c) (n + cbs.countP (·.event.isMessage))
      more e l := by
  induction cbs generalizing c n with
  | nil => exact h
  | cons cb cbs ih =>
    rw [List.flatMap_cons, List.foldl_append, List.countP_cons]
    cases h with
    | message msg hrest =>
      have hcount : n + (cbs.countP (·.event.isMessage) + 1) =
          n + 1 + cbs.countP (·.event.isMessage) := by omega
      change Chain host _ (n + (cbs.countP (·.event.isMessage) + 1)) more e l
      rw [hcount]
      exact ih hrest
    | fault f hrest => exact ih hrest

end Chain

theorem Loop.chain_told (host : Host) (c : Channel) (n : Nat) (f : ReadFault) :
    Chain host c n ((host.told f).map fun event => { event, channel := c, reactions := [] })
      c n := by
  unfold Host.told
  split
  · exact .fault f .nil
  · exact .nil

theorem Loop.chain_callback (host : Host) (loop : Loop) (d : Delivery) :
    Chain host loop.channel loop.count (loop.callback host d)
      (loop.deliver host d).1.channel (loop.deliver host d).1.count := by
  cases d with
  | message msg => exact .message msg .nil
  | fault f => exact chain_told host loop.channel loop.count (.frame f)

theorem Loop.chain_callbackAll (host : Host) (loop : Loop) (ds : List Delivery) :
    Chain host loop.channel loop.count (loop.callbackAll host ds)
      (loop.deliverAll host ds).1.channel (loop.deliverAll host ds).1.count := by
  induction ds generalizing loop with
  | nil => exact .nil
  | cons d ds ih => exact (loop.chain_callback host d).append (ih _)

theorem Loop.chain_callbacks (host : Host) (loop : Loop) (input : List Arrival) :
    Chain host loop.channel loop.count (loop.callbacks host input)
      (loop.run host input).1.channel (loop.run host input).1.count := by
  induction input generalizing loop with
  | nil => exact .nil
  | cons arrival rest ih =>
    cases arrival with
    | failure e =>
      rw [Loop.callbacks, Loop.run]
      split
      · exact .nil
      · exact chain_told host loop.channel loop.count (.transport e)
    | chunk bytes =>
      rw [Loop.callbacks, Loop.run]
      split
      · exact .nil
      · exact (chain_callbackAll host _ _).append (ih (loop.chunk host bytes).1)

/-- A callback that comes after others, in a loop that is inside. -/
structure Inside (host : Host) (before : List Callback) (cb : Callback) : Prop where
  /-- The host does in the callback for its n-th message what it does for that, -/
  reactions : cb.reactions =
    if cb.event.isMessage then host.onMessage (before.countP (·.event.isMessage) + 1) else []
  /-- and is told with a message what it would find. -/
  flag : ∀ m connected, cb.event = .message m connected → connected = cb.channel.connected
  /-- Whatever it has done so far, the channel is connected unless it was shut down, -/
  connected : ∀ done : List Reaction, (done.foldl react cb.channel).connected = true ↔
    .shutdown ∉ before.flatMap (·.reactions) ++ done
  /-- and a nested start does nothing. -/
  nested : ∀ done : List Reaction, (done.foldl react cb.channel).Barred

theorem Chain.inside {d : Channel} {m : Nat} {cb : Callback} {before after : List Callback}
    (h : Chain host c 0 (before ++ cb :: after) d m) (hr : c.running = true)
    (hc : c.connected = true) : Inside host before cb := by
  have hcb := h.at_callback
  rw [Nat.zero_add] at hcb
  have hchannel : cb.channel = (before.flatMap (·.reactions)).foldl react c := by cases hcb <;> rfl
  have hdone (done : List Reaction) : done.foldl react cb.channel =
      (before.flatMap (·.reactions) ++ done).foldl react c := by
    rw [hchannel, List.foldl_append]
  refine ⟨?_, ?_, fun done => ?_, fun done => ?_⟩
  · cases hcb <;> rfl
  · intro msg connected hevent
    cases hcb <;> cases hevent
    rfl
  · rw [hdone, foldl_react hr]
    split
    · rename_i hmem
      exact ⟨nofun, fun hnot => absurd hmem hnot⟩
    · rename_i hnot
      exact ⟨fun _ => hnot, fun _ => hc⟩
  · rw [hdone]
    exact barred_of_running (running_foldl_react hr _)

theorem inside_callbacks {input : List Arrival} {before after : List Callback} {cb : Callback}
    (h : c.callbacks host input = before ++ cb :: after) : Inside host before cb := by
  unfold callbacks at h
  split at h
  · exact absurd h (by simp)
  · rename_i entered he
    obtain ⟨-, rfl⟩ := enter?_eq_some he
    change c.inner.callbacks host input = before ++ cb :: after at h
    have hchain := Loop.chain_callbacks host c.inner input
    rw [h] at hchain
    exact hchain.inside rfl rfl

/-- A shutdown in a callback is found when the start has returned. -/
theorem shutDown_start_of_mem {input : List Arrival}
    (h : .shutdown ∈ (c.callbacks host input).flatMap (·.reactions)) :
    (c.start host input).1.shutDown = true := by
  unfold callbacks at h
  split at h
  · cases h
  · rename_i entered he
    obtain ⟨-, rfl⟩ := enter?_eq_some he
    change .shutdown ∈ (c.inner.callbacks host input).flatMap (·.reactions) at h
    have hlast := (Loop.chain_callbacks host c.inner input).last
    rw [foldl_react rfl, if_pos h] at hlast
    rw [start, he]
    exact congrArg Channel.shutDown hlast

/-! ### Nested starts may be left out -/

/-- The same host without its nested starts. -/
def Host.withoutStarts (host : Host) : Host :=
  { host with onMessage := fun n => (host.onMessage n).filter (· ≠ .start) }

theorem Loop.deliver_withoutStarts (hr : loop.channel.running = true) (d : Delivery) :
    loop.deliver host.withoutStarts d = loop.deliver host d := by
  cases d with
  | message m =>
    have hchannel : (host.withoutStarts.onMessage (loop.count + 1)).foldl react loop.channel =
        (host.onMessage (loop.count + 1)).foldl react loop.channel := by
      rw [foldl_react hr, foldl_react hr]
      simp [Host.withoutStarts]
    simp only [deliver, hchannel]
  | fault f => rfl

theorem Loop.running_deliver (hr : loop.channel.running = true) (d : Delivery) :
    (loop.deliver host d).1.channel.running = true := by
  cases d with
  | message m => exact running_foldl_react hr _
  | fault f => exact hr

theorem Loop.running_deliverAll (hr : loop.channel.running = true) (ds : List Delivery) :
    (loop.deliverAll host ds).1.channel.running = true := by
  induction ds generalizing loop with
  | nil => exact hr
  | cons d ds ih => exact ih (running_deliver hr d)

theorem Loop.deliverAll_withoutStarts (hr : loop.channel.running = true) (ds : List Delivery) :
    loop.deliverAll host.withoutStarts ds = loop.deliverAll host ds := by
  induction ds generalizing loop with
  | nil => rfl
  | cons d ds ih =>
    rw [deliverAll, deliverAll, deliver_withoutStarts hr]
    simp only [ih (running_deliver hr d)]

theorem Loop.run_withoutStarts (hr : loop.channel.running = true) (input : List Arrival) :
    loop.run host.withoutStarts input = loop.run host input ∧
      loop.unread host.withoutStarts input = loop.unread host input := by
  induction input generalizing loop with
  | nil => exact ⟨rfl, rfl⟩
  | cons arrival rest ih =>
    cases arrival with
    | failure e => exact ⟨rfl, rfl⟩
    | chunk bytes =>
      have hchunk : loop.chunk host.withoutStarts bytes = loop.chunk host bytes :=
        deliverAll_withoutStarts (show { loop with decoder := _ }.channel.running = true from hr) _
      have hrunning : (loop.chunk host bytes).1.channel.running = true :=
        running_deliverAll (show { loop with decoder := _ }.channel.running = true from hr) _
      obtain ⟨hrun, hunread⟩ := ih hrunning
      rw [Loop.run, Loop.run, Loop.unread, Loop.unread]
      simp only [hchunk, hrun, hunread, and_self]

theorem start_withoutStarts (c : Channel) (host : Host) (input : List Arrival) :
    c.start host.withoutStarts input = c.start host input ∧
      c.unread host.withoutStarts input = c.unread host input := by
  unfold start unread
  cases he : c.enter? with
  | none => exact ⟨rfl, rfl⟩
  | some entered =>
    obtain ⟨-, rfl⟩ := enter?_eq_some he
    have hsame : c.inner.run host.withoutStarts input = c.inner.run host input ∧
        c.inner.unread host.withoutStarts input = c.inner.unread host input :=
      Loop.run_withoutStarts rfl input
    simp only [inner] at hsame
    simp only [hsame, and_self]

/-! ### Where a loop stops -/

def Delivery.isMessage : Delivery → Bool
  | .message _ => true
  | .fault _ => false

/-- What comes out of a decoder that gets some chunks. -/
def yielded (d : Decoder) (chunks : List Bytes) : List Delivery :=
  deliveries (d.feed chunks.flatten).drain

def messages (d : Decoder) (chunks : List Bytes) : Nat :=
  (yielded d chunks).countP Delivery.isMessage

theorem yielded_nil {d : Decoder} (hn : d.next = ⟨d, none, []⟩) : yielded d [] = [] := by
  rw [yielded, List.flatten_nil, Decoder.feed_nil, Decoder.drain_of_eq_none (congrArg _ hn)]
  rfl

theorem yielded_append {d : Decoder} (hp : d.Placed) (chunks more : List Bytes) :
    yielded d (chunks ++ more) =
      yielded d chunks ++ yielded (d.feed chunks.flatten).exhaust.decoder more := by
  have houtcomes (e : Decoder) : deliveries e.drain = e.exhaust.outcomes.map Delivery.ofOutcome :=
    rfl
  unfold yielded
  rw [List.flatten_append, ← Decoder.feed_feed, houtcomes, Decoder.exhaust_feed (hp.feed _)]
  exact List.map_append

theorem messages_nil {d : Decoder} (hn : d.next = ⟨d, none, []⟩) : messages d [] = 0 := by
  rw [messages, yielded_nil hn]
  rfl

/-- The host shuts the channel down in the callback for its k-th message, and not before. -/
structure Host.ShutsDownAt (host : Host) (k : Nat) : Prop where
  pos : 0 < k
  shutdown : .shutdown ∈ host.onMessage k
  before : ∀ n < k, .shutdown ∉ host.onMessage n

/-- The shortest part of the chunks that is enough, or all of them if none is. -/
structure CutWhere (enough : List Bytes → Prop) (chunks read rest : List Bytes) : Prop where
  append : chunks = read ++ rest
  reached : rest ≠ [] → enough read
  shortest : ∀ before last, read = before ++ [last] → ¬ enough before

theorem CutWhere.cons {enough : List Bytes → Prop} {bytes : Bytes} {chunks read rest : List Bytes}
    (h : CutWhere (fun read => enough (bytes :: read)) chunks read rest) (hnil : ¬ enough []) :
    CutWhere enough (bytes :: chunks) (bytes :: read) rest where
  append := congrArg (bytes :: ·) h.append
  reached := h.reached
  shortest before last heq := by
    cases before with
    | nil => exact hnil
    | cons first before =>
      obtain ⟨rfl, hread⟩ := List.cons.inj heq
      exact h.shortest before last hread

/-- A loop that is inside, and shut down once it has handed over `k` messages. -/
structure ShutAt (k : Nat) (loop : Loop) : Prop where
  running : loop.channel.running = true
  shutDown : loop.channel.shutDown = true ↔ k ≤ loop.count

theorem ShutAt.deliver (h : ShutAt k loop) (hk : host.ShutsDownAt k) (d : Delivery) :
    ShutAt k (loop.deliver host d).1 where
  running := Loop.running_deliver h.running d
  shutDown := by
    cases d with
    | fault f => exact h.shutDown
    | message m =>
      change ((host.onMessage (loop.count + 1)).foldl react loop.channel).shutDown = true ↔
        k ≤ loop.count + 1
      rw [foldl_react h.running]
      rcases Nat.lt_trichotomy (loop.count + 1) k with hlt | rfl | hgt
      · rw [if_neg (hk.before _ hlt), h.shutDown]
        omega
      · simp [hk.shutdown, shutdown]
      · have hshut := h.shutDown.mpr (by omega)
        have hle : k ≤ loop.count + 1 := by omega
        split
        · exact iff_of_true rfl hle
        · exact iff_of_true hshut hle

theorem ShutAt.deliverAll (h : ShutAt k loop) (hk : host.ShutsDownAt k) (ds : List Delivery) :
    ShutAt k (loop.deliverAll host ds).1 := by
  induction ds generalizing loop with
  | nil => exact h
  | cons d ds ih => exact ih (h.deliver hk d)

theorem ShutAt.chunk (h : ShutAt k loop) (hk : host.ShutsDownAt k) (bytes : Bytes) :
    ShutAt k (loop.chunk host bytes).1 :=
  have hdrained : ShutAt k { loop with decoder := (loop.decoder.feed bytes).drain.last.decoder } :=
    ⟨h.running, h.shutDown⟩
  hdrained.deliverAll hk _

theorem Loop.count_deliverAll (host : Host) (loop : Loop) (ds : List Delivery) :
    (loop.deliverAll host ds).1.count = loop.count + ds.countP Delivery.isMessage := by
  induction ds generalizing loop with
  | nil => rfl
  | cons d ds ih =>
    rw [Loop.deliverAll, List.countP_cons]
    refine (ih _).trans ?_
    cases d with
    | message m =>
      simp only [Loop.deliver, Delivery.isMessage, if_true]
      omega
    | fault f => rfl

/-- What is handed over, but for the flags, does not depend on the reactions of the host. -/
theorem Loop.delivery?_deliverAll (host : Host) (loop : Loop) (ds : List Delivery) :
    (loop.deliverAll host ds).2.map Event.delivery? =
      (ds.flatMap (·.events host true)).map Event.delivery? := by
  induction ds generalizing loop with
  | nil => rfl
  | cons d ds ih =>
    have hdeliver : (loop.deliver host d).2.map Event.delivery? =
        (d.events host true).map Event.delivery? := by cases d <;> rfl
    rw [Loop.deliverAll, List.map_append, List.flatMap_cons, List.map_append, ih, hdeliver]

theorem Loop.delivery?_chunk (host : Host) (loop : Loop) (bytes : Bytes) :
    (loop.chunk host bytes).2.map Event.delivery? =
      ((yielded loop.decoder [bytes]).flatMap (·.events host true)).map Event.delivery? := by
  rw [yielded, List.flatten_singleton]
  exact delivery?_deliverAll host _ _

/-- What a stream yields behind its first chunk, the loop behind that chunk finds. -/
theorem Loop.yielded_chunk (host : Host) (hp : loop.decoder.Placed) (bytes : Bytes)
    (chunks : List Bytes) :
    yielded loop.decoder (bytes :: chunks) =
      yielded loop.decoder [bytes] ++ yielded (loop.chunk host bytes).1.decoder chunks := by
  have happend := yielded_append hp [bytes] chunks
  rw [List.flatten_singleton, ← decoder_chunk host loop bytes] at happend
  exact happend

theorem Loop.count_chunk (host : Host) (hp : loop.decoder.Placed) (bytes : Bytes)
    (chunks : List Bytes) :
    (loop.chunk host bytes).1.count + messages (loop.chunk host bytes).1.decoder chunks =
      loop.count + messages loop.decoder (bytes :: chunks) := by
  have hcount : (loop.chunk host bytes).1.count =
      loop.count + (yielded loop.decoder [bytes]).countP Delivery.isMessage := by
    rw [yielded, List.flatten_singleton]
    exact count_deliverAll host _ _
  rw [hcount, Nat.add_assoc, messages, messages, yielded_chunk host hp bytes chunks,
    List.countP_append]

/-- A loop reads the chunks up to the one in which the k-th message comes, and hands over all that
is in them. -/
theorem Loop.run_cut (hk : host.ShutsDownAt k) (hl : ShutAt k loop) (hp : loop.decoder.Placed)
    (hn : loop.decoder.next = ⟨loop.decoder, none, []⟩) (chunks : List Bytes) :
    ∃ read rest,
      CutWhere (fun read => k ≤ loop.count + messages loop.decoder read) chunks read rest ∧
      (loop.run host (chunks.map .chunk)).2.map Event.delivery? =
        ((yielded loop.decoder read).flatMap (·.events host true)).map Event.delivery? ∧
      loop.unread host (chunks.map .chunk) = rest.map .chunk ∧
      ((loop.run host (chunks.map .chunk)).1.channel.shutDown = true ↔
        k ≤ loop.count + messages loop.decoder read) := by
  induction chunks generalizing loop with
  | nil =>
    refine ⟨[], [], ⟨rfl, nofun, by simp⟩, ?_, rfl, ?_⟩
    · rw [yielded_nil hn]
      rfl
    · rw [messages_nil hn]
      exact hl.shutDown
  | cons bytes chunks ih =>
    rw [List.map_cons, Loop.run, Loop.unread]
    by_cases hs : loop.channel.shutDown = true
    · have hle : k ≤ loop.count + messages loop.decoder [] :=
        Nat.le_add_right_of_le (hl.shutDown.mp hs)
      refine ⟨[], bytes :: chunks, ⟨rfl, fun _ => hle, by simp⟩, ?_, if_pos hs, ?_⟩
      · rw [if_pos hs, yielded_nil hn]
        rfl
      · rw [if_pos hs]
        exact iff_of_true hs hle
    · have hnot : ¬ k ≤ loop.count + messages loop.decoder [] := by
        rw [messages_nil hn]
        exact fun hle => hs (hl.shutDown.mpr hle)
      rw [if_neg hs, if_neg hs]
      have hfed := hp.feed bytes
      have hdecoder := Loop.decoder_chunk host loop bytes
      obtain ⟨read, rest, hcut, hread, hunread, hfinal⟩ := ih (hl.chunk hk bytes)
        (hdecoder ▸ hfed.exhaust) (hdecoder ▸ Decoder.next_decoder_exhaust hfed)
      simp only [Loop.count_chunk host hp bytes] at hcut hfinal
      refine ⟨bytes :: read, rest, hcut.cons hnot, ?_, hunread, hfinal⟩
      change ((loop.chunk host bytes).2 ++ _).map Event.delivery? = _
      rw [Loop.yielded_chunk host hp bytes read, List.flatMap_append, List.map_append,
        List.map_append, Loop.delivery?_chunk, hread]

/-- Behind a shutdown nothing counts. -/
theorem Loop.run_append {input : List Arrival}
    (h : (loop.run host input).1.channel.shutDown = true) (more : List Arrival) :
    loop.run host (input ++ more) = loop.run host input ∧
      loop.unread host (input ++ more) = loop.unread host input ++ more := by
  induction input generalizing loop with
  | nil =>
    have hs : loop.channel.shutDown = true := h
    cases more with
    | nil => exact ⟨rfl, rfl⟩
    | cons arrival more => exact ⟨if_pos hs, if_pos hs⟩
  | cons arrival input ih =>
    by_cases hs : loop.channel.shutDown = true
    · have hunread (rest : List Arrival) : loop.unread host (arrival :: rest) = arrival :: rest :=
        if_pos hs
      refine ⟨(if_pos hs).trans (if_pos hs).symm, ?_⟩
      rw [List.cons_append, hunread, hunread]
      rfl
    · cases arrival with
      | failure e =>
        rw [Loop.run, if_neg hs] at h
        exact absurd h hs
      | chunk bytes =>
        rw [Loop.run, if_neg hs] at h
        have hchunk : ((loop.chunk host bytes).1.run host input).1.channel.shutDown = true := h
        obtain ⟨hrun, hunread⟩ := ih hchunk
        rw [List.cons_append, Loop.run, Loop.run, Loop.unread, Loop.unread]
        simp only [if_neg hs, hrun, hunread, and_self]

theorem Loop.unread_eq_nil {chunks : List Bytes}
    (h : (loop.run host (chunks.map .chunk)).1.channel.shutDown = false) :
    loop.unread host (chunks.map .chunk) = [] := by
  induction chunks generalizing loop with
  | nil => rfl
  | cons bytes chunks ih =>
    rw [List.map_cons, Loop.run] at h
    rw [List.map_cons, Loop.unread]
    split
    · rename_i hs
      rw [if_pos hs, hs] at h
      cases h
    · rename_i hs
      rw [if_neg hs] at h
      exact ih h

/-! ### The uses of a channel -/

inductive Use where
  | start (host : Host) (input : List Arrival)
  | shutdown
  | closeInput
  | send (m : Message) (lock : Lock) (answers : List Answer)

def use (c : Channel) : Use → Channel
  | .start host input => (c.start host input).1
  | .shutdown => c.shutdown
  | .closeInput => c.closeInput
  | .send m lock answers => (c.send m lock answers).channel

def after (c : Channel) (uses : List Use) : Channel := uses.foldl use c

/-- Nobody is inside the read loop. -/
structure Idle (c : Channel) : Prop where
  running : c.running = false
  connected : c.connected = false

theorem Idle.use (h : c.Idle) (u : Use) : (c.use u).Idle := by
  cases u with
  | start host input =>
    change (c.start host input).1.Idle
    unfold start
    cases c.enter? with
    | none => exact h
    | some entered => exact ⟨rfl, rfl⟩
  | shutdown => exact ⟨h.running, rfl⟩
  | closeInput => exact ⟨h.running, h.connected⟩
  | send m lock answers =>
    change (c.send m lock answers).channel.Idle
    rcases send_channel c m lock answers with hc | hc <;> rw [hc]
    · exact h
    · exact ⟨h.running, h.connected⟩

theorem Idle.after (h : c.Idle) (uses : List Use) : (c.after uses).Idle := by
  induction uses generalizing c with
  | nil => exact h
  | cons u uses ih => exact ih (h.use u)

theorem shutDown_use (hs : c.shutDown = true) (u : Use) : (c.use u).shutDown = true := by
  cases u with
  | start host input =>
    change (c.start host input).1.shutDown = true
    rw [(barred_of_shutDown hs host input).1]
    exact hs
  | shutdown => rfl
  | closeInput => exact hs
  | send m lock answers =>
    change (c.send m lock answers).channel.shutDown = true
    rcases send_channel c m lock answers with hc | hc <;> rw [hc] <;> exact hs

theorem shutDown_after (hs : c.shutDown = true) (uses : List Use) :
    (c.after uses).shutDown = true := by
  induction uses generalizing c with
  | nil => exact hs
  | cons u uses ih => exact ih (shutDown_use hs u)

theorem Idle.start_eq (h : c.Idle) (hs : c.shutDown = false) (host : Host) (input : List Arrival) :
    c.start host input =
      ((c.inner.run host input).1.channel.leave, (c.inner.run host input).2) := by
  simp [start, enter?, h.running, hs, inner]

theorem Idle.unread_eq (h : c.Idle) (hs : c.shutDown = false) (host : Host)
    (input : List Arrival) : c.unread host input = c.inner.unread host input := by
  simp [unread, enter?, h.running, hs, inner]

theorem shutAt_inner (hs : c.shutDown = false) (hk : 0 < k) : ShutAt k c.inner where
  running := rfl
  shutDown := by
    change c.shutDown = true ↔ k ≤ 0
    rw [hs]
    exact iff_of_false nofun (Nat.not_le_of_gt hk)

/-! ### All of it -/

/-- The read loop of a channel from its start to its end, for every host and every input. -/
structure LoopLife (c : Channel) : Prop where
  /-- Outside of a start, the channel is not connected. -/
  idle : c.Idle
  /-- Behind a shutdown, whatever is done then, every start does nothing, -/
  shutdown : ∀ more, (c.shutdown.after more).connected = false ∧ (c.shutdown.after more).Barred
  /-- also if it was in a callback. -/
  shutdown_inside : ∀ host input, .shutdown ∈ (c.callbacks host input).flatMap (·.reactions) →
    ∀ more, ((c.start host input).1.after more).connected = false ∧
      ((c.start host input).1.after more).Barred
  /-- In every callback the channel is connected until it is shut down, and a start does nothing. -/
  events : ∀ host input, (c.callbacks host input).map Callback.event = (c.start host input).2
  inside : ∀ host input before cb after, c.callbacks host input = before ++ cb :: after →
    Inside host before cb
  /-- So it all is as if there were no nested start. -/
  nested : ∀ host input, c.start host.withoutStarts input = c.start host input ∧
    c.unread host.withoutStarts input = c.unread host input
  /-- A host that does not shut the channel down gets all of the stream. -/
  calm : ∀ host (chunks : List Bytes), host.Calm → c.shutDown = false →
    (c.start host (chunks.map .chunk)).2 =
      outcomeEvents host true (feed {} chunks.flatten).exhaust.outcomes ∧
    c.unread host (chunks.map .chunk) = []
  /-- One that does so in the callback for its k-th message gets what is in the chunks up to the one
  in which that comes, and no chunk behind them is read, -/
  cut : ∀ host k (chunks : List Bytes), host.ShutsDownAt k → c.shutDown = false →
    ∃ read rest, CutWhere (fun read => k ≤ messages {} read) chunks read rest ∧
      (c.start host (chunks.map .chunk)).2.map Event.delivery? =
        ((yielded {} read).flatMap (·.events host true)).map Event.delivery? ∧
      c.unread host (chunks.map .chunk) = rest.map .chunk
  /-- nor is anything else that may come. -/
  further : ∀ host k (chunks : List Bytes) more, host.ShutsDownAt k → c.shutDown = false →
    k ≤ messages {} chunks →
    c.start host (chunks.map .chunk ++ more) = c.start host (chunks.map .chunk) ∧
    c.unread host (chunks.map .chunk ++ more) = c.unread host (chunks.map .chunk) ++ more
  /-- What it gets is the beginning of what the other one gets. -/
  beginning : ∀ host other k (chunks : List Bytes), host.ShutsDownAt k → other.Calm →
    other.wantsFaults = host.wantsFaults → c.shutDown = false →
    (c.start host (chunks.map .chunk)).2.map Event.delivery? <+:
      (c.start other (chunks.map .chunk)).2.map Event.delivery?

theorem Idle.calm (h : c.Idle) (hs : c.shutDown = false) (hc : host.Calm) (chunks : List Bytes) :
    (c.start host (chunks.map .chunk)).2 =
      outcomeEvents host true (feed {} chunks.flatten).exhaust.outcomes ∧
    c.unread host (chunks.map .chunk) = [] := by
  obtain ⟨hchannel, -, hevents⟩ :=
    Loop.run_chunks hc (show c.inner.channel.running = true from rfl) hs .empty Decoder.next_empty
      chunks
  rw [h.start_eq hs, h.unread_eq hs]
  refine ⟨hevents, Loop.unread_eq_nil ?_⟩
  rw [hchannel]
  exact hs

theorem Idle.cut (h : c.Idle) (hs : c.shutDown = false) (hk : host.ShutsDownAt k)
    (chunks : List Bytes) :
    ∃ read rest, CutWhere (fun read => k ≤ messages {} read) chunks read rest ∧
      (c.start host (chunks.map .chunk)).2.map Event.delivery? =
        ((yielded {} read).flatMap (·.events host true)).map Event.delivery? ∧
      c.unread host (chunks.map .chunk) = rest.map .chunk ∧
      ((c.inner.run host (chunks.map .chunk)).1.channel.shutDown = true ↔
        k ≤ messages {} read) := by
  have hcut := Loop.run_cut hk (shutAt_inner hs hk.pos) .empty Decoder.next_empty chunks
  have hcount (read : List Bytes) :
      c.inner.count + messages c.inner.decoder read = messages {} read := Nat.zero_add _
  simp only [hcount] at hcut
  rw [h.start_eq hs, h.unread_eq hs]
  exact hcut

theorem Idle.further (h : c.Idle) (hs : c.shutDown = false) (hk : host.ShutsDownAt k)
    {chunks : List Bytes} (hle : k ≤ messages {} chunks) (more : List Arrival) :
    c.start host (chunks.map .chunk ++ more) = c.start host (chunks.map .chunk) ∧
    c.unread host (chunks.map .chunk ++ more) = c.unread host (chunks.map .chunk) ++ more := by
  obtain ⟨read, rest, hcut, -, -, hfinal⟩ := h.cut hs hk chunks
  have hread : k ≤ messages {} read := by
    by_cases hrest : rest = []
    · rw [hcut.append, hrest, List.append_nil] at hle
      exact hle
    · exact hcut.reached hrest
  obtain ⟨hrun, hunread⟩ := Loop.run_append (hfinal.mpr hread) more
  simp only [h.start_eq hs, h.unread_eq hs, hrun, hunread, and_self]

theorem Idle.beginning {other : Host} (h : c.Idle) (hs : c.shutDown = false)
    (hk : host.ShutsDownAt k) (hc : other.Calm) (hf : other.wantsFaults = host.wantsFaults)
    (chunks : List Bytes) :
    (c.start host (chunks.map .chunk)).2.map Event.delivery? <+:
      (c.start other (chunks.map .chunk)).2.map Event.delivery? := by
  obtain ⟨read, rest, hcut, hevents, -, -⟩ := h.cut hs hk chunks
  have hother (d : Delivery) : d.events other true = d.events host true := by
    cases d with
    | message m => rfl
    | fault f => simp only [Delivery.events, Host.told, hf]
  have hwhole : outcomeEvents other true (feed {} chunks.flatten).exhaust.outcomes =
      (yielded {} chunks).flatMap (·.events host true) := by
    simp only [outcomeEvents, hother]
    exact (List.flatMap_map ..).symm
  rw [hevents, (h.calm hs hc chunks).1, hwhole, hcut.append, yielded_append .empty,
    List.flatMap_append, List.map_append]
  exact List.prefix_append _ _

/-- Whatever was done to a channel, its read loop lives and ends as it should. -/
theorem loopLife_after (uses : List Use) : LoopLife (after {} uses) := by
  have hidle : (after {} uses).Idle := Idle.after ⟨rfl, rfl⟩ uses
  generalize after {} uses = c at hidle
  exact {
    idle := hidle
    shutdown := fun more =>
      ⟨(Idle.after (c := c.shutdown) ⟨hidle.running, rfl⟩ more).connected,
        barred_of_shutDown (shutDown_after rfl more)⟩
    shutdown_inside := fun host input hmem more =>
      ⟨((hidle.use (.start host input)).after more).connected,
        barred_of_shutDown (shutDown_after (shutDown_start_of_mem hmem) more)⟩
    events := c.event_callbacks
    inside := fun _ _ _ _ _ h => inside_callbacks h
    nested := c.start_withoutStarts
    calm := fun _ chunks hc hs => hidle.calm hs hc chunks
    cut := by
      intro host k chunks hk hs
      obtain ⟨read, rest, hcut, hevents, hunread, -⟩ := hidle.cut hs hk chunks
      exact ⟨read, rest, hcut, hevents, hunread⟩
    further := fun _ _ _ more hk hs hle => hidle.further hs hk hle more
    beginning := fun _ _ _ chunks hk hc hf hs => hidle.beginning hs hk hc hf chunks }

/-- A notification with its header block. -/
def ping : Bytes := Frame.encode (bytes "\x7b\"jsonrpc\":\"2.0\",\"method\":\"m\"\x7d")

-- The second message is cut in two, and a third one is behind it in the chunk that completes it.
example :
    let host : Host := { onMessage := fun n => if n = 2 then [.start, .shutdown, .start] else [] }
    let chunks := [ping ++ ping.take 30, ping.drop 30 ++ ping, ping]
    (callbacks {} host (chunks.map .chunk)).map (·.channel.connected) = [true, true, false] ∧
      (unread {} host (chunks.map .chunk)).length = 1 := by
  decide +kernel

end LanguageClient.Channel
