import LanguageClient.Channel.Stack
import LanguageClient.Proofs.Channel.Delivery
import LanguageClient.Proofs.Json.Depth

/-!
# Where the stack overflows

`Channel.taken` are the bodies and the errors that a read loop gets to. On a stack with room for all
of them the loop does what it does anyway (`startOn_of_forall`). Otherwise it goes as far as the first
one that overflows (`startOn_of_overflows`).
-/

namespace LanguageClient

/-- This is a body that overflows the stack. -/
def Frame.Outcome.overflows (r : Json.Reader) : Outcome → Bool
  | .error _ => false
  | .body raw => r.overflows raw

namespace Channel

open Frame (Outcome)
open Frame.Decoder (exhaust)

variable {r : Json.Reader} {host : Host} {loop : Loop}

/-- What a callback hands over. -/
def Event.delivery? : Event → Option Delivery
  | .message m _ => some (.message m)
  | .fault (.frame f) => some (.fault f)
  | .fault (.transport _) => none

theorem Delivery.ofOutcomeOn?_eq (r : Json.Reader) (o : Outcome) :
    ofOutcomeOn? r o = if o.overflows r then none else some (ofOutcome o) := by
  cases o with
  | error e => rfl
  | body raw =>
    rw [ofOutcomeOn?, Message.parseOn?, Frame.Outcome.overflows, ofOutcome]
    split
    · rfl
    · cases Message.parse raw <;> rfl

namespace Loop

/-! ### Deliveries -/

theorem deliverAll_decoder (host : Host) (loop : Loop) (ds : List Delivery) :
    (loop.deliverAll host ds).1.decoder = loop.decoder := by
  induction ds generalizing loop with
  | nil => rfl
  | cons d ds ih =>
    rw [deliverAll]
    exact (ih _).trans (by cases d <;> rfl)

theorem decoder_chunk (host : Host) (loop : Loop) (bytes : Bytes) :
    (loop.chunk host bytes).1.decoder = (loop.decoder.feed bytes).exhaust.decoder :=
  deliverAll_decoder ..

theorem deliver_event (hf : host.wantsFaults = true) (loop : Loop) (d : Delivery) :
    (loop.deliver host d).2.map Event.delivery? = [some d] := by
  cases d with
  | message m => rfl
  | fault f => simp [Loop.deliver, Host.told, hf, Event.delivery?]

theorem deliverAll_events (hf : host.wantsFaults = true) (loop : Loop) (ds : List Delivery) :
    (loop.deliverAll host ds).2.map Event.delivery? = ds.map some := by
  induction ds generalizing loop with
  | nil => rfl
  | cons d ds ih =>
    rw [Loop.deliverAll, List.map_append, Loop.deliver_event hf, ih]
    rfl

/-! ### One chunk -/

theorem handOn_of_forall {outcomes : List Outcome} (h : ∀ o ∈ outcomes, o.overflows r = false) :
    loop.handOn r host outcomes =
      (some (loop.deliverAll host (outcomes.map .ofOutcome)).1,
        (loop.deliverAll host (outcomes.map .ofOutcome)).2) := by
  induction outcomes generalizing loop with
  | nil => rfl
  | cons o outcomes ih =>
    obtain ⟨ho, h⟩ := List.forall_mem_cons.mp h
    simp only [handOn, Delivery.ofOutcomeOn?_eq, ho, Bool.false_eq_true, if_false, List.map_cons,
      deliverAll, ih h]

theorem handOn_of_overflows {before : List Outcome} (hb : ∀ o ∈ before, o.overflows r = false)
    {o : Outcome} (ho : o.overflows r = true) (after : List Outcome) :
    loop.handOn r host (before ++ o :: after) =
      (none, (loop.deliverAll host (before.map .ofOutcome)).2) := by
  induction before generalizing loop with
  | nil => simp only [List.nil_append, handOn, Delivery.ofOutcomeOn?_eq, ho, if_true, List.map_nil,
      deliverAll]
  | cons first before ih =>
    obtain ⟨hfirst, hb⟩ := List.forall_mem_cons.mp hb
    simp only [List.cons_append, handOn, Delivery.ofOutcomeOn?_eq, hfirst, Bool.false_eq_true,
      if_false, List.map_cons, deliverAll, ih hb]

theorem chunkOn_of_forall {bytes : Bytes}
    (h : ∀ o ∈ (loop.decoder.feed bytes).drain.outcomes, o.overflows r = false) :
    loop.chunkOn r host bytes = (some (loop.chunk host bytes).1, (loop.chunk host bytes).2) :=
  handOn_of_forall h

/-! ### All chunks -/

/-- What the loop gets to. -/
def taken (host : Host) (loop : Loop) : List Arrival → List Outcome
  | [] => []
  | arrival :: rest =>
    if loop.channel.shutDown then []
    else
      match arrival with
      | .failure _ => []
      | .chunk bytes =>
        (loop.decoder.feed bytes).drain.outcomes ++ (loop.chunk host bytes).1.taken host rest

theorem runOn_of_forall {input : List Arrival}
    (h : ∀ o ∈ loop.taken host input, o.overflows r = false) :
    loop.runOn r host input = (some (loop.run host input).1, (loop.run host input).2) := by
  induction input generalizing loop with
  | nil => rfl
  | cons arrival rest ih =>
    cases arrival with
    | failure e =>
      rw [runOn, run]
      split <;> rfl
    | chunk bytes =>
      rw [taken] at h
      rw [runOn, run]
      split
      · rfl
      · next hshut =>
        obtain ⟨hchunk, hrest⟩ := List.forall_mem_append.mp (if_neg hshut ▸ h)
        simp only [chunkOn_of_forall hchunk, ih hrest]

theorem runOn_of_overflows {input : List Arrival} {before after : List Outcome} {o : Outcome}
    (htaken : loop.taken host input = before ++ o :: after)
    (hb : ∀ o ∈ before, o.overflows r = false) (ho : o.overflows r = true) :
    (loop.runOn r host input).1 = none ∧
      (host.wantsFaults = true → (loop.runOn r host input).2.map Event.delivery? =
        before.map (some ∘ .ofOutcome)) := by
  induction input generalizing loop before with
  | nil => simp [taken] at htaken
  | cons arrival rest ih =>
    cases arrival with
    | failure e =>
      rw [taken, ite_self] at htaken
      simp at htaken
    | chunk bytes =>
      rw [taken] at htaken
      rw [runOn]
      split at htaken
      · simp at htaken
      · next hshut =>
        rw [if_neg hshut]
        -- either the chunk is worked off before the stack overflows or it overflows in this chunk
        have hsplit : (∃ later, before = (loop.decoder.feed bytes).drain.outcomes ++ later ∧
            (loop.chunk host bytes).1.taken host rest = later ++ o :: after) ∨
            ∃ more, (loop.decoder.feed bytes).drain.outcomes = before ++ o :: more := by
          rcases List.append_eq_append_iff.mp htaken with hlater | ⟨more, hchunk, hmore⟩
          · exact .inl hlater
          · cases more with
            | nil => exact .inl ⟨[], by simpa using hchunk.symm, hmore.symm⟩
            | cons first more =>
              cases hmore
              exact .inr ⟨more, hchunk⟩
        rcases hsplit with ⟨later, rfl, hlater⟩ | ⟨more, hchunk⟩
        · obtain ⟨hclean, hb⟩ := List.forall_mem_append.mp hb
          obtain ⟨hnone, hevents⟩ := ih hlater hb
          simp only [chunkOn_of_forall hclean, List.map_append]
          refine ⟨hnone, fun hf => ?_⟩
          rw [hevents hf, chunk, deliverAll_events hf, deliveries, List.map_map]
        · simp only [chunkOn, hchunk, handOn_of_overflows hb ho more]
          exact ⟨trivial, fun hf => by rw [deliverAll_events hf, List.map_map]⟩

/-- As far as the host wants to be told, there is one callback for each of them. -/
theorem taken_events (hf : host.wantsFaults = true) (loop : Loop) (chunks : List Bytes) :
    (loop.run host (chunks.map .chunk)).2.map Event.delivery? =
      (loop.taken host (chunks.map .chunk)).map (some ∘ .ofOutcome) := by
  induction chunks generalizing loop with
  | nil => rfl
  | cons bytes chunks ih =>
    rw [List.map_cons, run, taken]
    split
    · rfl
    · simp only [List.map_append, ih]
      rw [chunk, deliverAll_events hf, deliveries, List.map_map]

/-- The chunks before a shutdown are worked off. -/
theorem exists_taken_eq (loop : Loop) (hp : loop.decoder.Placed)
    (hn : loop.decoder.next = ⟨loop.decoder, none, []⟩) (chunks : List Bytes) :
    ∃ read rest, chunks = read ++ rest ∧
      loop.taken host (chunks.map .chunk) = (loop.decoder.feed read.flatten).exhaust.outcomes ∧
      (rest ≠ [] → (loop.run host (chunks.map .chunk)).1.channel.shutDown = true) := by
  induction chunks generalizing loop with
  | nil =>
    refine ⟨[], [], rfl, ?_, fun h => absurd rfl h⟩
    rw [List.flatten_nil, Frame.Decoder.feed_nil, Frame.Decoder.exhaust_of_next_eq hn]
    rfl
  | cons bytes chunks ih =>
    rw [List.map_cons, run, taken]
    by_cases hs : loop.channel.shutDown = true
    · refine ⟨[], bytes :: chunks, rfl, ?_, fun _ => by rw [if_pos hs]; exact hs⟩
      rw [if_pos hs, List.flatten_nil, Frame.Decoder.feed_nil,
        Frame.Decoder.exhaust_of_next_eq hn]
    · rw [if_neg hs, if_neg hs]
      have hfed := hp.feed bytes
      have hdecoder := decoder_chunk host loop bytes
      obtain ⟨read, rest, rfl, hread, hrest⟩ := ih (loop.chunk host bytes).1
        (hdecoder ▸ hfed.exhaust) (hdecoder ▸ Frame.Decoder.next_decoder_exhaust hfed)
      refine ⟨bytes :: read, rest, rfl, ?_, hrest⟩
      rw [List.flatten_cons, ← Frame.Decoder.feed_feed, Frame.Decoder.exhaust_feed hfed]
      simp only [hread, hdecoder]
      rfl

end Loop

/-! ### The whole of reading -/

section

variable {c : Channel} {input : List Arrival}

/-- What a channel gets to when it is read. -/
def taken (c : Channel) (host : Host) (input : List Arrival) : List Outcome :=
  match c.enter? with
  | none => []
  | some entered => Loop.taken host { channel := entered } input

/-- With room for everything that is read, reading on a stack is reading. -/
theorem startOn_of_forall (h : ∀ o ∈ c.taken host input, o.overflows r = false) :
    c.startOn r host input = (some (c.start host input).1, (c.start host input).2) := by
  unfold taken at h
  unfold startOn start
  cases he : c.enter? with
  | none => rfl
  | some entered =>
    rw [he] at h
    simp only [Loop.runOn_of_forall h]
    rfl

/-- The first body that overflows the stack ends the process. -/
theorem startOn_of_overflows {before after : List Outcome} {o : Outcome}
    (htaken : c.taken host input = before ++ o :: after)
    (hb : ∀ o ∈ before, o.overflows r = false) (ho : o.overflows r = true) :
    (c.startOn r host input).1 = none ∧
      (host.wantsFaults = true → (c.startOn r host input).2.map Event.delivery? =
        before.map (some ∘ .ofOutcome)) := by
  unfold taken at htaken
  unfold startOn
  cases he : c.enter? with
  | none =>
    rw [he] at htaken
    simp at htaken
  | some entered =>
    rw [he] at htaken
    obtain ⟨hnone, hevents⟩ := Loop.runOn_of_overflows htaken hb ho
    exact ⟨congrArg (Option.map _) hnone, hevents⟩

end

end Channel

end LanguageClient
