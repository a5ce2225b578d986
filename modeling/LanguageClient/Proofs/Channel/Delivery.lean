import LanguageClient.Channel.Reading
import LanguageClient.Proofs.Frame.Chunking

/-!
# What a host gets from a stream

A read loop hands its host the deliveries of the stream it reads, in order, whatever the chunks
are in which the stream arrives (`Loop.run_chunks`). The host may react in its callbacks, short of
shutting the channel down (`Host.Calm`).
-/

namespace LanguageClient.Channel

open Frame.Decoder (exhaust)

/-- The host does not shut the channel down in a callback. -/
def Host.Calm (host : Host) : Prop := ∀ n, Reaction.shutdown ∉ host.onMessage n

/-- The callbacks for one delivery. -/
def Delivery.events (host : Host) (connected : Bool) : Delivery → List Event
  | .message m => [.message m connected]
  | .fault f => host.told (.frame f)

/-- The callbacks for what a stream yields. -/
def outcomeEvents (host : Host) (connected : Bool) (outcomes : List Frame.Outcome) : List Event :=
  outcomes.flatMap fun o => (Delivery.ofOutcome o).events host connected

variable {host : Host} {loop : Loop}

/-- A loop that is inside notices of the reactions only whether there is a shutdown among them. -/
theorem foldl_react {c : Channel} (hr : c.running = true) (reactions : List Reaction) :
    reactions.foldl react c = if .shutdown ∈ reactions then c.shutdown else c := by
  induction reactions generalizing c with
  | nil => rfl
  | cons r rest ih =>
    cases r with
    | shutdown =>
      have hagain : c.shutdown.shutdown = c.shutdown := rfl
      rw [List.foldl_cons, react, ih (c := c.shutdown) hr, hagain]
      simp
    | start =>
      -- The loop is inside already, so that nobody enters it a second time.
      have hstart : react c .start = c := by simp [react, enter?, hr]
      rw [List.foldl_cons, hstart, ih hr]
      simp

/-- The same channel, or the same but for a shutdown. -/
def SameOrShut (c d : Channel) : Prop := d = c ∨ d = c.shutdown

theorem SameOrShut.trans {c d e : Channel} (h : SameOrShut c d) (h' : SameOrShut d e) :
    SameOrShut c e := by
  rcases h with rfl | rfl
  · exact h'
  · rcases h' with rfl | rfl
    · exact .inr rfl
    · exact .inr rfl

theorem SameOrShut.running {c d : Channel} (h : SameOrShut c d) : d.running = c.running := by
  rcases h with rfl | rfl <;> rfl

namespace Loop

/-- All that a host can do to the channel from inside its callbacks is to shut it down. -/
theorem sameOrShut_deliver (hr : loop.channel.running = true) (d : Delivery) :
    SameOrShut loop.channel (loop.deliver host d).1.channel := by
  cases d with
  | fault f => exact .inl rfl
  | message m =>
    rw [deliver, foldl_react hr]
    split
    · exact .inr rfl
    · exact .inl rfl

theorem sameOrShut_deliverAll (hr : loop.channel.running = true) (ds : List Delivery) :
    SameOrShut loop.channel (loop.deliverAll host ds).1.channel := by
  induction ds generalizing loop with
  | nil => exact .inl rfl
  | cons d rest ih =>
    have hfirst := @sameOrShut_deliver host loop hr d
    exact hfirst.trans (ih (hfirst.running.trans hr))

theorem sameOrShut_run (hr : loop.channel.running = true) (input : List Arrival) :
    SameOrShut loop.channel (loop.run host input).1.channel := by
  induction input generalizing loop with
  | nil => exact .inl rfl
  | cons arrival rest ih =>
    cases arrival with
    | failure e =>
      rw [run]
      split <;> exact .inl rfl
    | chunk bytes =>
      rw [run]
      split
      · exact .inl rfl
      · have hchunk : SameOrShut loop.channel (loop.chunk host bytes).1.channel := by
          unfold chunk
          refine sameOrShut_deliverAll ?_ _
          exact hr
        exact hchunk.trans (ih (hchunk.running.trans hr))

theorem deliver_calm (hc : host.Calm) (hr : loop.channel.running = true) (d : Delivery) :
    (loop.deliver host d).1.channel = loop.channel ∧
      (loop.deliver host d).1.decoder = loop.decoder ∧
      (loop.deliver host d).2 = d.events host loop.channel.connected := by
  cases d with
  | fault f => exact ⟨rfl, rfl, rfl⟩
  | message m => exact ⟨(foldl_react hr _).trans (if_neg (hc _)), rfl, rfl⟩

theorem deliverAll_calm (hc : host.Calm) (hr : loop.channel.running = true) (ds : List Delivery) :
    (loop.deliverAll host ds).1.channel = loop.channel ∧
      (loop.deliverAll host ds).1.decoder = loop.decoder ∧
      (loop.deliverAll host ds).2 = ds.flatMap (·.events host loop.channel.connected) := by
  induction ds generalizing loop with
  | nil => exact ⟨rfl, rfl, rfl⟩
  | cons d rest ih =>
    obtain ⟨hch, hd, he⟩ := deliver_calm hc hr d
    have hr' : (loop.deliver host d).1.channel.running = true := hch ▸ hr
    obtain ⟨ihch, ihd, ihe⟩ := ih hr'
    simp only [deliverAll]
    refine ⟨ihch.trans hch, ihd.trans hd, ?_⟩
    rw [ihe, he, hch, List.flatMap_cons]

/-- The loop over chunks hands over what the stream yields, and keeps the decoder that the stream
leaves. -/
theorem run_chunks (hc : host.Calm) (hr : loop.channel.running = true)
    (hs : loop.channel.shutDown = false) (hp : loop.decoder.Placed)
    (hn : loop.decoder.next = ⟨loop.decoder, none, []⟩) (chunks : List Bytes) :
    let yield := (loop.decoder.feed chunks.flatten).exhaust
    (loop.run host (chunks.map .chunk)).1.channel = loop.channel ∧
      (loop.run host (chunks.map .chunk)).1.decoder = yield.decoder ∧
      (loop.run host (chunks.map .chunk)).2
        = outcomeEvents host loop.channel.connected yield.outcomes := by
  induction chunks generalizing loop with
  | nil =>
    simp [run, Frame.Decoder.feed_nil, Frame.Decoder.exhaust_of_next_eq hn, outcomeEvents]
  | cons bytes rest ih =>
    have hp' := hp.feed bytes
    let after : Loop := { loop with decoder := (loop.decoder.feed bytes).exhaust.decoder }
    obtain ⟨hch, hd, he⟩ := deliverAll_calm hc (show after.channel.running = true from hr)
      (deliveries (loop.decoder.feed bytes).drain)
    -- The loop behind the first chunk differs from `after` in the count of messages only.
    have hchunk : loop.chunk host bytes
        = after.deliverAll host (deliveries (loop.decoder.feed bytes).drain) := rfl
    have hr' : (loop.chunk host bytes).1.channel.running = true := by rw [hchunk, hch]; exact hr
    have hrun := ih hr' (by rw [hchunk, hch]; exact hs) (by rw [hchunk, hd]; exact hp'.exhaust)
      (by rw [hchunk, hd]; exact Frame.Decoder.next_decoder_exhaust hp')
    rw [hchunk, hch, hd] at hrun
    simp only [List.map_cons, run, hs, hchunk, List.flatten_cons]
    rw [← Frame.Decoder.feed_feed, Frame.Decoder.exhaust_feed hp']
    refine ⟨hrun.1, hrun.2.1, ?_⟩
    simp only [Bool.false_eq_true, if_false]
    rw [hrun.2.2, he]
    simp [outcomeEvents, Frame.Yield.andThen, deliveries, exhaust, Frame.Decoder.Drained.yield, after,
      List.flatMap_map]

end Loop

end LanguageClient.Channel
