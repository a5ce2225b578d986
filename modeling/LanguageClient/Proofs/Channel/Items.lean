import LanguageClient.Proofs.Channel.Delivery
import LanguageClient.Proofs.Frame.Block

/-!
# Faults stay where they are

A stream that consists of frames and of header blocks without a usable length (`Item`) is read
item by item: each gives the host one callback that depends on that item alone, and nothing is
left over (`start_items`).
-/

namespace LanguageClient.Channel

open Frame (Outcome)
open Frame.Decoder (exhaust)

/-- What a stream may consist of. -/
inductive Item where
  /-- A body in a frame of its own. -/
  | frame (body : Bytes)
  /-- A header block, its lines given without their line feeds. -/
  | block (lines : List Bytes) (blank : Bytes)

namespace Item

def text : Item → Bytes
  | .frame body => Frame.encode body
  | .block lines blank => Frame.blockText lines blank

/-- A body is no longer than a 64-bit word can say, and a block announces no usable length. -/
def WellFormed : Item → Prop
  | .frame body => body.length < UInt64.size
  | .block lines blank =>
    (∀ l ∈ lines, Frame.IsLine l ∧ Frame.announced? l = none) ∧ Frame.IsBlankLine blank

/-- What the decoder finds. The frame of the empty body counts as a block that announces nothing,
because a length of zero is not usable. -/
def outcome : Item → Outcome
  | .frame [] => .error (.invalidLength (bytes "0"))
  | .frame (b :: rest) => .body (b :: rest)
  | .block lines _ => .error (Frame.blockError lines)

/-- The callback: the message that the body is, or what is wrong with the item. -/
def event : Item → Event
  | .frame [] => .fault (.frame (.header (.invalidLength (bytes "0"))))
  | .frame (b :: rest) =>
    match Message.parse (b :: rest) with
    | .ok m => .message m true
    | .error e => .fault (.frame (.body e))
  | .block lines _ => .fault (.frame (.header (Frame.blockError lines)))

theorem exhaust_text {item : Item} (h : item.WellFormed) (rest : Bytes) :
    (exhaust { buffer := item.text ++ rest }).outcomes
        = item.outcome :: (exhaust { buffer := rest }).outcomes ∧
      (exhaust { buffer := item.text ++ rest }).decoder
        = (exhaust { buffer := rest }).decoder := by
  cases item with
  | frame body =>
    cases body with
    | nil => exact Frame.Decoder.exhaust_encode_nil rest
    | cons b body => exact Frame.Decoder.exhaust_encode (by simp) h rest
  | block lines blank =>
    obtain ⟨hl, hb⟩ := h
    exact Frame.Decoder.exhaust_block (fun l h => (hl l h).1) hb (fun l h => (hl l h).2) rest

theorem exhaust_texts {items : List Item} (h : ∀ i ∈ items, i.WellFormed) :
    (exhaust { buffer := items.flatMap text }).outcomes = items.map outcome ∧
      (exhaust { buffer := items.flatMap text }).decoder = {} := by
  induction items with
  | nil =>
    have he := Frame.Decoder.exhaust_of_next_eq Frame.Decoder.next_empty
    exact ⟨congrArg Frame.Yield.outcomes he, congrArg Frame.Yield.decoder he⟩
  | cons item rest ih =>
    obtain ⟨iho, ihd⟩ := ih fun i hi => h i (List.mem_cons_of_mem item hi)
    obtain ⟨ho, hd⟩ := exhaust_text (h item List.mem_cons_self) (rest.flatMap text)
    rw [List.flatMap_cons, List.map_cons]
    exact ⟨ho.trans (by rw [iho]), hd.trans ihd⟩

theorem events_outcome {host : Host} (hf : host.wantsFaults = true) (item : Item) :
    (Delivery.ofOutcome item.outcome).events host true = [item.event] := by
  cases item with
  | frame body =>
    cases body with
    | nil => simp [outcome, event, Delivery.ofOutcome, Delivery.events, Host.told, hf]
    | cons b body =>
      simp only [outcome, event, Delivery.ofOutcome]
      cases Message.parse (b :: body) <;> simp [Delivery.events, Host.told, hf]
  | block lines blank =>
    simp [outcome, event, Delivery.ofOutcome, Delivery.events, Host.told, hf]

end Item

/-- Whatever the chunks are in which a row of items arrives, the host gets one callback for each,
in order, which is the item's own, and nothing is left over at the end of the input. -/
theorem start_items {c entered : Channel} {host : Host} (he : c.enter? = some entered)
    (hc : host.Calm) (hf : host.wantsFaults = true) {items : List Item}
    (hi : ∀ i ∈ items, i.WellFormed) {chunks : List Bytes}
    (hs : chunks.flatten = items.flatMap Item.text) :
    (c.start host (chunks.map .chunk)).2 = items.map Item.event ∧
      (Loop.run host { channel := entered } (chunks.map .chunk)).1.decoder = {} := by
  obtain ⟨hshut, rfl⟩ := enter?_eq_some he
  have hrunning : (Loop.channel { channel := { c with running := true, connected := true } }).running
      = true := rfl
  obtain ⟨-, hd, hev⟩ := Loop.run_chunks hc hrunning hshut .empty Frame.Decoder.next_empty chunks
  obtain ⟨ho, hdec⟩ := Item.exhaust_texts hi
  have hfeed : Frame.Decoder.feed {} chunks.flatten = { buffer := items.flatMap Item.text } := by
    simp [Frame.Decoder.feed, hs]
  rw [hfeed] at hd hev
  refine ⟨?_, hd.trans hdec⟩
  rw [start, he]
  refine hev.trans ?_
  rw [ho, outcomeEvents, List.flatMap_map]
  simp only [Item.events_outcome hf]
  exact List.map_eq_flatMap.symm

/-- A body that looks like a header, a block with a length that is not usable, a notification and
an empty body. -/
def mixedItems : List Item :=
  [.frame (bytes "Content-Length: 9\r\n\r\n"),
    .block [bytes "Content-Length: 0x1\r", bytes "X: y"] [],
    .frame (bytes "\x7b\"jsonrpc\":\"2.0\",\"method\":\"m\"\x7d"), .frame []]

theorem mixedItems_wellFormed : ∀ i ∈ mixedItems, i.WellFormed := by
  intro i hi
  simp only [mixedItems, List.mem_cons, List.not_mem_nil, or_false] at hi
  obtain rfl | rfl | rfl | rfl := hi
  · exact (by decide : (bytes "Content-Length: 9\r\n\r\n").length < UInt64.size)
  · refine ⟨?_, .inl rfl⟩
    intro l hl
    simp only [List.mem_cons, List.not_mem_nil, or_false] at hl
    obtain rfl | rfl := hl <;> exact ⟨⟨by decide, by decide⟩, by decide⟩
  · exact (by decide : (bytes "\x7b\"jsonrpc\":\"2.0\",\"method\":\"m\"\x7d").length < UInt64.size)
  · exact (by decide : 0 < UInt64.size)

/-- The items cut in the middle of the first header block. -/
theorem start_mixedItems :
    enter? {} = some { running := true, connected := true } ∧
      (start {} {} ([(mixedItems.flatMap Item.text).take 19,
        (mixedItems.flatMap Item.text).drop 19].map .chunk)).2 = mixedItems.map Item.event := by
  have he : enter? {} = some { running := true, connected := true } := rfl
  have hc : Host.Calm {} := fun _ => List.not_mem_nil
  have hs : [(mixedItems.flatMap Item.text).take 19, (mixedItems.flatMap Item.text).drop 19].flatten
      = mixedItems.flatMap Item.text := by simp
  exact ⟨he, (start_items he hc rfl mixedItems_wellFormed hs).1⟩

end LanguageClient.Channel
