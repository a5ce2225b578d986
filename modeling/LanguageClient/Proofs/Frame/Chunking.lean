import LanguageClient.Proofs.Frame.Resumption

/-!
# Pieces do not matter

A stream may reach a decoder in any pieces, and the decoder may be asked at any moments between
them (`Call`, `Decoder.run`). Once it has been asked until it finds nothing more
(`Decoder.exhaust`), it has yielded what it yields for the stream in one piece, and it is the same
decoder from there on (`exhaust_run`). So a stream yields first what each of its prefixes yields.
-/

namespace LanguageClient.Frame

/-- What has come out of a decoder, and the decoder after it. -/
@[ext] structure Yield where
  outcomes : List Outcome
  /-- The values of length lines that were ignored. -/
  ignored : List Bytes
  decoder : Decoder

/-- One yield, then another. -/
def Yield.andThen (y : Yield) (next : Decoder → Yield) : Yield :=
  ⟨y.outcomes ++ (next y.decoder).outcomes, y.ignored ++ (next y.decoder).ignored,
    (next y.decoder).decoder⟩

/-- What a host does with a decoder. -/
inductive Call where
  | feed (bytes : Bytes)
  | next

/-- All bytes that the calls feed, in order. -/
def fed : List Call → Bytes
  | [] => []
  | .feed bytes :: rest => bytes ++ fed rest
  | .next :: rest => fed rest

namespace Decoder

variable {d e : Decoder}

/-- The yield of one attempt. -/
def Step.yield (s : Step) : Yield := ⟨s.outcome.toList, s.ignored, s.decoder⟩

/-- One call. -/
def call (d : Decoder) : Call → Yield
  | .feed bytes => ⟨[], [], d.feed bytes⟩
  | .next => d.next.yield

/-- The calls in order. -/
def run (d : Decoder) : List Call → Yield
  | [] => ⟨[], [], d⟩
  | c :: rest => (d.call c).andThen fun d => d.run rest

/-- What a drained stream has yielded; the last attempt, which found nothing, may have ignored
values. -/
def Drained.yield (drained : Drained) : Yield :=
  ⟨drained.outcomes, (drained.found ++ [drained.last]).flatMap Step.ignored, drained.last.decoder⟩

/-- Asks until nothing more is found. -/
def exhaust (d : Decoder) : Yield := d.drain.yield

/-! ### Exhausting a decoder -/

theorem exhaust_of_isSome (h : d.next.outcome.isSome) :
    d.exhaust = d.next.yield.andThen exhaust := by
  rw [exhaust, drain]
  obtain ⟨o, ho⟩ := Option.isSome_iff_exists.mp h
  simp [Drained.yield, Yield.andThen, Step.yield, exhaust, Drained.outcomes, ho]

theorem exhaust_of_eq_none (h : d.next.outcome = none) : d.exhaust = d.next.yield := by
  rw [exhaust, drain]
  simp [Drained.yield, Step.yield, Drained.outcomes, h]

theorem exhaust_of_next_eq (h : d.next = ⟨d, none, []⟩) : d.exhaust = ⟨[], [], d⟩ := by
  rw [exhaust_of_eq_none (congrArg Step.outcome h), h]
  rfl

/-- Induction along the attempts that drain a stream. -/
theorem drain_attempts {motive : Decoder → Prop}
    (found : ∀ d, d.next.outcome.isSome → motive d.next.decoder → motive d)
    (nothing : ∀ d, d.next.outcome = none → motive d) (d : Decoder) : motive d := by
  fun_induction drain d with
  | case1 d step h more ih => exact found d h ih
  | case2 d step h => exact nothing d (by simpa using h)

theorem exhaust_congr (h : d.compact = e.compact) : d.exhaust = e.exhaust := by
  induction d using drain_attempts generalizing e with
  | found d hs ih =>
    obtain ⟨ho, hi, hd⟩ := Step.compact_eq_compact_iff.mp (next_congr h)
    rw [exhaust_of_isSome hs, exhaust_of_isSome (d := e) (ho ▸ hs)]
    simp only [Yield.andThen, Step.yield, ho, hi, ih hd]
  | nothing d hs =>
    obtain ⟨ho, hi, hd⟩ := Step.compact_eq_compact_iff.mp (next_congr h)
    have hs' : e.next.outcome = none := ho ▸ hs
    rw [compact_eq_self (position_next_of_eq_none hs),
      compact_eq_self (position_next_of_eq_none hs')] at hd
    rw [exhaust_of_eq_none hs, exhaust_of_eq_none hs']
    exact Yield.ext (congrArg Option.toList ho) hi hd

/-- An attempt that found nothing may be left out, but for the values that it ignored. -/
theorem exhaust_feed_of_eq_none (hp : d.Placed) (h : d.next.outcome = none) (bytes : Bytes) :
    (d.feed bytes).exhaust = d.next.yield.andThen fun d => (d.feed bytes).exhaust := by
  obtain ⟨ho, hi, hd⟩ := Step.compact_eq_compact_iff.mp (next_feed_of_eq_none hp h bytes)
  simp only [Step.after] at ho hi hd
  simp only [Yield.andThen, Step.yield, h, Option.toList_none, List.nil_append]
  cases hf : (d.next.decoder.feed bytes).next.outcome with
  | some o =>
    rw [exhaust_of_isSome (d := d.feed bytes) (by simp [ho, hf]),
      exhaust_of_isSome (d := d.next.decoder.feed bytes) (by simp [hf])]
    simp only [Yield.andThen, Step.yield, ho, hi, exhaust_congr hd, List.append_assoc]
  | none =>
    rw [hf] at ho
    rw [compact_eq_self (position_next_of_eq_none ho),
      compact_eq_self (position_next_of_eq_none hf)] at hd
    rw [exhaust_of_eq_none ho, exhaust_of_eq_none hf]
    simp only [Step.yield, ho, hf, hi, hd]

/-- An attempt may be made before more bytes arrive or after. -/
theorem exhaust_feed_next (hp : d.Placed) (bytes : Bytes) :
    (d.feed bytes).exhaust = d.next.yield.andThen fun d => (d.feed bytes).exhaust := by
  cases ho : d.next.outcome with
  | none => exact exhaust_feed_of_eq_none hp ho bytes
  | some o =>
    have hs : d.next.outcome.isSome := by simp [ho]
    have hn := next_feed_of_isSome hp hs bytes
    rw [exhaust_of_isSome (d := d.feed bytes) (by simp [hn, Step.feed, ho]), hn]
    rfl

/-- A decoder may be exhausted before more bytes arrive or not. -/
theorem exhaust_feed (hp : d.Placed) (bytes : Bytes) :
    (d.feed bytes).exhaust = d.exhaust.andThen fun d => (d.feed bytes).exhaust := by
  induction d using drain_attempts with
  | found d hs ih =>
    rw [exhaust_feed_next hp, exhaust_of_isSome hs]
    simp only [Yield.andThen, Step.yield, ih hp.next, List.append_assoc]
  | nothing d hs => rw [exhaust_feed_next hp, exhaust_of_eq_none hs]

/-- A decoder that is used in any way and then exhausted yields what it yields for all bytes in
one piece. -/
theorem run_andThen_exhaust (hp : d.Placed) (calls : List Call) :
    (d.run calls).andThen exhaust = (d.feed (fed calls)).exhaust := by
  induction calls generalizing d with
  | nil => simp [run, fed, feed_nil, Yield.andThen]
  | cons c rest ih =>
    cases c with
    | feed bytes =>
      have := ih (hp.feed bytes)
      rw [feed_feed] at this
      rw [fed, ← this]
      simp [run, call, Yield.andThen]
    | next =>
      rw [fed, exhaust_feed_next hp]
      simp only [run, call, Yield.andThen, Step.yield, ← ih hp.next, List.append_assoc]

/-- An exhausted decoder that is asked again has nothing more to say. -/
theorem next_decoder_exhaust (hp : d.Placed) :
    d.exhaust.decoder.next = ⟨d.exhaust.decoder, none, []⟩ := by
  induction d using drain_attempts with
  | found d hs ih =>
    rw [exhaust_of_isSome hs]
    exact ih hp.next
  | nothing d hs =>
    rw [exhaust_of_eq_none hs]
    exact next_next_of_eq_none hp hs

theorem Placed.exhaust (hp : d.Placed) : d.exhaust.decoder.Placed := by
  have hn := next_decoder_exhaust hp
  have h0 : d.exhaust.decoder.position = 0 := by
    have := position_next_of_eq_none (congrArg Step.outcome hn)
    rwa [hn] at this
  rw [Placed, h0]
  exact Nat.zero_le _

theorem Placed.run (h : d.Placed) (calls : List Call) : (d.run calls).decoder.Placed := by
  induction calls generalizing d with
  | nil => exact h
  | cons c rest ih =>
    cases c with
    | feed bytes => exact ih (h.feed bytes)
    | next => exact ih h.next

theorem run_append (d : Decoder) (calls more : List Call) :
    d.run (calls ++ more) = (d.run calls).andThen fun d => d.run more := by
  induction calls generalizing d with
  | nil => simp [run, Yield.andThen]
  | cons c rest ih => simp [run, ih, Yield.andThen]

theorem run_next (d : Decoder) : d.run [.next] = d.next.yield := by
  simp [run, call, Yield.andThen]

/-! ### Any use against one piece -/

/-- However a stream is cut into pieces and whenever a new decoder is asked in between, once it is
exhausted, or has found nothing at the last call, it has yielded the bodies, the errors and the
ignored values of the stream in one piece, in the same order, and it is the same decoder. The
outcomes of a prefix of the stream are a prefix of its outcomes. -/
theorem exhaust_run (calls : List Call) :
    (run {} calls).andThen exhaust = (feed {} (fed calls)).exhaust ∧
      ((run {} calls).decoder.next.outcome = none →
        run {} (calls ++ [.next]) = (feed {} (fed calls)).exhaust) ∧
      ∀ s, s <+: fed calls →
        (feed {} s).exhaust.outcomes <+: (feed {} (fed calls)).exhaust.outcomes := by
  have hwhole := run_andThen_exhaust .empty calls
  refine ⟨hwhole, ?_, ?_⟩
  · intro h
    rw [← hwhole, run_append]
    simp only [Yield.andThen, run_next, exhaust_of_eq_none h]
  · rintro s ⟨t, ht⟩
    rw [← ht, ← feed_feed, exhaust_feed (Placed.empty.feed s)]
    exact List.prefix_append _ _

-- The cuts fall within a line end, between two of them and within the body.
example :
    (run {} [.feed (bytes "Content-Length: x\r"), .next, .feed (bytes "\nContent-Length: 2\r\n\r"),
      .next, .feed (bytes "\n["), .next, .feed (bytes "]"), .next]).outcomes
      = [.body (bytes "[]")] := by
  decide +kernel

end Decoder

end LanguageClient.Frame
