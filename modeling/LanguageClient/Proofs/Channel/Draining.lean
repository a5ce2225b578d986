import LanguageClient.Proofs.Channel.Delivery
import LanguageClient.Proofs.Frame.Throwing

/-!
# The drain loop

A read loop asks its decoder again and again, through all errors, until it finds nothing more, and
has no bound of its own. It ends because each body and each error uses up a byte
(`buffered_next_lt`, `buffered_turn_lt`), so that there are no more turns than bytes, and asking
further changes nothing (`draining_run`).
-/

namespace LanguageClient

open Frame (Decoder)

namespace Frame.Decoder

variable {d e : Decoder}

/-- One turn of the loop over a chunk: what it delivers, if anything is left to be delivered. -/
def turn (d : Decoder) : Decoder × Except Thrown (Option Channel.Delivery) :=
  match d.attempt with
  | (e, .error (.frame f)) => (e, .ok (some (.fault f)))
  | (e, .error t) => (e, .error t)
  | (e, .ok none) => (e, .ok none)
  | (e, .ok (some raw)) =>
    match Reading.body Message.readContainer? raw with
    | .error (.frame f) => (e, .ok (some (.fault f)))
    | .error t => (e, .error t)
    | .ok m => (e, .ok (some (.message m)))

theorem turn_eq (h : d.Placed) :
    d.turn = (d.next.decoder, .ok (d.next.outcome.map Channel.Delivery.ofOutcome)) := by
  unfold turn
  rw [attempt_eq h, Step.attempt]
  cases d.next.outcome with
  | none => rfl
  | some o =>
    cases o with
    | error e => rfl
    | body raw =>
      simp only [Reading.body_eq, Reading.parse_readContainer?]
      rw [Option.map_some, Channel.Delivery.ofOutcome]
      cases Message.parse raw <;> rfl

theorem buffered_turn_lt {delivery : Channel.Delivery} (h : d.turn = (e, .ok (some delivery))) :
    e.buffered < d.buffered := by
  have hlt := d.buffered_attempt_lt
  unfold turn at h
  split at h
  · rename_i f heq
    cases h
    rw [heq] at hlt
    exact hlt nofun nofun
  · cases h
  · cases h
  · rename_i e' raw heq
    rw [heq] at hlt
    have hle : e'.buffered < d.buffered := hlt nofun nofun
    split at h <;> cases h <;> exact hle

theorem drain_of_eq_none (h : d.next.outcome = none) : d.drain = ⟨[], d.next⟩ := by
  rw [drain]
  simp [h]

theorem drain_of_isSome (h : d.next.outcome.isSome) :
    d.drain = ⟨d.next :: d.next.decoder.drain.found, d.next.decoder.drain.last⟩ := by
  rw [drain]
  simp [h]

/-! ### Asking again and again -/

/-- The decoder after it was asked a number of times. -/
def asked (d : Decoder) : Nat → Decoder
  | 0 => d
  | n + 1 => d.next.decoder.asked n

theorem asked_succ (d : Decoder) (n : Nat) : d.asked (n + 1) = (d.asked n).next.decoder := by
  induction n generalizing d with
  | zero => rfl
  | succ n ih => exact ih d.next.decoder

theorem Placed.asked (h : d.Placed) (n : Nat) : (d.asked n).Placed := by
  induction n generalizing d with
  | zero => exact h
  | succ n ih => exact ih h.next

/-- A drained decoder was asked until it found nothing, less often than it had bytes. -/
theorem exists_drain_eq (d : Decoder) :
    ∃ n ≤ d.buffered, (∀ k < n, (d.asked k).next.outcome.isSome) ∧
      (d.asked n).next.outcome = none ∧
      d.drain = ⟨(List.range n).map fun k => (d.asked k).next, (d.asked n).next⟩ := by
  induction d using drain_attempts with
  | found d hs ih =>
    obtain ⟨n, hn, hfound, hlast, hdrain⟩ := ih
    have hlt := buffered_next_lt hs
    refine ⟨n + 1, by omega, ?_, hlast, ?_⟩
    · intro k hk
      cases k with
      | zero => exact hs
      | succ k => exact hfound k (Nat.lt_of_succ_lt_succ hk)
    · rw [drain_of_isSome hs, hdrain, List.range_succ_eq_map, List.map_cons, List.map_map]
      rfl
  | nothing d hs => exact ⟨0, Nat.zero_le _, nofun, hs, drain_of_eq_none hs⟩

/-- A decoder that has just found nothing may be asked any number of times. -/
theorem run_replicate_next (h : d.next = ⟨d, none, []⟩) (n : Nat) (calls : List Frame.Call) :
    d.run (List.replicate n .next ++ calls) = d.run calls := by
  induction n with
  | zero => rfl
  | succ n ih =>
    rw [List.replicate_succ, List.cons_append, run, call, h]
    simp [Step.yield, Yield.andThen, ih]

/-- There are no more outcomes than bytes. -/
theorem length_outcomes_le (d : Decoder) : d.exhaust.outcomes.length ≤ d.buffered := by
  induction d using drain_attempts with
  | found d hs ih =>
    have hlt := buffered_next_lt hs
    obtain ⟨o, ho⟩ := Option.isSome_iff_exists.mp hs
    rw [exhaust_of_isSome hs]
    simp only [Yield.andThen, Step.yield, ho, Option.toList_some, List.singleton_append,
      List.length_cons]
    omega
  | nothing d hs =>
    rw [exhaust_of_eq_none hs]
    simp [Step.yield, hs]

/-- What can be relied on when a decoder is asked. -/
structure Draining (d : Decoder) : Prop where
  /-- A body or an error uses up at least one byte, -/
  progress : d.next.outcome.isSome → d.next.decoder.buffered < d.buffered
  /-- and so does whatever is thrown when each cut is at its own risk. -/
  progress_attempt : d.attempt.2 ≠ .ok none → d.attempt.1.buffered < d.buffered
  /-- Asking ends with nothing found, after no more bodies and errors than there are bytes; -/
  ends : ∃ n ≤ d.buffered, (∀ k < n, (d.asked k).next.outcome.isSome) ∧
    (d.asked n).next.outcome = none ∧
    d.drain = ⟨(List.range n).map fun k => (d.asked k).next, (d.asked n).next⟩
  /-- these are the turns of the read loop, which goes on through every error. -/
  turns : ∀ k, (d.asked k).turn =
    ((d.asked (k + 1)), .ok ((d.asked k).next.outcome.map Channel.Delivery.ofOutcome))
  /-- Once nothing was found, asking again finds nothing, ignores nothing and changes nothing, -/
  settled : d.next.outcome = none → d.next.decoder.next = ⟨d.next.decoder, none, []⟩
  /-- however often it is done, and whatever is done afterwards. -/
  idle : d.next.outcome = none → ∀ n calls,
    d.run (.next :: (List.replicate n .next ++ calls)) = d.run (.next :: calls)

/-- Whatever was done to a decoder, draining it makes progress and ends. -/
theorem draining_run (calls : List Frame.Call) : Draining (run {} calls).decoder := by
  have hp := Placed.empty.run calls
  generalize (run {} calls).decoder = d at hp
  have hsettled (h : d.next.outcome = none) := next_next_of_eq_none hp h
  exact {
    progress := buffered_next_lt
    progress_attempt := by
      intro h
      rw [attempt_eq hp] at h ⊢
      exact buffered_next_lt (isSome_outcome_of_attempt h)
    ends := d.exists_drain_eq
    turns := by
      intro k
      rw [turn_eq (hp.asked k), asked_succ]
    settled := hsettled
    idle := by
      intro h n calls
      rw [run, run]
      simp only [call, Step.yield, Yield.andThen, run_replicate_next (hsettled h)] }

end Frame.Decoder

end LanguageClient
