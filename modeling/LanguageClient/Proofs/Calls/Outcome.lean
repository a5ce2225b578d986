import LanguageClient.Proofs.Calls.Step

/-!
# What a step does to the outcomes

A step gives an outcome to pending calls only (`Sound.outcome?_step`), and what is not pending keeps
the outcome that it has (`Sound.outcome?_of_run`). Tables that differ in the order of their outcomes
are `Alike`: the same steps lead to tables that are alike again.
-/

namespace LanguageClient.Calls

variable {c d f : Calls} {id : Int64} {e : Event} {o : Outcome}

/-- The outcome that an event gives to a call if it is pending. -/
def Event.outcomeFor? (id : Int64) : Event → Option Outcome
  | .reply r => if r.id = .int id then some (.reply r) else none
  | .remove k => if k = id then some .removed else none
  | .close reason => some (.closed reason)
  | .begin | .register | .fetch _ => none

/-! ### Outcomes of a sound table -/

theorem lookup_eq_some_iff_mem {l : List (Int64 × Outcome)} (h : (l.map Prod.fst).Nodup) :
    l.lookup id = some o ↔ (id, o) ∈ l := by
  induction l with
  | nil => simp
  | cons p l ih =>
    obtain ⟨k, q⟩ := p
    obtain ⟨hk, hl⟩ := List.nodup_cons.mp h
    by_cases hid : id = k
    · subst hid
      have hnot : (id, o) ∉ l := fun hm => hk (List.mem_map.mpr ⟨_, hm, rfl⟩)
      simp [hnot, eq_comm]
    · have hne : (id == k) = false := beq_eq_false_iff_ne.mpr hid
      simp [List.lookup_cons, hne, hid, ih hl]

theorem mem_settled (h : c.outcome? id = some o) : (id, o) ∈ c.settled := by
  obtain ⟨l, r, hsplit, -⟩ := List.lookup_eq_some_iff.mp h
  rw [hsplit]
  exact List.mem_append_right _ List.mem_cons_self

theorem Sound.nodup_pending (hc : Sound c) : c.pending.Nodup := (List.nodup_append.mp hc.nodup).1

theorem Sound.nodup_settled (hc : Sound c) : (c.settled.map Prod.fst).Nodup :=
  (List.nodup_append.mp hc.nodup).2.1

theorem Sound.outcome?_eq_some_iff (hc : Sound c) : c.outcome? id = some o ↔ (id, o) ∈ c.settled :=
  lookup_eq_some_iff_mem hc.nodup_settled

theorem Sound.not_mem_settled (hc : Sound c) (h : id ∈ c.pending) :
    id ∉ c.settled.map Prod.fst := fun hs =>
  (List.nodup_append.mp hc.nodup).2.2 id h id hs rfl

theorem Sound.outcome?_of_mem (hc : Sound c) (h : id ∈ c.pending) : c.outcome? id = none := by
  cases ho : c.outcome? id with
  | none => rfl
  | some o =>
    have hm := hc.outcome?_eq_some_iff.mp ho
    exact absurd (List.mem_map.mpr ⟨_, hm, rfl⟩) (hc.not_mem_settled h)

theorem Sound.running_of_mem (hc : Sound c) (h : id ∈ c.pending) : c.phase = .running :=
  Decidable.byContradiction fun hr => List.not_mem_nil (hc.idle hr ▸ h)

/-- An issued call is pending as long as it has no outcome. -/
theorem Sound.mem_pending_iff (hc : Sound c) :
    id ∈ c.pending ↔ (0 < id ∧ id < c.nextId) ∧ c.outcome? id = none := by
  rw [← hc.mem_known, known, List.mem_append]
  constructor
  · intro h
    exact ⟨.inl h, hc.outcome?_of_mem h⟩
  · rintro ⟨h | h, ho⟩
    · exact h
    · obtain ⟨⟨k, p⟩, hm, rfl⟩ := List.mem_map.mp h
      rw [hc.outcome?_eq_some_iff.mpr hm] at ho
      exact absurd ho (Option.some_ne_none p)

/-! ### Steps -/

theorem Sound.outcome?_step (hc : Sound c) (h : Step c e d) (id : Int64) :
    d.outcome? id = if id ∈ c.pending then e.outcomeFor? id else c.outcome? id := by
  have hnone (hid : id ∈ c.pending) : c.outcome? id = none := hc.outcome?_of_mem hid
  cases h with
  | begin | register | fetch =>
    change c.outcome? id = _
    split
    · exact hnone ‹_›
    · rfl
  | @reply r k hr hk =>
    rw [outcome?_retire]
    by_cases hid : id = k
    · subst hid
      simp [hk, Event.outcomeFor?, hr]
    · have hne : k ≠ id := Ne.symm hid
      simp only [if_neg hid, Event.outcomeFor?, hr, Id.int.injEq, if_neg hne]
      split
      · exact hnone ‹_›
      · rfl
  | @remove k hk =>
    rw [outcome?_retire]
    by_cases hid : id = k
    · subst hid
      simp [hk, Event.outcomeFor?]
    · have hne : k ≠ id := Ne.symm hid
      simp only [if_neg hid, Event.outcomeFor?, if_neg hne]
      split
      · exact hnone ‹_›
      · rfl
  | close reason _ => exact outcome?_closed c reason id

theorem Step.mem_known (h : Step c e d) :
    id ∈ d.known ↔ id ∈ c.known ∨ (e = .register ∧ id = c.nextId) := by
  cases h with
  | begin | fetch => simp [known]
  | register => simp [(issueNext_known c).mem_iff, or_comm]
  | reply _ hk | remove hk => simp [(retire_known hk _).mem_iff]
  | close reason => simp [(closed_known c reason).mem_iff]

theorem Step.nextId_cases (h : Step c e d) :
    (e = .register ∧ d.nextId.toInt = c.nextId.toInt + 1) ∨ d.nextId = c.nextId := by
  cases h with
  | register _ hn => exact .inl ⟨rfl, toInt_succ hn⟩
  | begin | reply | remove | close | fetch => exact .inr rfl

theorem Run.mem_known {es : List Event} (h : Run c es d) (hid : id ∈ c.known) : id ∈ d.known := by
  induction h with
  | nil => exact hid
  | cons step _ ih => exact ih (step.mem_known.mpr (.inl hid))

theorem Sound.outcome?_of_step (hc : Sound c) (h : Step c e d) (ho : c.outcome? id = some o) :
    d.outcome? id = some o := by
  have hid : id ∉ c.pending := by
    intro hid
    rw [hc.outcome?_of_mem hid] at ho
    cases ho
  rw [hc.outcome?_step h, if_neg hid, ho]

/-- An outcome is never replaced. -/
theorem Sound.outcome?_of_run {es : List Event} (hc : Sound c) (h : Run c es d)
    (ho : c.outcome? id = some o) : d.outcome? id = some o := by
  induction h with
  | nil => exact ho
  | cons step _ ih => exact ih (hc.step step) (hc.outcome?_of_step step ho)

/-! ### The order of the outcomes does not matter -/

/-- The same calls have the same outcomes, which may have come in another order. -/
structure Alike (c d : Calls) : Prop where
  phase : c.phase = d.phase
  nextId : c.nextId = d.nextId
  pending : c.pending = d.pending
  fetched : c.fetched = d.fetched
  settled : c.settled.Perm d.settled

namespace Alike

theorem refl (c : Calls) : Alike c c := ⟨rfl, rfl, rfl, rfl, .refl _⟩

theorem trans (h : Alike c d) (h' : Alike d f) : Alike c f :=
  ⟨h.phase.trans h'.phase, h.nextId.trans h'.nextId, h.pending.trans h'.pending,
    h.fetched.trans h'.fetched, h.settled.trans h'.settled⟩

theorem known (h : Alike c d) : d.known.Perm c.known := by
  rw [Calls.known, Calls.known, h.pending]
  exact (h.settled.symm.map _).append_left _

theorem sound (h : Alike c d) (hc : Sound c) : Sound d := by
  refine hc.of_perm h.known h.nextId.symm ?_ ?_
  · intro id hid
    rw [← h.fetched] at hid
    exact (h.settled.map _).subset (hc.fetched hid)
  · intro hr
    rw [← h.phase] at hr
    exact h.pending ▸ hc.idle hr

theorem outcome? (h : Alike c d) (hc : Sound c) (id : Int64) : c.outcome? id = d.outcome? id := by
  refine Option.ext fun o => ?_
  rw [hc.outcome?_eq_some_iff, (h.sound hc).outcome?_eq_some_iff]
  exact h.settled.mem_iff

end Alike

end LanguageClient.Calls
