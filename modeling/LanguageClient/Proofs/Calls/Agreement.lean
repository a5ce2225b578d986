import LanguageClient.Proofs.Calls.Step

/-!
# Tables that agree

Two tables agree if they are equal but for the order in which their outcomes came (`Agree`). All that
is done to a table keeps them so and is answered alike for both. A call that leaves the table with an
outcome does not matter to what is done to the others (`complete_retire`, `remove_retire`,
`fetch_retire`).
-/

namespace LanguageClient.Calls

variable {c d f : Calls} {id k : Int64} {o : Outcome}

/-- The tables are equal but for the order in which the outcomes came. -/
structure Agree (c d : Calls) : Prop where
  phase : c.phase = d.phase
  nextId : c.nextId = d.nextId
  pending : c.pending = d.pending
  fetched : c.fetched = d.fetched
  outcome : ∀ id, c.outcome? id = d.outcome? id

namespace Agree

theorem refl (c : Calls) : Agree c c := ⟨rfl, rfl, rfl, rfl, fun _ => rfl⟩

theorem of_eq (h : c = d) : Agree c d := h ▸ refl c

theorem symm (h : Agree c d) : Agree d c :=
  ⟨h.phase.symm, h.nextId.symm, h.pending.symm, h.fetched.symm, fun id => (h.outcome id).symm⟩

theorem trans (h : Agree c d) (h' : Agree d f) : Agree c f :=
  ⟨h.phase.trans h'.phase, h.nextId.trans h'.nextId, h.pending.trans h'.pending,
    h.fetched.trans h'.fetched, fun id => (h.outcome id).trans (h'.outcome id)⟩

theorem retire (h : Agree c d) (id : Int64) (o : Outcome) : Agree (c.retire id o) (d.retire id o) where
  phase := h.phase
  nextId := h.nextId
  pending := congrArg (List.erase · id) h.pending
  fetched := h.fetched
  outcome other := by rw [outcome?_retire, outcome?_retire, h.outcome]

theorem closed (h : Agree c d) (reason : Bytes) : Agree (c.closed reason) (d.closed reason) where
  phase := rfl
  nextId := h.nextId
  pending := rfl
  fetched := h.fetched
  outcome id := by rw [outcome?_closed, outcome?_closed, h.pending, h.outcome]

theorem begin (h : Agree c d) : Agree c.begin.1 d.begin.1 := by
  unfold Calls.begin
  rw [h.phase]
  split
  · exact ⟨rfl, h.nextId, h.pending, h.fetched, h.outcome⟩
  · exact h

theorem issueNext (h : Agree c d) : Agree c.issueNext d.issueNext where
  phase := h.phase
  nextId := congrArg (· + 1) h.nextId
  pending := by rw [Calls.issueNext, Calls.issueNext, h.pending, h.nextId]
  fetched := h.fetched
  outcome := h.outcome

theorem waitsFor (h : Agree c d) (id : Id) : c.waitsFor id = d.waitsFor id := by
  cases id with
  | string s => rfl
  | int id => simp [Calls.waitsFor, h.pending]

theorem complete (h : Agree c d) (r : Response) :
    (c.complete r).2 = (d.complete r).2 ∧ Agree (c.complete r).1 (d.complete r).1 := by
  rcases c.complete_cases r with ⟨id, hr, hid, hc⟩ | ⟨hw, hc⟩
  · rw [hc, complete_of_mem hr (h.pending ▸ hid)]
    exact ⟨rfl, h.retire ..⟩
  · rw [hc, complete_of_not_waiting (h.waitsFor _ ▸ hw)]
    exact ⟨rfl, h⟩

theorem remove (h : Agree c d) (id : Int64) :
    Agree (c.remove (.int id)).1 (d.remove (.int id)).1 := by
  rcases c.remove_cases id with ⟨hid, hc⟩ | ⟨hid, hc⟩
  · rw [hc, remove_of_mem (h.pending ▸ hid)]
    exact h.retire ..
  · rw [hc, remove_of_not_mem (h.pending ▸ hid)]
    exact h

theorem close (h : Agree c d) (reason : Bytes) :
    (c.close reason).2 = (d.close reason).2 ∧ Agree (c.close reason).1 (d.close reason).1 := by
  rcases c.close_cases reason with ⟨hp, hc⟩ | ⟨hp, hc⟩
  · rw [hc, close_of_ne (h.phase ▸ hp)]
    exact ⟨rfl, h.closed _⟩
  · rw [hc, close_of_stopped (h.phase ▸ hp)]
    exact ⟨rfl, h⟩

theorem fetch (h : Agree c d) (id : Int64) :
    (c.fetch id).2 = (d.fetch id).2 ∧ Agree (c.fetch id).1 (d.fetch id).1 := by
  unfold Calls.fetch
  rw [h.fetched, h.outcome]
  split
  · exact ⟨rfl, h⟩
  · split
    · exact ⟨rfl, h⟩
    · exact ⟨rfl, h.phase, h.nextId, h.pending, rfl, h.outcome⟩

end Agree

/-! ### Calls do not matter to each other -/

/-- The client runs, and the call waits for its response. -/
structure Waits (c : Calls) (id : Int64) : Prop where
  running : c.phase = .running
  mem : id ∈ c.pending

theorem Waits.retire (h : Waits c k) (hne : id ≠ k) (o : Outcome) : Waits (c.retire id o) k :=
  ⟨h.running, (List.mem_erase_of_ne hne.symm).mpr h.mem⟩

theorem Waits.complete (h : Waits c k) {r : Response} (hne : r.id ≠ .int k) :
    Waits (c.complete r).1 k := by
  rcases c.complete_cases r with ⟨id, hr, -, hc⟩ | ⟨-, hc⟩ <;> rw [hc]
  · exact h.retire (fun hid => hne (hid ▸ hr)) _
  · exact h

theorem Waits.remove (h : Waits c k) (hne : id ≠ k) : Waits (c.remove (.int id)).1 k := by
  rcases c.remove_cases id with ⟨-, hc⟩ | ⟨-, hc⟩ <;> rw [hc]
  · exact h.retire hne _
  · exact h

theorem retire_retire (c : Calls) (hne : id ≠ k) (o p : Outcome) :
    Agree ((c.retire k o).retire id p) ((c.retire id p).retire k o) where
  phase := rfl
  nextId := rfl
  pending := List.erase_comm k id
  fetched := rfl
  outcome other := by
    simp only [outcome?_retire]
    by_cases h : other = id
    · simp [h, hne]
    · simp [h]

theorem complete_retire (c : Calls) {r : Response} (hne : r.id ≠ .int k) (o : Outcome) :
    ((c.retire k o).complete r).2 = (c.complete r).2 ∧
      Agree ((c.retire k o).complete r).1 ((c.complete r).1.retire k o) := by
  rcases c.complete_cases r with ⟨id, hr, hid, hc⟩ | ⟨hw, hc⟩
  · have hik : id ≠ k := fun h => hne (h ▸ hr)
    rw [hc, complete_of_mem hr ((List.mem_erase_of_ne hik).mpr hid)]
    exact ⟨rfl, c.retire_retire hik o _⟩
  · have hw' : (c.retire k o).waitsFor r.id = false := by
      cases hr : r.id with
      | string s => rfl
      | int id =>
        rw [hr] at hw
        have hid : id ∉ c.pending := by simpa [waitsFor] using hw
        simpa [waitsFor, retire] using fun h => hid (List.mem_of_mem_erase h)
    rw [hc, complete_of_not_waiting hw']
    exact ⟨rfl, .refl _⟩

theorem remove_retire (c : Calls) (hne : id ≠ k) (o : Outcome) :
    Agree ((c.retire k o).remove (.int id)).1 ((c.remove (.int id)).1.retire k o) := by
  rcases c.remove_cases id with ⟨hid, hc⟩ | ⟨hid, hc⟩
  · rw [hc, remove_of_mem ((List.mem_erase_of_ne hne).mpr hid)]
    exact c.retire_retire hne o _
  · rw [hc, remove_of_not_mem fun h => hid (List.mem_of_mem_erase h)]
    exact .refl _

theorem fetch_retire (c : Calls) (hne : id ≠ k) (o : Outcome) :
    (c.retire k o).fetch id = ((c.fetch id).1.retire k o, (c.fetch id).2) := by
  unfold fetch
  rw [outcome?_retire, if_neg hne]
  change (if id ∈ c.fetched then _ else _) = _
  split
  · rfl
  · split <;> rfl

theorem issueNext_retire (c : Calls) (hk : k ∈ c.pending) (o : Outcome) :
    (c.retire k o).issueNext = c.issueNext.retire k o := by
  simp [Calls.issueNext, retire, List.erase_append_left _ hk]

end LanguageClient.Calls
