import LanguageClient.Calls

/-!
# Steps of the table of calls

What an operation does to the table is one `Step`, or nothing. The spec lemmas of the operations
(`begin_cases`, `register_of_running`, `complete_cases`, `remove_cases`, `close_cases`,
`fetch_cases`) say which. Two invariants are carried over a `Run` of steps: `Sound`, that each
issued id is in one place, and `Awaited`, that a caller who waits for an id will not find it taken
back by somebody else.
-/

namespace LanguageClient.Calls

variable {c d : Calls} {id : Int64}

/-- An id leaves the table with its outcome. -/
def retire (c : Calls) (id : Int64) (o : Outcome) : Calls :=
  { c with pending := c.pending.erase id, settled := (id, o) :: c.settled }

/-- The next id enters the table. -/
def issueNext (c : Calls) : Calls :=
  { c with nextId := c.nextId + 1, pending := c.pending ++ [c.nextId] }

/-- All ids leave the table for one reason. -/
def closed (c : Calls) (reason : Bytes) : Calls :=
  { c with
    phase := .stopped, pending := []
    settled := (c.pending.map (·, .closed reason)).reverse ++ c.settled }

/-! ### What each operation does -/

theorem begin_cases (c : Calls) :
    (c.phase = .unstarted ∧ c.begin = ({ c with phase := .running }, true)) ∨
      (c.phase ≠ .unstarted ∧ c.begin = (c, false)) := by
  by_cases h : c.phase = .unstarted
  · exact .inl ⟨h, if_pos h⟩
  · exact .inr ⟨h, if_neg h⟩

theorem register_of_running (h : c.phase = .running) : c.register = .ok (c.nextId, c.issueNext) :=
  if_pos h

theorem register_of_not_running (h : c.phase ≠ .running) : c.register = .error c.phase := if_neg h

/-- A response answers a pending call, or changes nothing. -/
theorem complete_cases (c : Calls) (r : Response) :
    (∃ id, r.id = .int id ∧ id ∈ c.pending ∧ c.complete r = (c.retire id (.reply r), true)) ∨
      (c.waitsFor r.id = false ∧ c.complete r = (c, false)) := by
  cases hr : r.id with
  | string s => exact .inr ⟨rfl, by simp only [complete, hr]⟩
  | int id =>
    by_cases hid : id ∈ c.pending
    · exact .inl ⟨id, rfl, hid, by simp only [complete, hr, take?, if_pos hid]; rfl⟩
    · refine .inr ⟨?_, by simp only [complete, hr, take?, if_neg hid]⟩
      simpa [waitsFor] using hid

theorem complete_of_mem {r : Response} (hr : r.id = .int id) (hid : id ∈ c.pending) :
    c.complete r = (c.retire id (.reply r), true) := by
  rcases c.complete_cases r with ⟨k, hk, -, h⟩ | ⟨hw, -⟩
  · cases hr.symm.trans hk
    exact h
  · rw [hr] at hw
    simp [waitsFor, hid] at hw

theorem complete_of_not_waiting {r : Response} (h : c.waitsFor r.id = false) :
    c.complete r = (c, false) := by
  rcases c.complete_cases r with ⟨k, hk, hid, -⟩ | ⟨-, heq⟩
  · rw [hk] at h
    simp [waitsFor, hid] at h
  · exact heq

/-- A caller takes a pending call back, or changes nothing. -/
theorem remove_cases (c : Calls) (id : Int64) :
    (id ∈ c.pending ∧ c.remove (.int id) = (c.retire id .removed, true)) ∨
      (id ∉ c.pending ∧ c.remove (.int id) = (c, false)) := by
  by_cases hid : id ∈ c.pending
  · exact .inl ⟨hid, by simp only [remove, take?, if_pos hid]; rfl⟩
  · exact .inr ⟨hid, by simp only [remove, take?, if_neg hid]⟩

theorem remove_of_mem (hid : id ∈ c.pending) :
    c.remove (.int id) = (c.retire id .removed, true) :=
  ((c.remove_cases id).resolve_right fun h => h.1 hid).2

theorem remove_of_not_mem (hid : id ∉ c.pending) : c.remove (.int id) = (c, false) :=
  ((c.remove_cases id).resolve_left fun h => hid h.1).2

theorem foldl_settle (ids : List Int64) (c : Calls) (o : Outcome) :
    ids.foldl (fun c id => c.settle o id) c =
      { c with settled := (ids.map (·, o)).reverse ++ c.settled } := by
  induction ids generalizing c with
  | nil => rfl
  | cons id ids ih =>
    rw [List.foldl_cons, ih]
    simp [settle]

theorem close_cases (c : Calls) (reason : Bytes) :
    (c.phase ≠ .stopped ∧ c.close reason = (c.closed reason, true)) ∨
      (c.phase = .stopped ∧ c.close reason = (c, false)) := by
  by_cases h : c.phase = .stopped
  · exact .inr ⟨h, by simp only [close, takeAll?, if_pos h]⟩
  · refine .inl ⟨h, ?_⟩
    simp only [close, takeAll?, if_neg h, foldl_settle]
    rfl

theorem close_of_ne (h : c.phase ≠ .stopped) (reason : Bytes) :
    c.close reason = (c.closed reason, true) :=
  ((c.close_cases reason).resolve_right fun hs => h hs.1).2

theorem close_of_stopped (h : c.phase = .stopped) (reason : Bytes) : c.close reason = (c, false) :=
  ((c.close_cases reason).resolve_left fun hs => hs.1 h).2

/-- An outcome is given out once, to the first who asks when it is there. -/
theorem fetch_cases (c : Calls) (id : Int64) :
    (∃ o, id ∉ c.fetched ∧ c.outcome? id = some o ∧
        c.fetch id = ({ c with fetched := id :: c.fetched }, .outcome o)) ∨
      (id ∉ c.fetched ∧ c.outcome? id = none ∧ c.fetch id = (c, .waiting)) ∨
      (id ∈ c.fetched ∧ c.fetch id = (c, .taken)) := by
  by_cases hid : id ∈ c.fetched
  · exact .inr (.inr ⟨hid, if_pos hid⟩)
  · cases ho : c.outcome? id with
    | none => exact .inr (.inl ⟨hid, rfl, by simp only [fetch, if_neg hid, ho]⟩)
    | some o => exact .inl ⟨o, hid, rfl, by simp only [fetch, if_neg hid, ho]⟩

/-! ### What an operation has done -/

theorem begin_eq_true (h : c.begin = (d, true)) :
    c.phase = .unstarted ∧ d = { c with phase := .running } := by
  rcases c.begin_cases with ⟨hp, hc⟩ | ⟨-, hc⟩ <;> rw [hc] at h <;> cases h
  exact ⟨hp, rfl⟩

theorem register_eq_ok (h : c.register = .ok (id, d)) :
    c.phase = .running ∧ id = c.nextId ∧ d = c.issueNext := by
  by_cases hp : c.phase = .running
  · rw [register_of_running hp] at h
    cases h
    exact ⟨hp, rfl, rfl⟩
  · rw [register_of_not_running hp] at h
    cases h

theorem remove_eq_true (h : c.remove (.int id) = (d, true)) :
    id ∈ c.pending ∧ d = c.retire id .removed := by
  rcases c.remove_cases id with ⟨hid, hc⟩ | ⟨-, hc⟩ <;> rw [hc] at h <;> cases h
  exact ⟨hid, rfl⟩

theorem remove_eq_false (h : c.remove (.int id) = (d, false)) : id ∉ c.pending ∧ d = c := by
  rcases c.remove_cases id with ⟨-, hc⟩ | ⟨hid, hc⟩ <;> rw [hc] at h <;> cases h
  exact ⟨hid, rfl⟩

theorem fetch_eq_outcome {o : Outcome} (h : c.fetch id = (d, .outcome o)) :
    id ∉ c.fetched ∧ c.outcome? id = some o ∧ d = { c with fetched := id :: c.fetched } := by
  rcases c.fetch_cases id with ⟨p, hid, hp, hc⟩ | ⟨-, -, hc⟩ | ⟨-, hc⟩ <;> rw [hc] at h <;> cases h
  exact ⟨hid, hp, rfl⟩

theorem take?_eq_some (h : c.take? id = some d) :
    id ∈ c.pending ∧ d = { c with pending := c.pending.erase id } := by
  obtain ⟨hid, hd⟩ := Option.ite_none_right_eq_some.mp h
  exact ⟨hid, (Option.some.inj hd).symm⟩

theorem takeAll?_eq_some {left : List Int64} (h : c.takeAll? = some (left, d)) :
    c.phase ≠ .stopped ∧ left = c.pending ∧ d = { c with phase := .stopped, pending := [] } := by
  obtain ⟨hp, hd⟩ := Option.ite_none_left_eq_some.mp h
  cases hd
  exact ⟨hp, rfl, rfl⟩

/-! ### Steps and runs -/

/-- What may be done to the table. -/
inductive Event where
  | begin
  | register
  | reply (r : Response)
  | remove (id : Int64)
  | close (reason : Bytes)
  | fetch (id : Int64)

/-- It comes from the server or ends the client; no caller does it. -/
def Event.IsArrival : Event → Prop
  | .reply _ | .close _ => True
  | .begin | .register | .remove _ | .fetch _ => False

/-- An event that takes effect. Ids may be issued until they run out. -/
inductive Step (c : Calls) : Event → Calls → Prop where
  | begin : c.phase = .unstarted → Step c .begin { c with phase := .running }
  | register : c.phase = .running → c.nextId < Int64.maxValue → Step c .register c.issueNext
  | reply {r : Response} {id : Int64} :
      r.id = .int id → id ∈ c.pending → Step c (.reply r) (c.retire id (.reply r))
  | remove {id : Int64} : id ∈ c.pending → Step c (.remove id) (c.retire id .removed)
  | close (reason : Bytes) : c.phase ≠ .stopped → Step c (.close reason) (c.closed reason)
  | fetch {id : Int64} {o : Outcome} :
      id ∉ c.fetched → c.outcome? id = some o →
        Step c (.fetch id) { c with fetched := id :: c.fetched }

inductive Run : Calls → List Event → Calls → Prop where
  | nil {c : Calls} : Run c [] c
  | cons {c d f : Calls} {e : Event} {es : List Event} : Step c e d → Run d es f → Run c (e :: es) f

theorem Step.run {e : Event} (h : Step c e d) : Run c [e] d := .cons h .nil

theorem Run.append {f : Calls} {es es' : List Event} (h : Run c es d) (h' : Run d es' f) :
    Run c (es ++ es') f := by
  induction h with
  | nil => exact h'
  | cons step _ ih => exact .cons step (ih h')

/-! ### Every issued id is in one place -/

/-- The ids in the table and those with an outcome. -/
def known (c : Calls) : List Int64 := c.pending ++ c.settled.map Prod.fst

structure Sound (c : Calls) : Prop where
  nextId_pos : 0 < c.nextId
  mem_known : ∀ id, id ∈ c.known ↔ 0 < id ∧ id < c.nextId
  nodup : c.known.Nodup
  fetched : c.fetched ⊆ c.settled.map Prod.fst
  idle : c.phase ≠ .running → c.pending = []

theorem retire_known (h : id ∈ c.pending) (o : Outcome) : (c.retire id o).known.Perm c.known := by
  have h₁ : (c.pending.erase id ++ id :: c.settled.map Prod.fst).Perm
      (id :: c.pending.erase id ++ c.settled.map Prod.fst) := List.perm_middle
  exact h₁.trans ((List.perm_cons_erase h).symm.append_right _)

theorem closed_known (c : Calls) (reason : Bytes) : (c.closed reason).known.Perm c.known := by
  have h : (c.closed reason).known = c.pending.reverse ++ c.settled.map Prod.fst := by
    simp [known, closed, Function.comp_def]
  rw [h]
  exact (List.reverse_perm _).append_right _

theorem issueNext_known (c : Calls) : c.issueNext.known.Perm (c.nextId :: c.known) := by
  have h : c.issueNext.known = c.pending ++ c.nextId :: c.settled.map Prod.fst := by
    simp [known, issueNext]
  rw [h]
  exact List.perm_middle

theorem toInt_succ {n : Int64} (h : n < Int64.maxValue) : (n + 1).toInt = n.toInt + 1 := by
  have hmax : n.toInt < 9223372036854775807 := Int64.lt_iff_toInt_lt.mp h
  have hmin := n.le_toInt
  rw [Int64.toInt_add, show (1 : Int64).toInt = 1 from rfl]
  exact Int.bmod_eq_of_le (by omega) (by omega)

theorem Sound.of_perm (hc : Sound c) (hk : d.known.Perm c.known) (hn : d.nextId = c.nextId)
    (hf : d.fetched ⊆ d.settled.map Prod.fst) (hi : d.phase ≠ .running → d.pending = []) :
    Sound d where
  nextId_pos := hn ▸ hc.nextId_pos
  mem_known id := by rw [hk.mem_iff, hn, hc.mem_known]
  nodup := hk.nodup_iff.mpr hc.nodup
  fetched := hf
  idle := hi

theorem Sound.init : Sound {} where
  nextId_pos := by decide
  mem_known id := by
    constructor
    · intro h
      exact absurd h List.not_mem_nil
    · rintro ⟨h₁, h₂⟩
      rw [Int64.lt_iff_toInt_lt] at h₁ h₂
      have : (0 : Int64).toInt = 0 := rfl
      have : ({} : Calls).nextId.toInt = 1 := rfl
      omega
  nodup := .nil
  fetched := List.Subset.refl _
  idle _ := rfl

theorem Sound.nextId_not_mem (hc : Sound c) : c.nextId ∉ c.known := fun h =>
  Int64.lt_irrefl ((hc.mem_known _).mp h).2

theorem Sound.issueNext (hc : Sound c) (hr : c.phase = .running) (hn : c.nextId < Int64.maxValue) :
    Sound c.issueNext where
  nextId_pos := by
    have h := hc.nextId_pos
    rw [Int64.lt_iff_toInt_lt] at h ⊢
    change _ < (c.nextId + 1).toInt
    rw [toInt_succ hn]
    have : (0 : Int64).toInt = 0 := rfl
    omega
  mem_known id := by
    have hpos := hc.nextId_pos
    rw [(issueNext_known c).mem_iff, List.mem_cons, hc.mem_known]
    change _ ↔ 0 < id ∧ id < c.nextId + 1
    simp only [Int64.lt_iff_toInt_lt, toInt_succ hn, ← Int64.toInt_inj] at hpos ⊢
    omega
  nodup := (issueNext_known c).nodup_iff.mpr (List.nodup_cons.mpr ⟨hc.nextId_not_mem, hc.nodup⟩)
  fetched := hc.fetched
  idle h := absurd hr h

theorem Sound.step {e : Event} (hc : Sound c) (h : Step c e d) : Sound d := by
  cases h with
  | begin hp => exact hc.of_perm (.refl _) rfl hc.fetched fun _ => hc.idle (by simp [hp])
  | register hr hn => exact hc.issueNext hr hn
  | reply _ hid =>
    exact hc.of_perm (retire_known hid _) rfl (fun x hx => .tail _ (hc.fetched hx)) fun hr => by
      simp [retire, hc.idle hr]
  | remove hid =>
    exact hc.of_perm (retire_known hid _) rfl (fun x hx => .tail _ (hc.fetched hx)) fun hr => by
      simp [retire, hc.idle hr]
  | close reason _ =>
    refine hc.of_perm (closed_known c reason) rfl (fun x hx => ?_) fun _ => rfl
    rw [closed, List.map_append]
    exact List.mem_append_right _ (hc.fetched hx)
  | @fetch id o _ ho =>
    refine hc.of_perm (.refl _) rfl (fun x hx => ?_) hc.idle
    rcases List.mem_cons.mp hx with rfl | hx
    · have hmem := List.lookup_eq_some_iff.mp ho
      obtain ⟨l, r, heq, -⟩ := hmem
      simp [heq]
    · exact hc.fetched hx

theorem Sound.run {es : List Event} (hc : Sound c) (h : Run c es d) : Sound d := by
  induction h with
  | nil => exact hc
  | cons step _ ih => exact ih (hc.step step)

/-! ### An id that a caller waits for -/

/-- The outcome did not come from its caller. -/
def Outcome.IsGiven : Outcome → Prop
  | .reply _ | .closed _ => True
  | .removed => False

/-- The caller of `id` has not come back: it is pending, or its outcome is there for it to fetch.
-/
structure Awaited (c : Calls) (id : Int64) : Prop where
  nodup : c.pending.Nodup
  unfetched : id ∉ c.fetched
  state : (id ∈ c.pending ∧ c.outcome? id = none) ∨
    (id ∉ c.pending ∧ ∃ o, c.outcome? id = some o ∧ o.IsGiven)

theorem Sound.awaited (hc : Sound c) : Awaited c.issueNext c.nextId where
  nodup := (List.nodup_append.mp ((issueNext_known c).nodup_iff.mpr
    (List.nodup_cons.mpr ⟨hc.nextId_not_mem, hc.nodup⟩))).1
  unfetched h := hc.nextId_not_mem (List.mem_append_right _ (hc.fetched h))
  state := by
    refine .inl ⟨List.mem_append_right _ (List.mem_singleton.mpr rfl), ?_⟩
    refine List.lookup_eq_none_iff.mpr fun p hp => ?_
    have hne : c.nextId ≠ p.1 := fun h =>
      hc.nextId_not_mem (h ▸ List.mem_append_right _ (List.mem_map_of_mem hp))
    simpa using hne

theorem outcome?_retire (c : Calls) (id other : Int64) (o : Outcome) :
    (c.retire id o).outcome? other = if other = id then some o else c.outcome? other := by
  by_cases h : other = id
  · simp [retire, outcome?, h]
  · have hne : (other == id) = false := beq_eq_false_iff_ne.mpr h
    simp [retire, outcome?, List.lookup_cons, hne, h]

theorem lookup_reverse_map {ids : List Int64} (o : Outcome) :
    (ids.map (·, o)).reverse.lookup id = if id ∈ ids then some o else none := by
  induction ids with
  | nil => rfl
  | cons x xs ih =>
    rw [List.map_cons, List.reverse_cons, List.lookup_append, ih]
    by_cases hxs : id ∈ xs
    · simp [hxs]
    · by_cases hx : id = x
      · subst hx
        simp [hxs]
      · have hne : (id == x) = false := beq_eq_false_iff_ne.mpr hx
        simp [hxs, hx, List.lookup_cons, hne]

theorem outcome?_closed (c : Calls) (reason : Bytes) (id : Int64) :
    (c.closed reason).outcome? id =
      if id ∈ c.pending then some (.closed reason) else c.outcome? id := by
  rw [outcome?, closed, List.lookup_append, lookup_reverse_map]
  by_cases h : id ∈ c.pending <;> simp [h, outcome?]

theorem Awaited.step {e : Event} (hc : Awaited c id) (he : e.IsArrival) (h : Step c e d) :
    Awaited d id := by
  cases h with
  | begin | register | remove | fetch => exact he.elim
  | @reply r k _ hk =>
    refine ⟨hc.nodup.erase k, hc.unfetched, ?_⟩
    by_cases hid : id = k
    · subst hid
      exact .inr ⟨hc.nodup.not_mem_erase, .reply r, by rw [outcome?_retire, if_pos rfl], trivial⟩
    · rw [outcome?_retire, if_neg hid]
      simpa [retire, List.mem_erase_of_ne hid] using hc.state
  | close reason _ =>
    refine ⟨.nil, hc.unfetched, .inr ⟨List.not_mem_nil, ?_⟩⟩
    rw [outcome?_closed]
    rcases hc.state with ⟨hp, -⟩ | ⟨hp, o, ho, hg⟩
    · exact ⟨.closed reason, if_pos hp, trivial⟩
    · exact ⟨o, by rw [if_neg hp, ho], hg⟩

theorem Awaited.run {es : List Event} (hc : Awaited c id) (hes : ∀ e ∈ es, e.IsArrival)
    (h : Run c es d) : Awaited d id := by
  induction h with
  | nil => exact hc
  | cons step _ ih =>
    have ⟨he, hes⟩ := List.forall_mem_cons.mp hes
    exact ih (hc.step he step) hes

end LanguageClient.Calls
