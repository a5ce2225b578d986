import LanguageClient.Inbox
import Mathlib.Data.List.Induction

/-!
# First in, first out, and the oldest is lost

What is added to an inbox leaves it in the order in which it came: it is taken, or lost, or waits
(`Gone`). So an inbox always holds the newest messages, and every message is accounted for
(`dropOldest_after`). A pop that waits is one that does not, after what is added while it waits
(`popFor_eq`).
-/

namespace LanguageClient.Inbox

variable {q : Inbox}

/-! ### One use -/

/-- The message that is lost if another one is added. -/
def displaced? (q : Inbox) : Option Message := if q.isFull then q.items.head? else none

theorem exists_oldest (hc : 0 < q.capacity) (h : q.isFull = true) :
    ∃ oldest rest, q.items = oldest :: rest := by
  have hsize : q.capacity ≤ q.items.length := of_decide_eq_true h
  exact List.exists_cons_of_length_pos (Nat.lt_of_lt_of_le hc hsize)

theorem displaced?_isSome (h : 0 < q.capacity) : q.displaced?.isSome = q.isFull := by
  unfold displaced?
  by_cases hfull : q.isFull = true
  · obtain ⟨oldest, rest, hitems⟩ := exists_oldest h hfull
    rw [if_pos hfull, hitems, hfull]
    rfl
  · simp [hfull]

/-- What is lost for a message and what stays is what there was, and the message behind it. -/
theorem push_items (q : Inbox) (m : Message) :
    q.displaced?.toList ++ (q.push m).1.items = q.items ++ [m] := by
  unfold displaced? push
  split
  · cases q.items <;> rfl
  · rfl

theorem pop_items (q : Inbox) : q.pop.2.toList ++ q.pop.1.items = q.items := by
  unfold pop
  cases q.items <;> rfl

theorem push_capacity (q : Inbox) (m : Message) : (q.push m).1.capacity = q.capacity := by
  unfold push
  split <;> rfl

theorem push_dropped (h : 0 < q.capacity) (m : Message) :
    (q.push m).1.dropped = q.dropped + q.displaced?.toList.length := by
  have hsome := displaced?_isSome h
  unfold push
  by_cases hfull : q.isFull = true
  · obtain ⟨x, hx⟩ := Option.isSome_iff_exists.mp (hsome.trans hfull)
    simp [hfull, hx]
  · simp [hfull, displaced?]

theorem push_of_isFull (h : q.isFull = true) (m : Message) :
    q.push m = ({ q with items := q.items.tail ++ [m], dropped := q.dropped + 1 }, false) :=
  if_pos h

theorem push_of_not_isFull (h : q.isFull = false) (m : Message) :
    q.push m = ({ q with items := q.items ++ [m] }, true) := by
  simp [push, h]

theorem push_eq_false_iff (q : Inbox) (m : Message) : (q.push m).2 = false ↔ q.isFull = true := by
  cases h : q.isFull with
  | true => simp [push_of_isFull h]
  | false => simp [push_of_not_isFull h]

theorem isFull_iff (hb : q.size ≤ q.capacity) : q.isFull = true ↔ q.size = q.capacity := by
  rw [isFull, decide_eq_true_iff]
  exact ⟨Nat.le_antisymm hb, fun h => Nat.le_of_eq h.symm⟩

theorem push_items_ne_nil (q : Inbox) (m : Message) : (q.push m).1.items ≠ [] := by
  unfold push
  split <;> simp

theorem pop_eq_none_iff : q.pop.2 = none ↔ q.items = [] := List.head?_eq_none_iff

theorem pop_of_items_eq_nil (h : q.items = []) : q.pop = (q, none) := by
  cases q
  simp_all [pop]

/-! ### A pop that waits -/

/-- What is added while a pop waits: the first sleep in which anything is added is the last. -/
def awaited (q : Inbox) (sleeps : List (List Message)) : List Message :=
  if q.items.isEmpty then (sleeps.find? (!·.isEmpty)).getD [] else []

theorem awaited_of_ne_nil (h : q.items ≠ []) (sleeps : List (List Message)) :
    q.awaited sleeps = [] := by
  simp [awaited, h]

theorem awaited_of_forall_nil {sleeps : List (List Message)} (h : ∀ added ∈ sleeps, added = []) :
    q.awaited sleeps = [] := by
  have hfind : sleeps.find? (!·.isEmpty) = none := by simpa using h
  unfold awaited
  split
  · rw [hfind]
    rfl
  · rfl

theorem popFor_of_ne_nil (h : q.items ≠ []) (sleeps : List (List Message)) :
    q.popFor sleeps = q.pop := by
  cases sleeps with
  | nil => rfl
  | cons added sleeps => simp [popFor, h]

theorem pushAll_items_ne_nil {ms : List Message} (hq : q.items ≠ [] ∨ ms ≠ []) :
    (q.pushAll ms).items ≠ [] := by
  induction ms generalizing q with
  | nil => exact hq.resolve_right (· rfl)
  | cons m ms ih => exact ih (.inl (q.push_items_ne_nil m))

/-- A pop that waits is one that does not, after what is added meanwhile. -/
theorem popFor_eq (q : Inbox) (sleeps : List (List Message)) :
    q.popFor sleeps = (q.pushAll (q.awaited sleeps)).pop := by
  by_cases hq : q.items = []
  · induction sleeps with
    | nil => simp [popFor, awaited, pushAll]
    | cons added sleeps ih =>
      cases added with
      | nil =>
        have hawaited : q.awaited ([] :: sleeps) = q.awaited sleeps := by simp [awaited]
        rw [hawaited, ← ih]
        simp [popFor, hq, pushAll]
      | cons m ms =>
        have hadded : (q.pushAll (m :: ms)).items ≠ [] := pushAll_items_ne_nil (.inr nofun)
        have hawaited : q.awaited ((m :: ms) :: sleeps) = m :: ms := by simp [awaited, hq]
        rw [hawaited, ← popFor_of_ne_nil hadded sleeps]
        simp [popFor, hq]
  · rw [popFor_of_ne_nil hq, awaited_of_ne_nil hq]
    rfl

/-- It comes back with nothing only if nothing was there and nothing was added. -/
theorem popFor_eq_none_iff (q : Inbox) (sleeps : List (List Message)) :
    (q.popFor sleeps).2 = none ↔ q.items = [] ∧ ∀ added ∈ sleeps, added = [] := by
  rw [popFor_eq, pop_eq_none_iff]
  by_cases hq : q.items = []
  · cases hfind : sleeps.find? (!·.isEmpty) with
    | none =>
      have hall : ∀ added ∈ sleeps, added = [] := by simpa using hfind
      simpa [awaited, hq, hfind, pushAll] using hall
    | some added =>
      have hne : added ≠ [] := by simpa using List.find?_some hfind
      have hitems : (q.pushAll added).items ≠ [] := pushAll_items_ne_nil (.inr hne)
      have hmem : ¬ ∀ added ∈ sleeps, added = [] :=
        fun hall => hne (hall added (List.mem_of_find?_eq_some hfind))
      simp only [awaited, hq, List.isEmpty_nil, if_true, hfind, Option.getD_some, hitems, hmem,
        and_false]
  · rw [awaited_of_ne_nil hq]
    simp [pushAll, hq]

/-! ### Histories -/

/-- What is done to an inbox. -/
inductive Use where
  | push (m : Message)
  | tryPop
  /-- A pop that waits, with what is added in each of its sleeps. -/
  | popFor (sleeps : List (List Message))

/-- An inbox, what was added to it and what was taken out of it, in order. -/
structure History where
  inbox : Inbox
  pushed : List Message := []
  popped : List Message := []

namespace History

variable {h : History}

def use (h : History) : Use → History
  | .push m => { h with inbox := (h.inbox.push m).1, pushed := h.pushed ++ [m] }
  | .tryPop =>
    { h with inbox := h.inbox.pop.1, popped := h.popped ++ h.inbox.pop.2.toList }
  | .popFor sleeps =>
    { inbox := (h.inbox.popFor sleeps).1
      pushed := h.pushed ++ h.inbox.awaited sleeps
      popped := h.popped ++ (h.inbox.popFor sleeps).2.toList }

/-- The history of an inbox for which a capacity was asked. -/
def after (capacity : Nat) (uses : List Use) : History :=
  uses.foldl use { inbox := .ofCapacity capacity }

theorem foldl_push (h : History) (ms : List Message) :
    (ms.map Use.push).foldl use h =
      { h with inbox := h.inbox.pushAll ms, pushed := h.pushed ++ ms } := by
  induction ms generalizing h with
  | nil => simp [pushAll]
  | cons m ms ih =>
    rw [List.map_cons, List.foldl_cons, ih]
    simp [use, pushAll]

/-- A pop that waits may be replaced by what is added meanwhile, and then one that does not wait. -/
theorem use_popFor (h : History) (sleeps : List (List Message)) :
    h.use (.popFor sleeps) =
      ((h.inbox.awaited sleeps).map Use.push ++ [Use.tryPop]).foldl use h := by
  rw [List.foldl_append, foldl_push]
  simp [use, popFor_eq]

/-- Induction over the uses of an inbox; a pop that waits is no case of its own. -/
theorem after_induction {motive : History → Prop} (capacity : Nat)
    (start : motive { inbox := .ofCapacity capacity })
    (push : ∀ h m, motive h → motive (h.use (.push m)))
    (tryPop : ∀ h, motive h → motive (h.use .tryPop)) (uses : List Use) :
    motive (after capacity uses) := by
  have pushAll (h : History) (ms : List Message) (hh : motive h) :
      motive ((ms.map Use.push).foldl use h) := by
    induction ms generalizing h with
    | nil => exact hh
    | cons m ms ih => exact ih _ (push h m hh)
  induction uses using List.reverseRecOn with
  | nil => exact start
  | append_singleton uses u ih =>
    rw [after, List.foldl_append]
    change motive ((after capacity uses).use u)
    cases u with
    | push m => exact push _ m ih
    | tryPop => exact tryPop _ ih
    | popFor sleeps =>
      rw [use_popFor, List.foldl_append]
      exact tryPop _ (pushAll _ _ ih)

/-- How a message left the inbox. -/
inductive Exit where
  | taken
  | lost
  deriving DecidableEq

/-- What has left the inbox, in the order in which it was added, which is also the order in which it
left. -/
structure Gone (h : History) (gone : List (Message × Exit)) : Prop where
  pushed : h.pushed = gone.map Prod.fst ++ h.inbox.items
  popped : h.popped = (gone.filter (·.2 = .taken)).map Prod.fst
  dropped : h.inbox.dropped = gone.countP (·.2 = .lost)

theorem Gone.newest {gone : List (Message × Exit)} (hg : Gone h gone) :
    h.inbox.items = h.pushed.drop (h.pushed.length - h.inbox.size) := by
  have hlength : h.pushed.length - h.inbox.size = (gone.map Prod.fst).length := by
    rw [hg.pushed, List.length_append, size, Nat.add_sub_cancel]
  rw [hlength, hg.pushed, List.drop_left]

theorem Gone.sublist {gone : List (Message × Exit)} (hg : Gone h gone) :
    h.popped.Sublist h.pushed := by
  rw [hg.popped, hg.pushed]
  exact (List.filter_sublist.map Prod.fst).trans (List.sublist_append_left _ _)

theorem Gone.balance {gone : List (Message × Exit)} (hg : Gone h gone) :
    h.pushed.length = h.popped.length + h.inbox.dropped + h.inbox.size := by
  have htaken : h.popped.length = gone.countP (·.2 = .taken) := by
    rw [hg.popped, List.length_map, List.countP_eq_length_filter]
  have hlost : gone.countP (fun g => ¬ decide (g.2 = .taken) = true) =
      gone.countP (·.2 = .lost) := by
    refine List.countP_congr fun g _ => ?_
    cases g.2 <;> simp
  calc h.pushed.length
    _ = gone.length + h.inbox.size := by
      rw [hg.pushed, List.length_append, List.length_map, size]
    _ = gone.countP (·.2 = .taken) + gone.countP (·.2 = .lost) + h.inbox.size := by
      rw [List.length_eq_countP_add_countP (·.2 = Exit.taken) (l := gone), hlost]
    _ = h.popped.length + h.inbox.dropped + h.inbox.size := by rw [htaken, hg.dropped]

theorem Gone.push {gone : List (Message × Exit)} (hg : Gone h gone) (hc : 0 < h.inbox.capacity)
    (m : Message) :
    Gone (h.use (.push m)) (gone ++ h.inbox.displaced?.toList.map (·, .lost)) where
  pushed := by
    have hitems := h.inbox.push_items m
    simp only [use, hg.pushed, List.map_append, List.map_map, List.append_assoc, ← hitems]
    simp [Function.comp_def]
  popped := by simp [use, hg.popped, List.filter_map, Function.comp_def]
  dropped := by
    have hdropped := push_dropped hc m
    simp [use, hdropped, hg.dropped, List.countP_map, Function.comp_def]

theorem Gone.tryPop {gone : List (Message × Exit)} (hg : Gone h gone) :
    Gone (h.use .tryPop) (gone ++ h.inbox.pop.2.toList.map (·, .taken)) where
  pushed := by
    have hitems := h.inbox.pop_items
    simp only [use, hg.pushed, List.map_append, List.map_map, List.append_assoc]
    rw [← hitems]
    simp [Function.comp_def]
  popped := by
    have htaken : (h.inbox.pop.2.toList.map (·, Exit.taken)).filter (·.2 = .taken) =
        h.inbox.pop.2.toList.map (·, Exit.taken) := List.filter_eq_self.mpr (by simp)
    simp [use, hg.popped, htaken, Function.comp_def]
  dropped := by
    simp [use, hg.dropped, pop, List.countP_map, Function.comp_def]

/-- What every use keeps. -/
structure Kept (capacity : Nat) (h : History) : Prop where
  capacity : h.inbox.capacity = max 1 capacity
  bounded : h.inbox.size ≤ h.inbox.capacity
  gone : ∃ gone, Gone h gone

theorem Kept.push {capacity : Nat} (hk : Kept capacity h) (m : Message) :
    Kept capacity (h.use (.push m)) where
  capacity := (h.inbox.push_capacity m).trans hk.capacity
  bounded := by
    have hcapacity := h.inbox.push_capacity m
    have hbounded := hk.bounded
    have hpos : 0 < h.inbox.capacity := by rw [hk.capacity]; omega
    change (h.inbox.push m).1.size ≤ (h.inbox.push m).1.capacity
    rw [hcapacity]
    cases hfull : h.inbox.isFull with
    | true =>
      -- The loss makes room: one message goes and one comes.
      rw [push_of_isFull hfull]
      simp only [size, List.length_append, List.length_tail, List.length_singleton] at hbounded ⊢
      omega
    | false =>
      have hroom : h.inbox.size < h.inbox.capacity := Nat.lt_of_not_le (of_decide_eq_false hfull)
      rw [push_of_not_isFull hfull]
      simp only [size, List.length_append, List.length_singleton] at hroom ⊢
      exact hroom
  gone := by
    have hpos : 0 < h.inbox.capacity := by rw [hk.capacity]; omega
    obtain ⟨gone, hg⟩ := hk.gone
    exact ⟨_, hg.push hpos m⟩

theorem Kept.tryPop {capacity : Nat} (hk : Kept capacity h) : Kept capacity (h.use .tryPop) where
  capacity := hk.capacity
  bounded := by
    have hbounded := hk.bounded
    simp only [use, pop, size, List.length_tail] at hbounded ⊢
    omega
  gone := by
    obtain ⟨gone, hg⟩ := hk.gone
    exact ⟨_, hg.tryPop⟩

theorem kept_after (capacity : Nat) (uses : List Use) : Kept capacity (after capacity uses) := by
  refine after_induction capacity ?_ (fun _ m hk => hk.push m) (fun _ hk => hk.tryPop) uses
  exact ⟨rfl, Nat.zero_le _, [], rfl, rfl, rfl⟩

end History

/-! ### All of it -/

/-- An inbox with its history drops the oldest message when it is full, and nothing else. -/
structure DropOldest (capacity : Nat) (h : History) : Prop where
  /-- A capacity of zero acts as one. -/
  capacity : h.inbox.capacity = if capacity = 0 then 1 else capacity
  bounded : h.inbox.size ≤ h.inbox.capacity
  /-- The inbox holds the newest messages, -/
  newest : h.inbox.items = h.pushed.drop (h.pushed.length - h.inbox.size)
  /-- those before them were taken or lost, one after the other, -/
  gone : ∃ gone, History.Gone h gone
  popped : h.popped.Sublist h.pushed
  balance : h.pushed.length = h.popped.length + h.inbox.dropped + h.inbox.size
  /-- A push answers that something was lost exactly if the inbox is full, -/
  push_eq_false_iff : ∀ m, (h.inbox.push m).2 = false ↔ h.inbox.size = h.inbox.capacity
  push_dropped : ∀ m, (h.inbox.push m).1.dropped =
    h.inbox.dropped + if h.inbox.size = h.inbox.capacity then 1 else 0
  /-- and then it is the oldest message that is lost. -/
  push_of_full : ∀ m, h.inbox.size = h.inbox.capacity → ∃ oldest rest,
    h.inbox.items = oldest :: rest ∧ (h.inbox.push m).1.items = rest ++ [m]
  push_of_room : ∀ m, h.inbox.size ≠ h.inbox.capacity →
    (h.inbox.push m).1.items = h.inbox.items ++ [m]
  /-- A pop takes the oldest message, and comes back with nothing exactly if there is none, -/
  pop_of_cons : ∀ oldest rest, h.inbox.items = oldest :: rest →
    h.inbox.pop = ({ h.inbox with items := rest }, some oldest)
  pop_eq_none_iff : h.inbox.pop.2 = none ↔ h.inbox.size = 0
  pop_of_nil : h.inbox.items = [] → h.inbox.pop = (h.inbox, none)
  /-- whether it waits or not, if nothing is added meanwhile. -/
  popFor : ∀ sleeps, (∀ added ∈ sleeps, added = []) → h.inbox.popFor sleeps = h.inbox.pop
  popFor_eq_none_iff : ∀ sleeps, (h.inbox.popFor sleeps).2 = none ↔
    h.inbox.size = 0 ∧ ∀ added ∈ sleeps, added = []
  /-- One that waits is in any case one that does not, after what is added meanwhile. -/
  waits : ∀ sleeps, h.use (.popFor sleeps) =
    ((h.inbox.awaited sleeps).map Use.push ++ [Use.tryPop]).foldl History.use h

/-- Whatever is done to an inbox, it is first in, first out, and loses the oldest. -/
theorem dropOldest_after (capacity : Nat) (uses : List Use) :
    DropOldest capacity (History.after capacity uses) := by
  obtain ⟨hcapacity, hbounded, gone, hgone⟩ := History.kept_after capacity uses
  generalize History.after capacity uses = h at *
  have hpos : 0 < h.inbox.capacity := by rw [hcapacity]; omega
  have hfull := isFull_iff hbounded
  have hroom (hne : h.inbox.size ≠ h.inbox.capacity) : h.inbox.isFull = false :=
    Bool.eq_false_iff.mpr fun hf => hne (hfull.mp hf)
  exact {
    capacity := by
      rw [hcapacity]
      split <;> omega
    bounded := hbounded
    newest := hgone.newest
    gone := ⟨gone, hgone⟩
    popped := hgone.sublist
    balance := hgone.balance
    push_eq_false_iff := fun m => (h.inbox.push_eq_false_iff m).trans hfull
    push_dropped := by
      intro m
      split
      · rename_i heq
        rw [push_of_isFull (hfull.mpr heq)]
      · rename_i hne
        rw [push_of_not_isFull (hroom hne), Nat.add_zero]
    push_of_full := by
      intro m heq
      obtain ⟨oldest, rest, hitems⟩ := exists_oldest hpos (hfull.mpr heq)
      refine ⟨oldest, rest, hitems, ?_⟩
      rw [push_of_isFull (hfull.mpr heq), hitems, List.tail_cons]
    push_of_room := by
      intro m hne
      rw [push_of_not_isFull (hroom hne)]
    pop_of_cons := by
      intro oldest rest hitems
      rw [pop, hitems]
      rfl
    pop_eq_none_iff := by rw [pop_eq_none_iff, size, List.length_eq_zero_iff]
    pop_of_nil := pop_of_items_eq_nil
    popFor := by
      intro sleeps hnone
      rw [popFor_eq, awaited_of_forall_nil hnone]
      rfl
    popFor_eq_none_iff := by
      intro sleeps
      rw [popFor_eq_none_iff, size, List.length_eq_zero_iff]
    waits := h.use_popFor }

end LanguageClient.Inbox
