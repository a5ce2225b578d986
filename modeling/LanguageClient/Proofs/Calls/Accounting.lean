import LanguageClient.Failure
import LanguageClient.Proofs.Calls.Outcome
import Mathlib.Data.List.Induction

/-!
# The accounts of a table of calls

A `Ledger` holds a table and an entry for each operation that led to it: the table that the operation
found, and what it was answered. As long as the ids last, the ledger of any operations in any order
is `Accounted` (`accounted_ofOps`): every id that was issued is in one place, and what its caller
finds is what one of the operations brought about.

Each lemma about a ledger is by induction on `Kept`, which tells an operation that took effect, and
is a `Step` of the table, from one that changed nothing.
-/

namespace LanguageClient

/-- A client does not go back. -/
def Phase.MovesTo : Phase → Phase → Prop
  | .unstarted, _ => True
  | .running, q => q ≠ .unstarted
  | .stopped, q => q = .stopped

namespace Calls

/-- What may be asked of a table. -/
inductive Op where
  | begin
  | close (reason : Bytes)
  | register (method : Bytes)
  | complete (r : Response)
  | remove (id : Id)

/-- What is answered. -/
inductive Verdict where
  | flag (b : Bool)
  | issued (id : Int64)
  | refused (e : NotRunning)

def Verdict.IsNegative : Verdict → Prop
  | .flag b => b = false
  | .issued _ => False
  | .refused _ => True

theorem Verdict.IsNegative.cases {v : Verdict} (h : v.IsNegative) :
    v = .flag false ∨ ∃ e, v = .refused e := by
  cases v with
  | flag b => exact .inl (congrArg _ h)
  | issued => exact h.elim
  | refused e => exact .inr ⟨e, rfl⟩

def perform (c : Calls) : Op → Calls × Verdict
  | .begin => (c.begin.1, .flag c.begin.2)
  | .close reason => ((c.close reason).1, .flag (c.close reason).2)
  | .register method =>
    match c.register with
    | .ok (id, next) => (next, .issued id)
    | .error phase => (c, .refused (.cannotSend phase method))
  | .complete r => ((c.complete r).1, .flag (c.complete r).2)
  | .remove id => ((c.remove id).1, .flag (c.remove id).2)

namespace Op

/-- The event that the operation is if it takes effect. -/
def event? : Op → Option Event
  | .begin => some .begin
  | .close reason => some (.close reason)
  | .register _ => some .register
  | .complete r => some (.reply r)
  | .remove (.int id) => some (.remove id)
  | .remove (.string _) => none

/-- The answer if the operation takes effect. -/
def success (c : Calls) : Op → Verdict
  | .register _ => .issued c.nextId
  | .begin | .close _ | .complete _ | .remove _ => .flag true

end Op

/-- An operation takes effect as a step of the table, or it is turned down and changes nothing. -/
theorem perform_cases (c : Calls) (op : Op)
    (hn : (c.perform op).2 = .issued c.nextId → c.nextId < Int64.maxValue) :
    (∃ e d, op.event? = some e ∧ Step c e d ∧ c.perform op = (d, op.success c)) ∨
      (∃ v, v.IsNegative ∧ c.perform op = (c, v)) := by
  cases op with
  | begin =>
    rcases c.begin_cases with ⟨hp, h⟩ | ⟨-, h⟩ <;> simp only [perform, h]
    · exact .inl ⟨_, _, rfl, .begin hp, rfl⟩
    · exact .inr ⟨.flag false, rfl, rfl⟩
  | close reason =>
    rcases c.close_cases reason with ⟨hp, h⟩ | ⟨-, h⟩ <;> simp only [perform, h]
    · exact .inl ⟨_, _, rfl, .close reason hp, rfl⟩
    · exact .inr ⟨.flag false, rfl, rfl⟩
  | register method =>
    by_cases hr : c.phase = .running
    · simp only [perform, register_of_running hr] at hn ⊢
      exact .inl ⟨_, _, rfl, .register hr (hn trivial), rfl⟩
    · simp only [perform, register_of_not_running hr]
      exact .inr ⟨.refused (.cannotSend c.phase method), trivial, rfl⟩
  | complete r =>
    rcases c.complete_cases r with ⟨id, hr, hid, h⟩ | ⟨-, h⟩ <;> simp only [perform, h]
    · exact .inl ⟨_, _, rfl, .reply hr hid, rfl⟩
    · exact .inr ⟨.flag false, rfl, rfl⟩
  | remove id =>
    cases id with
    | string s => exact .inr ⟨.flag false, rfl, rfl⟩
    | int id =>
      rcases c.remove_cases id with ⟨hid, h⟩ | ⟨-, h⟩ <;> simp only [perform, h]
      · exact .inl ⟨_, _, rfl, .remove hid, rfl⟩
      · exact .inr ⟨.flag false, rfl, rfl⟩

theorem perform_of_negative {c : Calls} {op : Op} (h : (c.perform op).2.IsNegative) :
    (c.perform op).1 = c := by
  have hn : (c.perform op).2 = .issued c.nextId → c.nextId < Int64.maxValue := by
    intro hissued
    rw [hissued] at h
    exact h.elim
  rcases c.perform_cases op hn with ⟨e, d, -, -, heq⟩ | ⟨v, -, heq⟩
  · rw [heq] at h
    cases op <;> cases h
  · rw [heq]

theorem perform_movesTo (c : Calls) (op : Op) : c.phase.MovesTo (c.perform op).1.phase := by
  have hstay : c.phase.MovesTo c.phase := by cases c.phase <;> simp [Phase.MovesTo]
  cases op with
  | begin =>
    rcases c.begin_cases with ⟨hp, h⟩ | ⟨-, h⟩ <;> simp only [perform, h]
    · simp [hp, Phase.MovesTo]
    · exact hstay
  | close reason =>
    rcases c.close_cases reason with ⟨hp, h⟩ | ⟨-, h⟩ <;> simp only [perform, h]
    · cases hc : c.phase <;> simp_all [closed, Phase.MovesTo]
    · exact hstay
  | register method =>
    by_cases hr : c.phase = .running
    · simp only [perform, register_of_running hr]
      exact hstay
    · simp only [perform, register_of_not_running hr]
      exact hstay
  | complete r =>
    rcases c.complete_cases r with ⟨id, -, -, h⟩ | ⟨-, h⟩ <;> simp only [perform, h] <;> exact hstay
  | remove id =>
    cases id with
    | string s => exact hstay
    | int id =>
      rcases c.remove_cases id with ⟨-, h⟩ | ⟨-, h⟩ <;> simp only [perform, h] <;> exact hstay

/-! ### Where the ids are that have an outcome -/

namespace Outcome

def isReply : Outcome → Bool
  | .reply _ => true
  | .closed _ | .removed => false

def isClosed : Outcome → Bool
  | .closed _ => true
  | .reply _ | .removed => false

def isRemoved : Outcome → Bool
  | .removed => true
  | .reply _ | .closed _ => false

end Outcome

/-- The ids with an outcome of one kind. -/
def endedBy (c : Calls) (kind : Outcome → Bool) : List Int64 :=
  (c.settled.filter fun p => kind p.2).map Prod.fst

theorem Sound.mem_endedBy {c : Calls} (hc : Sound c) {id : Int64} {kind : Outcome → Bool} :
    id ∈ c.endedBy kind ↔ ∃ o, c.outcome? id = some o ∧ kind o = true := by
  simp only [endedBy, List.mem_map, List.mem_filter, hc.outcome?_eq_some_iff]
  constructor
  · rintro ⟨⟨k, o⟩, ⟨hm, hk⟩, rfl⟩
    exact ⟨o, hm, hk⟩
  · rintro ⟨o, hm, hk⟩
    exact ⟨(id, o), ⟨hm, hk⟩, rfl⟩

theorem settled_perm (c : Calls) :
    (c.settled.map Prod.fst).Perm
      (c.endedBy Outcome.isReply ++ c.endedBy Outcome.isRemoved ++ c.endedBy Outcome.isClosed) := by
  simp only [endedBy, ← List.map_append]
  refine List.Perm.map _ ?_
  induction c.settled with
  | nil => exact .refl _
  | cons p l ih =>
    obtain ⟨id, o⟩ := p
    cases o with
    | reply r => exact ih.cons _
    | removed =>
      rw [List.append_assoc]
      exact (ih.cons _).trans (by rw [List.append_assoc]; exact List.perm_middle.symm)
    | closed reason => exact (ih.cons _).trans List.perm_middle.symm

/-! ### Ledgers -/

structure Entry where
  /-- The table that the operation found. -/
  found : Calls
  op : Op
  verdict : Verdict

namespace Entry

def issued? (e : Entry) : Option Int64 :=
  match e.verdict with
  | .issued id => some id
  | .flag _ | .refused _ => none

/-- What the operation did to the call `id`: an accepted response with its id answers it, an accepted
removal takes it back, and a close that took effect fails it if it was pending. -/
def ending? (id : Int64) (e : Entry) : Option Outcome :=
  match e.op, e.verdict with
  | .complete r, .flag true => if r.id = .int id then some (.reply r) else none
  | .remove k, .flag true => if k = .int id then some .removed else none
  | .close reason, .flag true => if id ∈ e.found.pending then some (.closed reason) else none
  | _, _ => none

/-- The operation stopped the client. -/
def isClosing (e : Entry) : Bool :=
  match e.op, e.verdict with
  | .close _, .flag true => true
  | _, _ => false

end Entry

structure Ledger where
  calls : Calls := {}
  entries : List Entry := []

namespace Ledger

def add (l : Ledger) (op : Op) : Ledger where
  calls := (l.calls.perform op).1
  entries := l.entries ++ [⟨l.calls, op, (l.calls.perform op).2⟩]

def ofOps (ops : List Op) : Ledger := ops.foldl add {}

/-- The ids that were issued, the oldest first. -/
def issued (l : Ledger) : List Int64 := l.entries.filterMap Entry.issued?

/-- Kept from the beginning, while ids last. -/
inductive Kept : Ledger → Prop where
  | empty : Kept {}
  | step {l : Ledger} {op : Op} {e : Event} {d : Calls} :
      Kept l → op.event? = some e → Step l.calls e d →
        Kept ⟨d, l.entries ++ [⟨l.calls, op, op.success l.calls⟩]⟩
  | skip {l : Ledger} {op : Op} {v : Verdict} :
      Kept l → v.IsNegative → Kept ⟨l.calls, l.entries ++ [⟨l.calls, op, v⟩]⟩

variable {l : Ledger} {id : Int64} {op : Op}

theorem filterMap_concat {α β : Type} (f : α → Option β) (l : List α) (a : α) :
    (l ++ [a]).filterMap f = l.filterMap f ++ (f a).toList := by
  cases h : f a <;> simp [h]

theorem issued_concat (c : Calls) (l : Ledger) (e : Entry) :
    issued ⟨c, l.entries ++ [e]⟩ = l.issued ++ e.issued?.toList :=
  filterMap_concat Entry.issued? l.entries e

theorem issued?_of_negative {v : Verdict} (h : v.IsNegative) (c : Calls) (op : Op) :
    Entry.issued? ⟨c, op, v⟩ = none := by
  rcases h.cases with rfl | ⟨_, rfl⟩ <;> rfl

theorem issued?_success {e : Event} (he : op.event? = some e) (c : Calls) :
    Entry.issued? ⟨c, op, op.success c⟩ =
      match e with
      | .register => some c.nextId
      | _ => none := by
  cases op with
  | remove k => cases k <;> cases he; rfl
  | begin | close | register | complete => cases he; rfl

theorem Kept.sound (h : Kept l) : l.calls.Sound := by
  induction h with
  | empty => exact .init
  | step _ _ hs ih => exact ih.step hs
  | skip _ _ ih => exact ih

/-- The n-th id is n, and the next one is one more than were issued. -/
theorem Kept.issued_toInt (h : Kept l) :
    l.issued.map Int64.toInt = (List.range l.issued.length).map (fun n : Nat => (n : Int) + 1) ∧
      l.calls.nextId.toInt = l.issued.length + 1 := by
  induction h with
  | empty => exact ⟨rfl, rfl⟩
  | @step l op e d _ he hs ih =>
    rw [issued_concat, issued?_success he]
    cases hs with
    | register _ hn =>
      rw [Option.toList_some, List.map_append, ih.1, List.length_append, List.length_singleton,
        List.range_succ, List.map_append]
      refine ⟨by simp [ih.2], ?_⟩
      change (l.calls.nextId + 1).toInt = _
      rw [toInt_succ hn, ih.2]
      rfl
    | begin | reply | remove | close | fetch => rwa [Option.toList_none, List.append_nil]
  | skip _ hv ih => rwa [issued_concat, issued?_of_negative hv, Option.toList_none, List.append_nil]

theorem Kept.issued_perm (h : Kept l) : l.issued.Perm l.calls.known := by
  induction h with
  | empty => exact .refl _
  | @step l op e d _ he hs ih =>
    rw [issued_concat, issued?_success he]
    cases hs with
    | register =>
      rw [Option.toList_some]
      exact ((ih.append_right _).trans List.perm_append_comm).trans (issueNext_known _).symm
    | reply _ hid | remove hid =>
      rw [Option.toList_none, List.append_nil]
      exact ih.trans (retire_known hid _).symm
    | close reason =>
      rw [Option.toList_none, List.append_nil]
      exact ih.trans (closed_known _ reason).symm
    | begin | fetch => rwa [Option.toList_none, List.append_nil]
  | skip _ hv ih => rwa [issued_concat, issued?_of_negative hv, Option.toList_none, List.append_nil]

/-- No operation is a caller's question. -/
theorem Kept.fetched (h : Kept l) : l.calls.fetched = [] := by
  induction h with
  | empty => rfl
  | @step l op e d _ he hs ih =>
    cases hs with
    | fetch => cases op with
      | remove k => cases k <;> cases he
      | begin | close | register | complete => cases he
    | begin | register | reply | remove | close => exact ih
  | skip _ _ ih => exact ih

theorem Kept.outcome?_of_found (h : Kept l) {e : Entry} (he : e ∈ l.entries) {o : Outcome}
    (ho : e.found.outcome? id = some o) : l.calls.outcome? id = some o := by
  induction h with
  | empty => exact absurd he List.not_mem_nil
  | step hl _ hs ih =>
    refine hl.sound.outcome?_of_step hs ?_
    rcases List.mem_append.mp he with he | he
    · exact ih he
    · rwa [List.mem_singleton.mp he] at ho
  | skip _ _ ih =>
    rcases List.mem_append.mp he with he | he
    · exact ih he
    · rwa [List.mem_singleton.mp he] at ho

theorem ending?_of_negative {v : Verdict} (h : v.IsNegative) (c : Calls) (op : Op) :
    Entry.ending? id ⟨c, op, v⟩ = none := by
  rcases h.cases with rfl | ⟨_, rfl⟩ <;> cases op <;> rfl

theorem ending?_success {c d : Calls} {e : Event} (he : op.event? = some e) (hs : Step c e d) :
    Entry.ending? id ⟨c, op, op.success c⟩ =
      if id ∈ c.pending then e.outcomeFor? id else none := by
  cases op with
  | begin | register =>
    cases he
    exact (ite_self _).symm
  | close reason =>
    cases he
    rfl
  | complete r =>
    cases he
    cases hs with
    | @reply _ k hr hk =>
      simp only [Entry.ending?, Op.success, Event.outcomeFor?, hr, Id.int.injEq]
      grind
  | remove k =>
    cases k with
    | string s => cases he
    | int k =>
      cases he
      cases hs with
      | remove hk =>
        simp only [Entry.ending?, Op.success, Event.outcomeFor?, Id.int.injEq]
        grind

/-- An outcome is what one operation brought about, and no other operation did anything to it. -/
theorem Kept.endings (h : Kept l) (id : Int64) :
    l.entries.filterMap (Entry.ending? id) = (l.calls.outcome? id).toList := by
  induction h with
  | empty => rfl
  | @step l op e d hl he hs ih =>
    rw [filterMap_concat, ih, hl.sound.outcome?_step hs, ending?_success he hs]
    by_cases hid : id ∈ l.calls.pending
    · rw [if_pos hid, if_pos hid, hl.sound.outcome?_of_mem hid]
      rfl
    · rw [if_neg hid, if_neg hid, Option.toList_none, List.append_nil]
  | skip _ hv ih =>
    rw [filterMap_concat, ih, ending?_of_negative hv, Option.toList_none, List.append_nil]

theorem isClosing_of_negative {v : Verdict} (h : v.IsNegative) (c : Calls) (op : Op) :
    Entry.isClosing ⟨c, op, v⟩ = false := by
  rcases h.cases with rfl | ⟨_, rfl⟩ <;> cases op <;> rfl

theorem isClosing_success {e : Event} (he : op.event? = some e) (c : Calls) :
    Entry.isClosing ⟨c, op, op.success c⟩ =
      match e with
      | .close _ => true
      | _ => false := by
  cases op with
  | remove k => cases k <;> cases he; rfl
  | begin | close | register | complete => cases he; rfl

/-- The client is stopped by one operation. -/
theorem Kept.closings (h : Kept l) :
    l.entries.countP Entry.isClosing = if l.calls.phase = .stopped then 1 else 0 := by
  induction h with
  | empty => rfl
  | step _ he hs ih =>
    rw [List.countP_append, List.countP_singleton, ih, isClosing_success he]
    cases hs with
    | begin hp => simp [hp]
    | register | reply | remove | fetch => rfl
    | close _ hp => simp [hp, closed]
  | skip _ hv ih =>
    rw [List.countP_append, List.countP_singleton, isClosing_of_negative hv]
    exact ih

/-- While ids last, every operation is a step or changes nothing. -/
theorem kept_ofOps (ops : List Op) (h : (ofOps ops).issued.length < Int64.maxValue.toInt) :
    Kept (ofOps ops) := by
  induction ops using List.reverseRecOn with
  | nil => exact .empty
  | append_singleton ops op ih =>
    have hadd : ofOps (ops ++ [op]) = (ofOps ops).add op := by simp [ofOps, List.foldl_append]
    rw [hadd] at h ⊢
    rw [add, issued_concat, List.length_append] at h
    have hkept := ih (by omega)
    have hcases := (ofOps ops).calls.perform_cases op fun hissued => by
      rw [Int64.lt_iff_toInt_lt, hkept.issued_toInt.2]
      rw [hissued] at h
      simp only [Entry.issued?, Option.toList_some, List.length_singleton] at h
      omega
    rcases hcases with ⟨e, d, he, hs, heq⟩ | ⟨v, hv, heq⟩ <;> rw [add, heq]
    · exact .step hkept he hs
    · exact .skip hkept hv

/-! ### The accounts -/

/-- Everything about the ids of a ledger. -/
structure Accounted (l : Ledger) : Prop where
  /-- The n-th id issued is n. -/
  issued : l.issued.map Int64.toInt = (List.range l.issued.length).map (fun n : Nat => (n : Int) + 1)
  pending : ∀ id ∈ l.calls.pending, id ∈ l.issued ∧ id < l.calls.nextId
  /-- A client that does not run has no pending calls and issues no ids. -/
  idle : l.calls.phase ≠ .running → l.calls.pending = [] ∧ ∀ method,
    l.calls.perform (.register method) = (l.calls, .refused (.cannotSend l.calls.phase method))
  movesTo : ∀ op, l.calls.phase.MovesTo (l.calls.perform op).1.phase
  unchanged : ∀ op, (l.calls.perform op).2.IsNegative → (l.calls.perform op).1 = l.calls
  /-- An issued id is pending, completed, removed or failed. -/
  partition : l.issued.Nodup ∧ l.issued.Perm (l.calls.pending ++
    (l.calls.endedBy Outcome.isReply ++ l.calls.endedBy Outcome.isRemoved ++
      l.calls.endedBy Outcome.isClosed))
  places : ∀ id kind, id ∈ l.calls.endedBy kind ↔ ∃ o, l.calls.outcome? id = some o ∧ kind o = true
  /-- What an id has become at any time it still is. -/
  lasting : ∀ e ∈ l.entries, ∀ id o, e.found.outcome? id = some o → l.calls.outcome? id = some o
  /-- The outcome of an id is what one operation did to it, and no other did anything to it. -/
  endings : ∀ id, l.entries.filterMap (Entry.ending? id) = (l.calls.outcome? id).toList
  closings : l.entries.countP Entry.isClosing ≤ 1
  /-- Its caller finds this outcome, a broken promise if the call was taken back. -/
  told : ∀ id, (l.calls.fetch id).2 =
    match l.calls.outcome? id with
    | none => .waiting
    | some o => .outcome o

theorem Kept.accounted (h : Kept l) : Accounted l where
  issued := h.issued_toInt.1
  pending id hid :=
    have hknown : id ∈ l.calls.known := List.mem_append_left _ hid
    ⟨h.issued_perm.mem_iff.mpr hknown, ((h.sound.mem_known id).mp hknown).2⟩
  idle hr := ⟨h.sound.idle hr, fun method => by simp only [perform, register_of_not_running hr]⟩
  movesTo := l.calls.perform_movesTo
  unchanged _ := perform_of_negative
  partition :=
    ⟨h.issued_perm.nodup_iff.mpr h.sound.nodup,
      h.issued_perm.trans ((settled_perm l.calls).append_left _)⟩
  places _ _ := h.sound.mem_endedBy
  lasting _ he _ _ := h.outcome?_of_found he
  endings := h.endings
  closings := by
    rw [h.closings]
    split <;> decide
  told id := by
    rcases l.calls.fetch_cases id with ⟨o, -, ho, hf⟩ | ⟨-, ho, hf⟩ | ⟨hid, -⟩
    · rw [hf, ho]
    · rw [hf, ho]
    · rw [h.fetched] at hid
      exact absurd hid List.not_mem_nil

/-- The accounts are in order after any operations, in any order, as long as the ids last. -/
theorem accounted_ofOps (ops : List Op) (h : (ofOps ops).issued.length < Int64.maxValue.toInt) :
    Accounted (ofOps ops) :=
  (kept_ofOps ops h).accounted

/-- Three calls: the first is answered twice, the second is taken back after a response whose id is a
text, and the third is pending when the client is stopped, twice. -/
def mixedOps : List Op :=
  [.begin, .register [], .register [], .register [],
    .complete { id := .int 1, result := some .null, error := none },
    .complete { id := .int 1, result := none, error := none },
    .complete { id := .string [0x32], result := some .null, error := none },
    .remove (.int 2), .close [0x61], .close [0x62], .register [],
    .complete { id := .int 3, result := some .null, error := none }]

theorem accounted_mixedOps :
    (ofOps mixedOps).issued.length < Int64.maxValue.toInt ∧ Accounted (ofOps mixedOps) :=
  ⟨by decide, accounted_ofOps mixedOps (by decide)⟩

end Ledger

end Calls

end LanguageClient
