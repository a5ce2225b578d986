import LanguageClient.Proofs.Calls.Outcome
import LanguageClient.Proofs.Client.Acts
import Mathlib.Logic.Function.Basic
import Mathlib.Logic.Relation

/-!
# Callers, a reader and closes at work on one table

A response and a close first take calls out of the table and settle them later, and in between
anybody else may act. A `Meeting` is a table together with all that is under way: the response that
the reader is about to deliver, the calls that each close has yet to fail, and how far each caller
has come, who gives up at its deadline or asks for its outcome.

If everything that was taken out counted as settled already, each step of a meeting would be a step
of the table, or none (`Step.resolves`). So every call is with one party (`Orderly.sound`) and a
caller who could not give its call up will find the outcome for it (`handed_of_reachable`). What the
client does with its table in one go is what these steps come to if nobody is between them
(`complete_reaches`, `close_reaches`, `conclude_reaches`).
-/

namespace LanguageClient.Calls

open Client (answer conclude)

/-- It answers the call `id`, or tells that the client ended. -/
def Outcome.IsFor (id : Int64) : Outcome → Prop
  | .reply r => r.id = .int id
  | .closed _ => True
  | .removed => False

/-- It is not a doing of the caller of `id`. -/
def Event.Spares (id : Int64) : Event → Prop
  | .remove k | .fetch k => k ≠ id
  | .begin | .register | .reply _ | .close _ => True

theorem Event.Spares.isFor {e : Event} {id : Int64} {o : Outcome} (he : e.Spares id)
    (h : e.outcomeFor? id = some o) : o.IsFor id := by
  cases e with
  | reply r =>
    obtain ⟨hr, ho⟩ := Option.ite_none_right_eq_some.mp h
    cases ho
    exact hr
  | remove k => cases (if_neg he).symm.trans h
  | close reason =>
    cases h
    trivial
  | begin | register | fetch => cases h

theorem answer_ne_abandoned {id : Int64} {o : Outcome} (h : o.IsFor id) :
    answer o ≠ .error .abandoned := by
  cases o with
  | removed => exact h.elim
  | closed reason => exact nofun
  | reply r => cases hr : r.error <;> simp [answer, hr]

variable {id : Int64} {method : Bytes}

/-- How far a caller has come. -/
inductive Stage where
  | waiting
  /-- Its deadline has passed, and it is about to give its call up. -/
  | expired
  /-- It asks for the outcome, however long that takes. -/
  | asking
  | ended (result : Except Failure Json)

structure Caller where
  method : Bytes
  stage : Stage

/-- Nobody but the caller itself takes its call back, and it finds the outcome of its call. -/
def Stage.Stands (c : Calls) (id : Int64) (method : Bytes) : Stage → Prop
  | .waiting | .expired => id ∉ c.fetched ∧ ∀ o, c.outcome? id = some o → o.IsFor id
  | .asking => id ∉ c.fetched ∧ ∃ o, c.outcome? id = some o ∧ o.IsFor id
  | .ended result =>
    (result = .error (.timeout (.noReply method)) ∧ c.outcome? id = some .removed) ∨
      ∃ o, c.outcome? id = some o ∧ o.IsFor id ∧ result = answer o

theorem Stage.Stands.alike {c d : Calls} (h : Alike c d) (hc : c.Sound) {stage : Stage}
    (hst : stage.Stands c id method) : stage.Stands d id method := by
  cases stage <;> simpa only [Stands, ← h.outcome? hc, ← h.fetched] using hst

/-- What others do leaves a caller where it stands. -/
theorem Stage.Stands.step {c d : Calls} {e : Event} (hc : c.Sound) (h : Calls.Step c e d)
    (he : e.Spares id) {stage : Stage} (hst : stage.Stands c id method) :
    stage.Stands d id method := by
  have hfetched : id ∈ d.fetched ↔ id ∈ c.fetched := by
    cases h with
    | begin | register | reply | remove | close => rfl
    | fetch => simp [Ne.symm he]
  have hkept {o : Outcome} (ho : c.outcome? id = some o) : d.outcome? id = some o :=
    hc.outcome?_of_step h ho
  have hnew {o : Outcome} (ho : d.outcome? id = some o) : c.outcome? id = some o ∨ o.IsFor id := by
    rw [hc.outcome?_step h] at ho
    split at ho
    · exact .inr (he.isFor ho)
    · exact .inl ho
  cases stage with
  | waiting | expired =>
    refine ⟨mt hfetched.mp hst.1, fun o ho => ?_⟩
    rcases hnew ho with ho | ho
    · exact hst.2 o ho
    · exact ho
  | asking =>
    obtain ⟨hid, o, ho, hfor⟩ := hst
    exact ⟨mt hfetched.mp hid, o, hkept ho, hfor⟩
  | ended result =>
    rcases hst with ⟨hr, ho⟩ | ⟨o, ho, hfor, hr⟩
    · exact .inl ⟨hr, hkept ho⟩
    · exact .inr ⟨o, hkept ho, hfor, hr⟩

/-- A close that is failing the calls that it took out. -/
structure Closing where
  reason : Bytes
  left : List Int64

structure Meeting where
  calls : Calls := {}
  /-- The response that the reader has taken a call out for and not yet delivered. -/
  reply : Option (Int64 × Response) := none
  closings : List Closing := []
  callers : Int64 → Option Caller := fun _ => none

namespace Meeting

variable {s t : Meeting}

def put (s : Meeting) (id : Int64) (method : Bytes) (stage : Stage) : Meeting :=
  { s with callers := Function.update s.callers id (some ⟨method, stage⟩) }

/-- The calls that somebody has taken out and not yet settled, with the outcomes they will have. -/
def promised (s : Meeting) : List (Int64 × Outcome) :=
  s.reply.toList.map (fun p => (p.1, .reply p.2)) ++
    s.closings.flatMap fun k => k.left.map (·, .closed k.reason)

/-- Somebody settles a call that it has taken out. -/
inductive Settles (s : Meeting) : Meeting → Prop where
  | reply {id : Int64} {r : Response} :
      s.reply = some (id, r) →
        Settles s { s with calls := s.calls.settle (.reply r) id, reply := none }
  | close {before after : List Closing} {reason : Bytes} {id : Int64} {left : List Int64} :
      s.closings = before ++ ⟨reason, id :: left⟩ :: after →
        Settles s
          { s with
            calls := s.calls.settle (.closed reason) id
            closings := before ++ ⟨reason, left⟩ :: after }

/-- What may happen next. A response without a waiting call, a second close and a call that is
refused change nothing. Ids may be issued until they run out. -/
inductive Step (s : Meeting) : Meeting → Prop where
  | begin {calls : Calls} : s.calls.begin = (calls, true) → Step s { s with calls }
  | call (method : Bytes) {id : Int64} {calls : Calls} :
      s.calls.register = .ok (id, calls) → s.calls.nextId < Int64.maxValue →
        Step s ({ s with calls }.put id method .waiting)
  /-- A deadline may pass at any time, also when the outcome has just come. -/
  | expire {id : Int64} {method : Bytes} :
      s.callers id = some ⟨method, .waiting⟩ → Step s (s.put id method .expired)
  | wake {id : Int64} {method : Bytes} :
      s.callers id = some ⟨method, .waiting⟩ → (s.calls.outcome? id).isSome = true →
        Step s (s.put id method .asking)
  | giveUp {id : Int64} {method : Bytes} {calls : Calls} :
      s.callers id = some ⟨method, .expired⟩ → s.calls.remove (.int id) = (calls, true) →
        Step s ({ s with calls }.put id method (.ended (.error (.timeout (.noReply method)))))
  | tooLate {id : Int64} {method : Bytes} {calls : Calls} :
      s.callers id = some ⟨method, .expired⟩ → s.calls.remove (.int id) = (calls, false) →
        Step s ({ s with calls }.put id method .asking)
  | get {id : Int64} {method : Bytes} {calls : Calls} {o : Outcome} :
      s.callers id = some ⟨method, .asking⟩ → s.calls.fetch id = (calls, .outcome o) →
        Step s ({ s with calls }.put id method (.ended (answer o)))
  | takeReply {id : Int64} {r : Response} {calls : Calls} :
      s.reply = none → r.id = .int id → s.calls.take? id = some calls →
        Step s { s with calls, reply := some (id, r) }
  | takeAll (reason : Bytes) {left : List Int64} {calls : Calls} :
      s.calls.takeAll? = some (left, calls) →
        Step s { s with calls, closings := s.closings ++ [⟨reason, left⟩] }
  | settle {t : Meeting} : Settles s t → Step s t

abbrev Reaches : Meeting → Meeting → Prop := Relation.ReflTransGen Step

/-- It comes about from an empty table. -/
def Reachable (s : Meeting) : Prop := Reaches {} s

/-! ### What was taken out counts as settled -/

/-- The table as it will be when everybody has settled what it has taken out. -/
def resolved (s : Meeting) : Calls := { s.calls with settled := s.promised ++ s.calls.settled }

theorem Settles.resolved (h : Settles s t) : Alike s.resolved t.resolved := by
  cases h with
  | @reply id r hr =>
    refine ⟨rfl, rfl, rfl, rfl, ?_⟩
    simp only [Meeting.resolved, promised, hr, settle, Option.toList_some, Option.toList_none]
    exact List.perm_middle.symm
  | @close before after reason id left hk =>
    refine ⟨rfl, rfl, rfl, rfl, ?_⟩
    have hperm (r b l a u : List (Int64 × Outcome)) (x : Int64 × Outcome) :
        (r ++ (b ++ (x :: l ++ a)) ++ u).Perm (r ++ (b ++ (l ++ a)) ++ x :: u) := by
      have h : (r ++ b ++ x :: (l ++ a ++ u)).Perm (x :: (r ++ b ++ (l ++ a ++ u))) :=
        List.perm_middle
      refine List.Perm.trans ?_ List.perm_middle.symm
      simpa only [List.append_assoc, List.cons_append] using h
    simpa only [Meeting.resolved, promised, hk, settle, List.flatMap_append, List.flatMap_cons,
      List.map_cons] using hperm ..

theorem callers_put {stage : Stage} {k : Int64} {caller : Caller}
    (h : (s.put id method stage).callers k = some caller) :
    (k = id ∧ caller = ⟨method, stage⟩) ∨ s.callers k = some caller := by
  by_cases hk : k = id
  · subst hk
    exact .inl ⟨rfl, by simpa [put, eq_comm] using h⟩
  · exact .inr (by simpa [put, hk] using h)

theorem isSome_put (stage : Stage) (h : (s.callers id).isSome = true) (k : Int64) :
    ((s.put id method stage).callers k).isSome = (s.callers k).isSome := by
  by_cases hk : k = id
  · subst hk
    simp [put, h]
  · simp [put, hk]

/-- A caller who stays as it is is not the one that comes forward. -/
theorem ne_of_put {calls : Calls} {stage stage' : Stage} {k : Int64} {caller : Caller}
    (hcaller : s.callers id = some ⟨method, stage⟩) (hne : stage ≠ stage')
    (hk : s.callers k = some caller)
    (ht : ({ s with calls }.put id method stage').callers k = some caller) : id ≠ k := by
  rintro rfl
  cases hcaller.symm.trans hk
  exact hne (by simpa [put, eq_comm] using ht)

/-- What a step is for the resolved table: nothing, or a step that spares all callers whose stage
stays as it is. -/
inductive Resolves (s t : Meeting) : Prop where
  | none :
      Alike s.resolved t.resolved → (∀ k, (t.callers k).isSome = (s.callers k).isSome) →
        Resolves s t
  | step {e : Event} {d : Calls} :
      Calls.Step s.resolved e d → Alike d t.resolved →
        (∀ k caller, s.callers k = some caller → t.callers k = some caller → e.Spares k) →
        (∀ k, (t.callers k).isSome = true ↔
          (s.callers k).isSome = true ∨ (e = .register ∧ k = s.calls.nextId)) → Resolves s t

theorem Step.resolves (hs : s.resolved.Sound) (h : Step s t) : Resolves s t := by
  cases h with
  | begin hb =>
    obtain ⟨hp, rfl⟩ := begin_eq_true hb
    exact .step (.begin hp) (.refl _) (fun _ _ _ _ => trivial) fun k => by simp
  | call method hr hn =>
    obtain ⟨hp, rfl, rfl⟩ := register_eq_ok hr
    refine .step (.register hp hn) (.refl _) (fun _ _ _ _ => trivial) fun k => ?_
    by_cases hk : k = s.calls.nextId
    · simp [put, hk]
    · simp [put, hk]
  | expire hcaller | wake hcaller =>
    exact .none (.refl _) (isSome_put _ (by rw [hcaller]; rfl))
  | @giveUp id method calls hcaller hr =>
    obtain ⟨hid, rfl⟩ := remove_eq_true hr
    refine .step (.remove hid) ⟨rfl, rfl, rfl, rfl, List.perm_middle.symm⟩
      (fun k caller => ne_of_put hcaller nofun) fun k => ?_
    exact (Bool.eq_iff_iff.mp (isSome_put (s := { s with calls := _ }) _
      (by rw [hcaller]; rfl) k)).trans (by simp)
  | tooLate hcaller hr =>
    obtain ⟨-, rfl⟩ := remove_eq_false hr
    exact .none (.refl _) (isSome_put _ (by rw [hcaller]; rfl))
  | @get id method calls o hcaller hf =>
    obtain ⟨hid, ho, rfl⟩ := fetch_eq_outcome hf
    have ho : s.resolved.outcome? id = some o :=
      hs.outcome?_eq_some_iff.mpr (List.mem_append_right _ (mem_settled ho))
    refine .step (.fetch hid ho) (.refl _) (fun k caller => ne_of_put hcaller nofun) fun k => ?_
    exact (Bool.eq_iff_iff.mp (isSome_put (s := { s with calls := _ }) _
      (by rw [hcaller]; rfl) k)).trans (by simp)
  | takeReply hnone hid ht =>
    obtain ⟨hmem, rfl⟩ := take?_eq_some ht
    refine .step (.reply hid hmem) ⟨rfl, rfl, rfl, rfl, ?_⟩ (fun _ _ _ _ => trivial)
      fun k => by simp
    simp [Meeting.resolved, promised, hnone, retire]
  | takeAll reason ht =>
    obtain ⟨hp, rfl, rfl⟩ := takeAll?_eq_some ht
    refine .step (.close reason hp) ⟨rfl, rfl, rfl, rfl, ?_⟩ (fun _ _ _ _ => trivial)
      fun k => by simp
    have hperm (r k u l : List (Int64 × Outcome)) :
        (l.reverse ++ (r ++ k ++ u)).Perm (r ++ (k ++ l) ++ u) := by
      have h := ((List.reverse_perm l).append_right (r ++ k)).trans List.perm_append_comm
      simpa only [List.append_assoc] using h.append_right u
    simpa only [Meeting.resolved, promised, closed, List.flatMap_append, List.flatMap_singleton]
      using hperm ..
  | settle h =>
    refine .none h.resolved fun k => ?_
    cases h <;> rfl

/-! ### Meetings are orderly -/

structure Orderly (s : Meeting) : Prop where
  sound : s.resolved.Sound
  registered : ∀ id, (s.callers id).isSome = true ↔ id ∈ s.resolved.known
  stands : ∀ id caller, s.callers id = some caller →
    caller.stage.Stands s.resolved id caller.method

theorem Orderly.init : Orderly {} where
  sound := .init
  registered _ := by simp [known, resolved, promised]
  stands _ _ h := nomatch h

theorem Orderly.outcome (hs : Orderly s) {caller : Caller} (hcaller : s.callers id = some caller)
    (hid : id ∉ s.calls.pending) : ∃ o, s.resolved.outcome? id = some o := by
  have hknown := (hs.registered id).mp (by rw [hcaller]; rfl)
  obtain ⟨p, hp, rfl⟩ := List.mem_map.mp ((List.mem_append.mp hknown).resolve_left hid)
  exact ⟨p.2, hs.sound.outcome?_eq_some_iff.mpr hp⟩

/-- A caller whose stage a step changes stands where the new stage says. -/
theorem Orderly.stands_of_changed (hs : Orderly s) (h : Step s t) (ht : t.resolved.Sound)
    {k : Int64} {caller : Caller} (hnew : t.callers k = some caller)
    (hold : s.callers k ≠ some caller) : caller.stage.Stands t.resolved k caller.method := by
  cases h with
  | begin | takeReply | takeAll => exact absurd hnew hold
  | settle h => cases h <;> exact absurd hnew hold
  | call method hr hn =>
    obtain ⟨rfl, rfl⟩ := (callers_put hnew).resolve_right hold
    obtain ⟨-, rfl, rfl⟩ := register_eq_ok hr
    have hfresh := hs.sound.nextId_not_mem
    refine ⟨fun hf => hfresh (List.mem_append_right _ (hs.sound.fetched hf)), fun o ho => ?_⟩
    have hm := ht.outcome?_eq_some_iff.mp ho
    exact absurd (List.mem_append_right _ (List.mem_map.mpr ⟨_, hm, rfl⟩)) hfresh
  | expire hcaller =>
    obtain ⟨rfl, rfl⟩ := (callers_put hnew).resolve_right hold
    have hst := hs.stands _ _ hcaller
    exact hst
  | wake hcaller ho =>
    obtain ⟨rfl, rfl⟩ := (callers_put hnew).resolve_right hold
    obtain ⟨o, ho⟩ := Option.isSome_iff_exists.mp ho
    have ho := hs.sound.outcome?_eq_some_iff.mpr (List.mem_append_right _ (mem_settled ho))
    have hst := hs.stands _ _ hcaller
    exact ⟨hst.1, o, ho, hst.2 o ho⟩
  | giveUp hcaller hr =>
    obtain ⟨rfl, rfl⟩ := (callers_put hnew).resolve_right hold
    obtain ⟨-, rfl⟩ := remove_eq_true hr
    refine .inl ⟨rfl, ht.outcome?_eq_some_iff.mpr (List.mem_append_right _ ?_)⟩
    exact List.mem_cons_self
  | tooLate hcaller hr =>
    obtain ⟨rfl, rfl⟩ := (callers_put hnew).resolve_right hold
    obtain ⟨hid, rfl⟩ := remove_eq_false hr
    obtain ⟨o, ho⟩ := hs.outcome hcaller hid
    have hst := hs.stands _ _ hcaller
    exact ⟨hst.1, o, ho, hst.2 o ho⟩
  | @get id method calls o hcaller hf =>
    obtain ⟨rfl, rfl⟩ := (callers_put hnew).resolve_right hold
    obtain ⟨-, ho, rfl⟩ := fetch_eq_outcome hf
    have ho := hs.sound.outcome?_eq_some_iff.mpr (List.mem_append_right _ (mem_settled ho))
    obtain ⟨-, o', ho', hfor⟩ := hs.stands _ _ hcaller
    obtain rfl : o' = o := Option.some.inj (ho'.symm.trans ho)
    exact .inr ⟨o', ho, hfor, rfl⟩

theorem Orderly.step (hs : Orderly s) (h : Step s t) : Orderly t := by
  have hsound : t.resolved.Sound := by
    cases h.resolves hs.sound with
    | none ha => exact ha.sound hs.sound
    | step hstep ha => exact ha.sound (hs.sound.step hstep)
  refine ⟨hsound, fun k => ?_, fun k caller ht => ?_⟩
  · cases h.resolves hs.sound with
    | none ha hk => rw [hk, hs.registered, ha.known.mem_iff]
    | step hstep ha _ hk => rw [hk, hs.registered, ha.known.mem_iff, hstep.mem_known]; rfl
  · -- A caller whose stage is the same stands as it did, for the step has spared its call.
    by_cases hsame : s.callers k = some caller
    · cases h.resolves hs.sound with
      | none ha => exact (hs.stands k caller hsame).alike ha hs.sound
      | step hstep ha hspares =>
        exact ((hs.stands k caller hsame).step hs.sound hstep (hspares k caller hsame ht)).alike ha
          (hs.sound.step hstep)
    · exact hs.stands_of_changed h hsound ht hsame

theorem Orderly.reaches (hs : Orderly s) (h : Reaches s t) : Orderly t := by
  induction h with
  | refl => exact hs
  | tail _ h ih => exact ih.step h

theorem Settles.reaches (h : Relation.ReflTransGen Settles s t) : Reaches s t :=
  Relation.ReflTransGen.mono (fun _ _ => Step.settle) _ _ h

/-! ### Outcomes last -/

theorem Step.settled (h : Step s t) : s.calls.settled <:+ t.calls.settled := by
  cases h with
  | begin hb =>
    obtain ⟨-, rfl⟩ := begin_eq_true hb
    exact List.suffix_rfl
  | call method hr _ =>
    obtain ⟨-, rfl, rfl⟩ := register_eq_ok hr
    exact List.suffix_rfl
  | expire | wake => exact List.suffix_rfl
  | giveUp _ hr =>
    obtain ⟨-, rfl⟩ := remove_eq_true hr
    exact List.suffix_cons ..
  | tooLate _ hr =>
    obtain ⟨-, rfl⟩ := remove_eq_false hr
    exact List.suffix_rfl
  | get _ hf =>
    obtain ⟨-, -, rfl⟩ := fetch_eq_outcome hf
    exact List.suffix_rfl
  | takeReply _ _ ht =>
    obtain ⟨-, rfl⟩ := take?_eq_some ht
    exact List.suffix_rfl
  | takeAll _ ht =>
    obtain ⟨-, -, rfl⟩ := takeAll?_eq_some ht
    exact List.suffix_rfl
  | settle h => cases h <;> exact List.suffix_cons ..

theorem Reaches.settled (h : Reaches s t) : s.calls.settled <:+ t.calls.settled := by
  induction h with
  | refl => exact List.suffix_rfl
  | tail _ h ih => exact ih.trans h.settled

theorem Orderly.outcome?_of_reaches (hs : Orderly s) (h : Reaches s t) {o : Outcome}
    (ho : s.resolved.outcome? id = some o) : t.resolved.outcome? id = some o := by
  induction h with
  | refl => exact ho
  | @tail t u hst h ih =>
    have ht := hs.reaches hst
    cases h.resolves ht.sound with
    | none ha => rwa [← ha.outcome? ht.sound]
    | step hstep ha =>
      rw [← ha.outcome? (ht.sound.step hstep)]
      exact ht.sound.outcome?_of_step hstep ih

theorem not_mem_promised (s : Meeting) : (id, .removed) ∉ s.promised := by
  simp [promised]

/-- A call that was taken back is with nobody and will never be. -/
theorem Orderly.removed (hs : Orderly s) (ho : s.resolved.outcome? id = some .removed) :
    (id, .removed) ∈ s.calls.settled ∧ id ∉ s.promised.map Prod.fst := by
  have hm := hs.sound.outcome?_eq_some_iff.mp ho
  have hsettled := (List.mem_append.mp hm).resolve_left s.not_mem_promised
  refine ⟨hsettled, fun hp => ?_⟩
  have hnodup := hs.sound.nodup_settled
  rw [resolved, List.map_append] at hnodup
  exact (List.nodup_append.mp hnodup).2.2 id hp id (List.mem_map.mpr ⟨_, hsettled, rfl⟩) rfl

/-! ### What was taken out gets settled -/

theorem settles_closing {reason : Bytes} {pre post : List Int64} {before after : List Closing}
    (h : s.closings = before ++ ⟨reason, pre ++ id :: post⟩ :: after) :
    ∃ t, Relation.ReflTransGen Settles s t ∧ (id, .closed reason) ∈ t.calls.settled ∧
      t.callers = s.callers := by
  induction pre generalizing s with
  | nil => exact ⟨_, .single (.close h), List.mem_cons_self, rfl⟩
  | cons k pre ih =>
    obtain ⟨t, hst, hm, hcallers⟩ :=
      ih (s := { s with
        calls := s.calls.settle (.closed reason) k
        closings := before ++ ⟨reason, pre ++ id :: post⟩ :: after }) rfl
    exact ⟨t, .head (.close h) hst, hm, hcallers⟩

/-- Whoever has taken a call out can settle it without anybody else. -/
theorem settles_of_promised {o : Outcome} (h : (id, o) ∈ s.promised) :
    ∃ t, Relation.ReflTransGen Settles s t ∧ (id, o) ∈ t.calls.settled ∧
      t.callers = s.callers := by
  rcases List.mem_append.mp h with h | h
  · obtain ⟨⟨k, r⟩, hr, heq⟩ := List.mem_map.mp h
    cases heq
    exact ⟨_, .single (.reply (Option.mem_toList.mp hr)), List.mem_cons_self, rfl⟩
  · obtain ⟨k, hk, h⟩ := List.mem_flatMap.mp h
    obtain ⟨_, hid, heq⟩ := List.mem_map.mp h
    cases heq
    obtain ⟨before, after, hclosings⟩ := List.append_of_mem hk
    obtain ⟨pre, post, hleft⟩ := List.append_of_mem hid
    have hsplit : s.closings = before ++ ⟨k.reason, pre ++ id :: post⟩ :: after := by
      rw [hclosings, ← hleft]
    exact settles_closing hsplit

theorem Orderly.outcome?_calls (hs : Orderly s) {o : Outcome} (h : (id, o) ∈ s.calls.settled) :
    s.calls.outcome? id = some o := by
  have hnodup := hs.sound.nodup_settled
  rw [resolved, List.map_append] at hnodup
  exact (lookup_eq_some_iff_mem (List.nodup_append.mp hnodup).2.1).mpr h

theorem Orderly.ends (hs : Orderly s) (hcaller : s.callers id = some ⟨method, .asking⟩)
    {o : Outcome} (ho : s.resolved.outcome? id = some o) :
    ∃ t u, Relation.ReflTransGen Settles s t ∧ Step t u ∧
      u.callers id = some ⟨method, .ended (answer o)⟩ := by
  obtain ⟨t, hst, hm, hcallers⟩ : ∃ t, Relation.ReflTransGen Settles s t ∧
      (id, o) ∈ t.calls.settled ∧ t.callers = s.callers := by
    rcases List.mem_append.mp (hs.sound.outcome?_eq_some_iff.mp ho) with h | h
    · exact settles_of_promised h
    · exact ⟨s, .refl, h, rfl⟩
  have ht := hs.reaches (Settles.reaches hst)
  rw [← hcallers] at hcaller
  have ho := ht.outcome?_calls hm
  have hunfetched := (ht.stands id _ hcaller).1
  rcases t.calls.fetch_cases id with ⟨o', -, ho', h⟩ | ⟨-, ho', -⟩ | ⟨hid, -⟩
  · cases ho'.symm.trans ho
    exact ⟨t, _, hst, .get hcaller h, by simp [put]⟩
  · cases ho'.symm.trans ho
  · exact absurd hid hunfetched

/-- A caller who finds its call still in the table ends with a timeout. -/
theorem Orderly.givesUp (hs : Orderly s) (hcaller : s.callers id = some ⟨method, .expired⟩)
    (hr : (s.calls.remove (.int id)).2 = true) (h : Step s t) (hne : t.callers id ≠ s.callers id) :
    t.callers id = some ⟨method, .ended (.error (.timeout (.noReply method)))⟩ := by
  -- Of the steps that put somebody forward only one fits a caller at this stage.
  have hput {c : Calls} {k : Int64} {m : Bytes} {stage : Stage}
      (hne : ({ s with calls := c }.put k m stage).callers id ≠ s.callers id) : k = id := by
    by_contra hk
    exact hne (by simp [put, Ne.symm hk])
  cases h with
  | begin | takeReply | takeAll => exact absurd rfl hne
  | settle h => cases h <;> exact absurd rfl hne
  | call m hreg _ =>
    obtain rfl := hput hne
    obtain ⟨-, rfl, rfl⟩ := register_eq_ok hreg
    have hknown := (hs.registered _).mp (by rw [hcaller]; rfl)
    exact absurd hknown hs.sound.nextId_not_mem
  | expire hk | wake hk | get hk =>
    obtain rfl := hput hne
    cases hcaller.symm.trans hk
  | giveUp hk =>
    obtain rfl := hput hne
    cases hcaller.symm.trans hk
    simp [put]
  | tooLate hk hfalse =>
    obtain rfl := hput hne
    rw [hfalse] at hr
    cases hr

/-! ### The handing over of calls -/

/-- What every caller, the reader and the closes can rely on. -/
structure Handed (s : Meeting) : Prop where
  /-- A registered call waits in the table, or one party has taken it out, or it has its outcome. -/
  registered : ∀ id, (s.callers id).isSome = true ↔
    id ∈ s.calls.pending ++ (s.promised ++ s.calls.settled).map Prod.fst
  places : (s.calls.pending ++ (s.promised ++ s.calls.settled).map Prod.fst).Nodup
  /-- Outcomes are added and never replaced. -/
  once : ∀ t, Reaches s t → s.calls.settled <:+ t.calls.settled
  /-- A caller whose call is still in the table ends with a timeout, and nobody settles its call. -/
  givesUp : ∀ id method, s.callers id = some ⟨method, .expired⟩ →
    (s.calls.remove (.int id)).2 = true → ∀ t, Step s t → t.callers id ≠ s.callers id →
      t.callers id = some ⟨method, .ended (.error (.timeout (.noReply method)))⟩ ∧
        ∀ u, Reaches t u → (id, .removed) ∈ u.calls.settled ∧ id ∉ u.promised.map Prod.fst
  /-- A caller who is too late finds its call settled, or in the hands of one who will settle it. -/
  tooLate : ∀ id method, s.callers id = some ⟨method, .expired⟩ →
    (s.calls.remove (.int id)).2 = false →
      ∃ o, o.IsFor id ∧ (id, o) ∈ s.promised ++ s.calls.settled
  /-- A caller who asks gets the response to its call or the reason of a close: no other way is
  there for it to end, and nobody but the one who has the call is needed. -/
  asks : ∀ id method, s.callers id = some ⟨method, .asking⟩ →
    ∃ o, o.IsFor id ∧ (id, o) ∈ s.promised ++ s.calls.settled ∧
      answer o ≠ .error .abandoned ∧
      (∀ t result, Reaches s t → t.callers id = some ⟨method, .ended result⟩ → result = answer o) ∧
      ∃ t u, Relation.ReflTransGen Settles s t ∧ Step t u ∧
        u.callers id = some ⟨method, .ended (answer o)⟩
  /-- A caller has ended with a timeout, its call taken back, or with the outcome of its call. -/
  ended : ∀ id method result, s.callers id = some ⟨method, .ended result⟩ →
    (result = .error (.timeout (.noReply method)) ∧ (id, .removed) ∈ s.calls.settled) ∨
      ∃ o, o.IsFor id ∧ (id, o) ∈ s.promised ++ s.calls.settled ∧ result = answer o

theorem Orderly.handed (hs : Orderly s) : Handed s where
  registered := hs.registered
  places := hs.sound.nodup
  once _ := Reaches.settled
  givesUp id method hcaller hr t h hne := by
    have ht := hs.givesUp hcaller hr h hne
    refine ⟨ht, fun u hu => ?_⟩
    have hremoved : t.resolved.outcome? id = some .removed := by
      rcases (hs.step h).stands _ _ ht with ⟨-, ho⟩ | ⟨o, -, -, hanswer⟩
      · exact ho
      · exact absurd hanswer.symm (Client.answer_ne_timeout o _)
    exact ((hs.step h).reaches hu).removed ((hs.step h).outcome?_of_reaches hu hremoved)
  tooLate id method hcaller hr := by
    rcases s.calls.remove_cases id with ⟨-, h⟩ | ⟨hid, -⟩
    · rw [h] at hr
      cases hr
    · obtain ⟨o, ho⟩ := hs.outcome hcaller hid
      exact ⟨o, (hs.stands _ _ hcaller).2 o ho, hs.sound.outcome?_eq_some_iff.mp ho⟩
  asks id method hcaller := by
    obtain ⟨-, o, ho, hfor⟩ := hs.stands _ _ hcaller
    refine ⟨o, hfor, hs.sound.outcome?_eq_some_iff.mp ho, answer_ne_abandoned hfor, ?_,
      hs.ends hcaller ho⟩
    intro t result hst ht
    have ho' := hs.outcome?_of_reaches hst ho
    rcases (hs.reaches hst).stands _ _ ht with ⟨-, hremoved⟩ | ⟨o', hother, -, hresult⟩
    · cases ho'.symm.trans hremoved
      exact hfor.elim
    · cases ho'.symm.trans hother
      exact hresult
  ended id method result hcaller := by
    rcases hs.stands _ _ hcaller with ⟨hr, ho⟩ | ⟨o, ho, hfor, hr⟩
    · exact .inl ⟨hr, (hs.removed ho).1⟩
    · exact .inr ⟨o, hfor, hs.sound.outcome?_eq_some_iff.mp ho, hr⟩

/-- However callers, the reader and closes meet, every call is handed over as it should be. -/
theorem handed_of_reachable (h : Reachable s) : Handed s := (Orderly.init.reaches h).handed

/-- A call whose caller waits. -/
def waitingCaller : Meeting :=
  ({ calls := { phase := .running, nextId := 2, pending := [1] } } : Meeting).put 1 (bytes "m")
    .waiting

/-- The reader is about to deliver a response when the caller, whose deadline has passed, finds that
it cannot give the call up. -/
def lateCaller : Meeting :=
  { (waitingCaller.put 1 (bytes "m") .expired).put 1 (bytes "m") .asking with
    calls := { phase := .running, nextId := 2 }
    reply := some (1, { id := .int 1, result := some .null, error := none }) }

theorem lateCaller_reachable : Reachable lateCaller := by
  have hrunning : Step {} { calls := { phase := .running } } := .begin rfl
  have hcall : Step { calls := { phase := .running } } waitingCaller :=
    .call (bytes "m") rfl (by decide)
  have hexpire : Step waitingCaller (waitingCaller.put 1 (bytes "m") .expired) := .expire rfl
  have htake := Step.takeReply (s := waitingCaller.put 1 (bytes "m") .expired)
    (r := { id := .int 1, result := some .null, error := none }) rfl rfl rfl
  exact .tail (.tail (.tail (.tail (.single hrunning) hcall) hexpire) htake) (.tooLate rfl rfl)

theorem handed_lateCaller : Reachable lateCaller ∧ Handed lateCaller :=
  ⟨lateCaller_reachable, handed_of_reachable lateCaller_reachable⟩

/-! ### Nobody in between -/

theorem complete_reaches (h : s.reply = none) (r : Response) :
    Reaches s { s with calls := (s.calls.complete r).1 } := by
  rcases s.calls.complete_cases r with ⟨id, hr, hid, hc⟩ | ⟨-, hc⟩
  · have htake := Step.takeReply h hr (if_pos hid)
    have hreaches := Relation.ReflTransGen.tail (.single htake) (.settle (.reply rfl))
    rw [hc]
    rwa [← h] at hreaches
  · rw [hc]

theorem settles_all (s : Meeting) (closings : List Closing) (reason : Bytes) (left : List Int64)
    (c : Calls) :
    Relation.ReflTransGen Settles
      { s with calls := c, closings := closings ++ [⟨reason, left⟩] }
      { s with
        calls := left.foldl (fun c id => c.settle (.closed reason) id) c
        closings := closings ++ [⟨reason, []⟩] } := by
  induction left generalizing c with
  | nil => exact .refl
  | cons id left ih => exact .head (.close rfl) (ih _)

theorem close_reaches (s : Meeting) (reason : Bytes) :
    ∃ closings, Reaches s { s with calls := (s.calls.close reason).1, closings } := by
  unfold close
  split
  · exact ⟨s.closings, .refl⟩
  · next ids taken htake =>
    have hall := settles_all s s.closings reason ids taken
    exact ⟨_, .head (.takeAll reason htake) (Settles.reaches hall)⟩

/-- A caller who comes back and whom nobody interrupts. If its call is in no one's hands, that is
all it takes for the caller to end. -/
theorem Orderly.conclude_reaches (hs : Orderly s) (hcaller : s.callers id = some ⟨method, .waiting⟩)
    (hid : id ∉ s.promised.map Prod.fst) {c : Client} (hc : c.calls = s.calls) :
    ∃ t, Reaches s t ∧ t.calls = (c.conclude method id).1.calls ∧
      t.callers id = some ⟨method, .ended (c.conclude method id).2⟩ := by
  have hput (stage : Stage) : (s.put id method stage).callers id = some ⟨method, stage⟩ := by
    simp [put]
  rcases s.calls.fetch_cases id with ⟨o, -, ho, h⟩ | ⟨-, ho, h⟩ | ⟨hfetched, -⟩
  · have hwake := Step.wake hcaller (ho ▸ rfl)
    refine ⟨_, .tail (.single hwake) (.get (hput _) h), ?_⟩
    simp [conclude, hc, h, put]
  · have hpending : id ∈ s.calls.pending := by
      by_contra hp
      obtain ⟨o, hres⟩ := hs.outcome hcaller hp
      rcases List.mem_append.mp (hs.sound.outcome?_eq_some_iff.mp hres) with hm | hm
      · exact hid (List.mem_map.mpr ⟨_, hm, rfl⟩)
      · exact Option.some_ne_none _ ((hs.outcome?_calls hm).symm.trans ho)
    have hr := remove_of_mem hpending
    have hexpire := Step.expire hcaller
    refine ⟨_, .tail (.single hexpire) (.giveUp (hput _) hr), ?_⟩
    simp [conclude, hc, h, hr, put, Client.note]
  · exact absurd hfetched (hs.stands _ _ hcaller).1

end Meeting

end LanguageClient.Calls
