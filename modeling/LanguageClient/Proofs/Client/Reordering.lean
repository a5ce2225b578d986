import LanguageClient.Proofs.Calls.Agreement
import LanguageClient.Proofs.Client.Moves

/-!
# The order of replies

A reply to a pending call may change places with any move that spares the call (`reply_swap`): the
clients that come about are `Twin`s, which differ only in the order of their log lines and of their
outcomes, and no caller can tell twins apart (`Twin.told_eq`). So the replies to distinct calls may be
permuted among all that happens besides (`Reordered.twin`).
-/

namespace LanguageClient.Client

open Calls (Agree)

variable {c d f : Client} {k : Int64} {m : Move} {ms : List Move} {r : Response}

/-! ### Twins -/

/-- The clients are equal but for the order of their log lines and of their outcomes. -/
structure Twin (c d : Client) : Prop where
  options : c.options = d.options
  calls : Agree c.calls d.calls
  inbox : c.inbox = d.inbox
  child : c.child = d.child
  tornDown : c.tornDown = d.tornDown
  log : c.log.Perm d.log

namespace Twin

theorem refl (c : Client) : Twin c c := ⟨rfl, .refl _, rfl, rfl, rfl, .refl _⟩

theorem symm (h : Twin c d) : Twin d c :=
  ⟨h.options.symm, h.calls.symm, h.inbox.symm, h.child.symm, h.tornDown.symm, h.log.symm⟩

theorem trans (h : Twin c d) (h' : Twin d f) : Twin c f :=
  ⟨h.options.trans h'.options, h.calls.trans h'.calls, h.inbox.trans h'.inbox,
    h.child.trans h'.child, h.tornDown.trans h'.tornDown, h.log.trans h'.log⟩

theorem note (h : Twin c d) (e : Log.Entry) : Twin (c.note e) (d.note e) :=
  ⟨h.options, h.calls, h.inbox, h.child, h.tornDown, h.log.append_right _⟩

theorem setCalls (h : Twin c d) {t u : Calls} (ht : Agree t u) :
    Twin { c with calls := t } { d with calls := u } :=
  ⟨h.options, ht, h.inbox, h.child, h.tornDown, h.log⟩

theorem phase (h : Twin c d) : c.phase = d.phase := h.calls.phase

theorem start (h : Twin c d) (launched : Except LaunchError Unit)
    (piped : Except TransportError Unit) :
    Twin (c.start launched piped).1 (d.start launched piped).1 := by
  obtain ⟨options, t, inbox, child, tornDown, log⟩ := c
  obtain ⟨options', u, inbox', child', tornDown', log'⟩ := d
  obtain ⟨rfl, hcalls, rfl, rfl, rfl, hlog⟩ := h
  unfold Client.start checkUnstarted Client.phase
  rw [hcalls.phase]
  split
  · exact ⟨rfl, hcalls, rfl, rfl, rfl, hlog⟩
  · dsimp only [Client.note]
    split
    · exact ⟨rfl, (hcalls.close _).2, rfl, rfl, rfl, (hlog.append_right _).append_right _⟩
    · split
      · exact ⟨rfl, (hcalls.close _).2, rfl, rfl, rfl, hlog.append_right _⟩
      · exact ⟨rfl, hcalls.begin, rfl, rfl, rfl, (hlog.append_right _).append_right _⟩

theorem connect (h : Twin c d) (given : Bool) :
    Twin (c.connect given).1 (d.connect given).1 := by
  unfold Client.connect checkUnstarted
  rw [h.phase]
  split
  · exact h
  · split
    · exact h
    · exact h.setCalls h.calls.begin

theorem stop (h : Twin c d) (ended : Option ExitStatus) : Twin (c.stop ended) (d.stop ended) := by
  obtain ⟨options, t, inbox, child, tornDown, log⟩ := c
  obtain ⟨options', u, inbox', child', tornDown', log'⟩ := d
  obtain ⟨rfl, hcalls, rfl, rfl, rfl, hlog⟩ := h
  unfold Client.stop
  dsimp only
  split
  · exact ⟨rfl, (hcalls.close _).2, rfl, rfl, rfl, hlog⟩
  · exact ⟨rfl, (hcalls.close _).2, rfl, rfl, rfl, hlog.append_right _⟩

theorem queue (h : Twin c d) (m : Message) : Twin (c.queue m) (d.queue m) := by
  obtain ⟨options, t, inbox, child, tornDown, log⟩ := c
  obtain ⟨options', u, inbox', child', tornDown', log'⟩ := d
  obtain ⟨rfl, hcalls, rfl, rfl, rfl, hlog⟩ := h
  unfold Client.queue
  dsimp only [Client.note]
  split
  · exact ⟨rfl, hcalls, rfl, rfl, rfl, hlog.append_right _⟩
  · exact ⟨rfl, hcalls, rfl, rfl, rfl, (hlog.append_right _).append_right _⟩

theorem react (h : Twin c d) (x : Happening) : Twin (c.react x) (d.react x) := by
  cases x with
  | message m =>
    cases m with
    | response r =>
      obtain ⟨hverdict, hcalls⟩ := h.calls.complete r
      simp only [Client.react, receive, receiveResponse_eq, hverdict]
      exact (h.setCalls hcalls).note _
    | request r => exact h.queue (.request r)
    | notification n => exact h.queue (.notification n)
  | fault fault => cases fault <;> exact h.note _
  | outputEnded =>
    obtain ⟨hverdict, hcalls⟩ := h.calls.close outputEndedReason
    simp only [Client.react, endOutput_eq, hverdict]
    split
    · exact (h.setCalls hcalls).note _
    · exact h
  | stop => exact h.stop none

theorem withdraw (h : Twin c d) (method : Bytes) (id : Int64) (failure : Failure) :
    Twin (c.withdraw method (.int id) failure) (d.withdraw method (.int id) failure) := by
  have hcalls := h.setCalls (h.calls.remove id)
  cases failure with
  | unwritable => exact h
  | timeout => exact hcalls.note _
  | launch | notRunning | transport | protocol | abandoned => exact hcalls

theorem conclude (h : Twin c d) (method : Bytes) (id : Int64) :
    (c.conclude method id).2 = (d.conclude method id).2 ∧
      Twin (c.conclude method id).1 (d.conclude method id).1 := by
  obtain ⟨hfinding, hcalls⟩ := h.calls.fetch id
  rw [conclude_eq, conclude_eq, hfinding]
  split
  · exact ⟨rfl, h.setCalls hcalls⟩
  · exact ⟨rfl, h⟩
  · exact ⟨rfl, (h.setCalls (h.calls.remove id)).note _⟩

theorem register (h : Twin c d) (method : Bytes) : Twin (c.register method) (d.register method) := by
  by_cases hr : c.phase = .running
  · rw [register_of_running hr, register_of_running (h.phase ▸ hr), awaiting, awaiting,
      h.calls.nextId]
    exact (h.setCalls h.calls.issueNext).note _
  · rwa [register_of_not_running hr, register_of_not_running (h.phase ▸ hr)]

theorem move (h : Twin c d) (m : Move) : Twin (c.move m) (d.move m) := by
  cases m with
  | start launched piped => exact h.start launched piped
  | connect given => exact h.connect given
  | stop ended => exact h.stop ended
  | meet x => exact h.react x
  | pop => exact ⟨h.options, h.calls, congrArg (·.pop.1) h.inbox, h.child, h.tornDown, h.log⟩
  | note e => exact h.note e
  | register method => exact h.register method
  | withdraw method id failure => exact h.withdraw method id failure
  | conclude method id => exact (h.conclude method id).2

theorem after (h : Twin c d) (ms : List Move) : Twin (c.after ms) (d.after ms) := by
  induction ms generalizing c d with
  | nil => exact h
  | cons m ms ih => exact ih (h.move m)

end Twin

/-! ### What callers are told -/

/-- What a caller is told who asks for the outcome of a call. -/
def told? (c : Client) : Move → Option (Int64 × Except Failure Json)
  | .conclude method id => some (id, (c.conclude method id).2)
  | .start .. | .connect _ | .stop _ | .meet _ | .pop | .note _ | .register _ | .withdraw .. => none

/-- What callers are told in the course of these moves. -/
def told (c : Client) : List Move → List (Int64 × Except Failure Json)
  | [] => []
  | m :: ms => (c.told? m).toList ++ (c.move m).told ms

theorem told_append (c : Client) (ms ms' : List Move) :
    c.told (ms ++ ms') = c.told ms ++ (c.after ms).told ms' := by
  induction ms generalizing c with
  | nil => rfl
  | cons m ms ih => simp [told, ih]

theorem Twin.told?_eq (h : Twin c d) (m : Move) : c.told? m = d.told? m := by
  cases m with
  | conclude method id => exact congrArg (fun result => some (id, result)) (h.conclude method id).1
  | start | connect | stop | meet | pop | note | register | withdraw => rfl

theorem Twin.told_eq (h : Twin c d) (ms : List Move) : c.told ms = d.told ms := by
  induction ms generalizing c d with
  | nil => rfl
  | cons m ms ih => rw [told, told, h.told?_eq, ih (h.move m)]

/-! ### A reply and a move that spares its call -/

/-- The move leaves the call `k` as it is: it does not answer or end it, and its caller does not come
back. -/
def Move.Spares (k : Int64) : Move → Prop
  | .meet (.message (.response r)) => r.id ≠ .int k
  | .meet (.message (.request _)) | .meet (.message (.notification _)) | .meet (.fault _) => True
  | .meet .outputEnded | .meet .stop | .stop _ => False
  | .start .. | .connect _ | .pop | .note _ | .register _ => True
  | .withdraw _ id _ | .conclude _ id => id ≠ k

/-- The client after a reply to the call `k`, which waits for it. -/
def answered (c : Client) (k : Int64) (r : Response) : Client :=
  { c with calls := c.calls.retire k (.reply r) }.note (.responseReceived (.int k))

theorem move_reply (hr : r.id = .int k) (hk : k ∈ c.calls.pending) :
    c.move (.reply r) = c.answered k r := by
  simp only [move, react, receive, receiveResponse_eq, Calls.complete_of_mem hr hk, hr, if_true]
  rfl

theorem start_of_running (hrun : c.phase = .running) (launched : Except LaunchError Unit)
    (piped : Except TransportError Unit) : (c.start launched piped).1 = c := by
  simp [start, checkUnstarted, hrun]

theorem connect_of_running (hrun : c.phase = .running) (given : Bool) :
    (c.connect given).1 = c := by
  unfold connect checkUnstarted
  rw [hrun]
  split <;> rfl

theorem log_swap (l x : List Log.Entry) (e : Log.Entry) : (l ++ [e] ++ x).Perm (l ++ x ++ [e]) := by
  rw [List.append_assoc, List.append_assoc]
  exact List.perm_append_comm.append_left l

@[simp] theorem answered_calls (c : Client) (k : Int64) (r : Response) :
    (c.answered k r).calls = c.calls.retire k (.reply r) := rfl

theorem answered_queue (c : Client) (m : Message) :
    Twin ((c.answered k r).queue m) ((c.queue m).answered k r) := by
  unfold queue
  dsimp only [answered, note]
  split
  · exact ⟨rfl, .refl _, rfl, rfl, rfl, log_swap ..⟩
  · exact ⟨rfl, .refl _, rfl, rfl, rfl, ((log_swap ..).append_right _).trans (log_swap ..)⟩

theorem answered_conclude (c : Client) (method : Bytes) {id : Int64} (hne : id ≠ k) :
    ((c.answered k r).conclude method id).2 = (c.conclude method id).2 ∧
      Twin ((c.answered k r).conclude method id).1 ((c.conclude method id).1.answered k r) := by
  rw [conclude_eq, conclude_eq, answered_calls, Calls.fetch_retire _ hne]
  dsimp only
  split
  · exact ⟨rfl, .refl _⟩
  · exact ⟨rfl, .refl _⟩
  · exact ⟨rfl, rfl, c.calls.remove_retire hne _, rfl, rfl, rfl, log_swap ..⟩

theorem answered_move (hk : c.calls.Waits k) (hs : m.Spares k) :
    Twin ((c.answered k r).move m) ((c.move m).answered k r) := by
  have hrun : (c.answered k r).phase = .running := hk.running
  cases m with
  | start launched piped =>
    rw [move, move, start_of_running hrun, start_of_running hk.running]
    exact .refl _
  | connect given =>
    rw [move, move, connect_of_running hrun, connect_of_running hk.running]
    exact .refl _
  | stop ended => exact hs.elim
  | meet x =>
    cases x with
    | message m =>
      cases m with
      | response q =>
        obtain ⟨hverdict, hcalls⟩ := c.calls.complete_retire hs (.reply r)
        simp only [move, react, receive, receiveResponse_eq, answered_calls, hverdict]
        exact ⟨rfl, hcalls, rfl, rfl, rfl, log_swap ..⟩
      | request q => exact answered_queue ..
      | notification q => exact answered_queue ..
    | fault fault => cases fault <;> exact ⟨rfl, .refl _, rfl, rfl, rfl, log_swap ..⟩
    | outputEnded | stop => exact hs.elim
  | pop => exact .refl _
  | note e => exact ⟨rfl, .refl _, rfl, rfl, rfl, log_swap ..⟩
  | register method =>
    rw [move, move, register_of_running hrun, register_of_running hk.running]
    exact ⟨rfl, .of_eq (c.calls.issueNext_retire hk.mem _), rfl, rfl, rfl, log_swap ..⟩
  | withdraw method id failure =>
    have hcalls := c.calls.remove_retire hs (.reply r)
    cases failure with
    | unwritable => exact .refl _
    | timeout => exact ⟨rfl, hcalls, rfl, rfl, rfl, log_swap ..⟩
    | launch | notRunning | transport | protocol | abandoned =>
      exact ⟨rfl, hcalls, rfl, rfl, rfl, .refl _⟩
  | conclude method id => exact (c.answered_conclude method hs).2

theorem answered_told? (c : Client) (hs : m.Spares k) : (c.answered k r).told? m = c.told? m := by
  cases m with
  | conclude method id =>
    exact congrArg (fun result => some (id, result)) (c.answered_conclude method hs).1
  | start | connect | stop | meet | pop | note | register | withdraw => rfl

/-- A spared call goes on to wait. -/
theorem move_waits (hk : c.calls.Waits k) (hs : m.Spares k) : (c.move m).calls.Waits k := by
  cases m with
  | start launched piped => rwa [move, start_of_running hk.running]
  | connect given => rwa [move, connect_of_running hk.running]
  | stop ended => exact hs.elim
  | meet x =>
    cases x with
    | message m =>
      cases m with
      | response q => exact receiveResponse_calls c q ▸ hk.complete hs
      | request q => exact queue_calls c (.request q) ▸ hk
      | notification q => exact queue_calls c (.notification q) ▸ hk
    | fault fault => cases fault <;> exact hk
    | outputEnded | stop => exact hs.elim
  | pop | note => exact hk
  | register method =>
    rw [move, register_of_running hk.running]
    exact ⟨hk.running, List.mem_append_left _ hk.mem⟩
  | withdraw method id failure =>
    cases failure with
    | unwritable => exact hk
    | launch | notRunning | timeout | transport | protocol | abandoned => exact hk.remove hs
  | conclude method id =>
    rw [move, conclude_eq]
    split
    · have hfetch : (c.calls.fetch id).1.Waits k := by
        unfold Calls.fetch
        split
        · exact hk
        · split
          · exact hk
          · exact ⟨hk.running, hk.mem⟩
      exact hfetch
    · exact hk
    · exact hk.remove hs

/-- A reply changes places with a move that spares its call. -/
theorem reply_swap (hr : r.id = .int k) (hk : c.calls.Waits k) (hs : m.Spares k) :
    Twin ((c.move (.reply r)).move m) ((c.move m).move (.reply r)) := by
  rw [move_reply hr hk.mem, move_reply hr (move_waits hk hs).mem]
  exact answered_move hk hs

/-! ### Replies that are permuted among other moves -/

/-- The call that the move answers, if it is a reply. -/
def Move.answers? : Move → Option Int64
  | .meet (.message (.response r)) =>
    match r.id with
    | .int k => some k
    | .string _ => none
  | .meet (.message (.request _)) | .meet (.message (.notification _)) | .meet (.fault _)
  | .meet .outputEnded | .meet .stop | .start .. | .connect _ | .stop _ | .pop | .note _
  | .register _ | .withdraw .. | .conclude .. => none

/-- It is a reply to one of these calls. -/
def Move.isReplyTo (ids : List Int64) (m : Move) : Bool := m.answers?.any (· ∈ ids)

/-- The replies among the moves. -/
def repliesTo (ids : List Int64) (ms : List Move) : List Move := ms.filter (·.isReplyTo ids)

/-- The other moves. -/
def besides (ids : List Int64) (ms : List Move) : List Move := ms.filter fun m => !m.isReplyTo ids

/-- Two courses of events differ only in the order in which the calls of `ids` are answered, each at
most once, and where among the other moves, none of which does anything to the calls that are
answered. -/
structure Reordered (ids : List Int64) (ms ms' : List Move) : Prop where
  replies : (repliesTo ids ms).Perm (repliesTo ids ms')
  besides : besides ids ms = besides ids ms'
  once : ((repliesTo ids ms).map Move.answers?).Nodup
  spared : ∀ m ∈ ms, m.isReplyTo ids = false → ∀ k, some k ∈ (repliesTo ids ms).map Move.answers? →
    m.Spares k

example (r q : Response) (f : ReadFault) (hr : r.id = .int 1) (hq : q.id = .int 2) :
    Reordered [1, 2] [.reply r, .meet (.fault f), .reply q]
      [.reply q, .meet (.fault f), .reply r] := by
  constructor <;>
    simp [repliesTo, besides, Move.isReplyTo, Move.answers?, Move.Spares, hr, hq, List.Perm.swap]

theorem Move.answers?_reply (hr : r.id = .int k) : (Move.reply r).answers? = some k := by
  simp only [answers?, hr]

theorem Move.eq_reply_of_answers? (h : m.answers? = some k) :
    ∃ r, m = .reply r ∧ r.id = .int k := by
  cases m with
  | meet x =>
    cases x with
    | message m =>
      cases m with
      | response r =>
        cases hr : r.id with
        | int j =>
          cases (answers?_reply hr).symm.trans h
          exact ⟨r, rfl, hr⟩
        | string s => simp [answers?, hr] at h
      | request | notification => cases h
    | fault | outputEnded | stop => cases h
  | start | connect | stop | pop | note | register | withdraw | conclude => cases h

/-- Replies to distinct calls that wait. -/
structure Replies (c : Client) (ms : List Move) : Prop where
  waits : ∀ m ∈ ms, ∃ r k, m = .reply r ∧ r.id = .int k ∧ c.calls.Waits k
  once : (ms.map Move.answers?).Nodup

namespace Replies

theorem move (h : Replies c ms) (hs : ∀ k, some k ∈ ms.map Move.answers? → m.Spares k) :
    Replies (c.move m) ms := by
  refine ⟨fun q hq => ?_, h.once⟩
  obtain ⟨r, k, rfl, hr, hk⟩ := h.waits q hq
  have hmem : some k ∈ ms.map Move.answers? :=
    List.mem_map.mpr ⟨_, hq, Move.answers?_reply hr⟩
  exact ⟨r, k, rfl, hr, move_waits hk (hs k hmem)⟩

theorem spares (h : Replies c (m :: ms)) (hk : some k ∈ ms.map Move.answers?) : m.Spares k := by
  obtain ⟨r, j, rfl, hr, -⟩ := h.waits m List.mem_cons_self
  intro hid
  cases hr.symm.trans hid
  have hnot := (List.nodup_cons.mp h.once).1
  rw [Move.answers?_reply hr] at hnot
  exact hnot hk

theorem tail (h : Replies c (m :: ms)) : Replies (c.move m) ms := by
  have htail : Replies c ms :=
    ⟨fun q hq => h.waits q (List.mem_cons_of_mem _ hq), (List.nodup_cons.mp h.once).2⟩
  exact htail.move fun _ hk => h.spares hk

theorem perm {ms' : List Move} (h : Replies c ms) (hp : ms.Perm ms') : Replies c ms' :=
  ⟨fun q hq => h.waits q (hp.mem_iff.mpr hq), (hp.map _).nodup_iff.mp h.once⟩

theorem told (h : Replies c ms) : c.told ms = [] := by
  induction ms generalizing c with
  | nil => rfl
  | cons m ms ih =>
    obtain ⟨r, k, rfl, -, -⟩ := h.waits m List.mem_cons_self
    exact ih h.tail

/-- Replies come before a move that spares their calls or after it. -/
theorem swap (h : Replies c ms) (hs : ∀ k, some k ∈ ms.map Move.answers? → m.Spares k) :
    Twin ((c.move m).after ms) ((c.after ms).move m) ∧ (c.after ms).told? m = c.told? m := by
  induction ms generalizing c with
  | nil => exact ⟨.refl _, rfl⟩
  | cons q ms ih =>
    obtain ⟨r, k, rfl, hr, hk⟩ := h.waits q List.mem_cons_self
    have hspares : m.Spares k := hs k (by simp [Move.answers?_reply hr])
    obtain ⟨htwin, htold⟩ := ih h.tail fun k hk => hs k (List.mem_cons_of_mem _ hk)
    refine ⟨((reply_swap hr hk hspares).symm.after ms).trans htwin, ?_⟩
    rw [after_cons, htold, move_reply hr hk.mem, answered_told? c hspares]

theorem permute {ms' : List Move} (h : Replies c ms) (hp : ms.Perm ms') :
    Twin (c.after ms) (c.after ms') := by
  induction hp generalizing c with
  | nil => exact .refl _
  | cons q _ ih => exact ih h.tail
  | swap p q ms =>
    obtain ⟨r, k, rfl, hr, hk⟩ := h.waits q List.mem_cons_self
    have hp := h.perm (.swap p (.reply r) ms)
    exact (reply_swap hr hk (hp.spares (by simp [Move.answers?_reply hr]))).after ms
  | trans hp _ ih ih' => exact (ih h).trans (ih' (h.perm hp))

end Replies

/-- Replies may come first, before everything that spares their calls. -/
theorem replies_first (ids : List Int64) (h : Replies c (repliesTo ids ms))
    (hs : ∀ m ∈ ms, m.isReplyTo ids = false → ∀ k, some k ∈ (repliesTo ids ms).map Move.answers? →
      m.Spares k) :
    Twin (c.after ms) (c.after (repliesTo ids ms ++ besides ids ms)) ∧
      c.told ms = c.told (repliesTo ids ms ++ besides ids ms) := by
  induction ms generalizing c with
  | nil => exact ⟨.refl _, rfl⟩
  | cons m ms ih =>
    cases hm : m.isReplyTo ids with
    | true =>
      have hreplies : repliesTo ids (m :: ms) = m :: repliesTo ids ms := List.filter_cons_of_pos hm
      have hbesides : besides ids (m :: ms) = besides ids ms :=
        List.filter_cons_of_neg (by simp [hm])
      rw [hreplies] at h hs
      rw [hreplies, hbesides]
      obtain ⟨htwin, htold⟩ := ih h.tail fun q hq hno k hk =>
        hs q (List.mem_cons_of_mem _ hq) hno k (List.mem_cons_of_mem _ hk)
      exact ⟨htwin, congrArg ((c.told? m).toList ++ ·) htold⟩
    | false =>
      have hreplies : repliesTo ids (m :: ms) = repliesTo ids ms :=
        List.filter_cons_of_neg (by simp [hm])
      have hbesides : besides ids (m :: ms) = m :: besides ids ms :=
        List.filter_cons_of_pos (by simp [hm])
      rw [hreplies] at h hs
      rw [hreplies, hbesides]
      have hm := hs m List.mem_cons_self hm
      -- The replies behind the move come first, and then they also go in front of it.
      obtain ⟨htwin, htold⟩ := ih (h.move hm) fun q hq => hs q (List.mem_cons_of_mem _ hq)
      obtain ⟨hswap, hsame⟩ := h.swap hm
      rw [after_append] at htwin
      rw [told_append, (h.move hm).told] at htold
      constructor
      · rw [after_append]
        exact htwin.trans (hswap.after _)
      · calc c.told (m :: ms)
            = (c.told? m).toList ++ ((c.move m).after (repliesTo ids ms)).told (besides ids ms) :=
              congrArg ((c.told? m).toList ++ ·) htold
          _ = ((c.after (repliesTo ids ms)).told? m).toList ++
                ((c.after (repliesTo ids ms)).move m).told (besides ids ms) := by
              rw [hsame, hswap.told_eq]
          _ = c.told (repliesTo ids ms ++ m :: besides ids ms) := by
              rw [told_append, h.told]
              rfl

namespace Reordered

variable {ids : List Int64} {ms' : List Move}

theorem symm (h : Reordered ids ms ms') : Reordered ids ms' ms where
  replies := h.replies.symm
  besides := h.besides.symm
  once := (h.replies.map _).nodup_iff.mp h.once
  spared m hm hno k hk := by
    have hbesides : m ∈ Client.besides ids ms' := List.mem_filter.mpr ⟨hm, by simp [hno]⟩
    rw [← h.besides] at hbesides
    exact h.spared m (List.mem_filter.mp hbesides).1 hno k ((h.replies.map _).mem_iff.mpr hk)

theorem isReplies (h : Reordered ids ms ms') (hids : ∀ k ∈ ids, c.calls.Waits k) :
    Replies c (repliesTo ids ms) := by
  refine ⟨fun m hm => ?_, h.once⟩
  obtain ⟨k, hk, hmem⟩ := (Option.any_eq_true ..).mp (List.mem_filter.mp hm).2
  obtain ⟨r, rfl, hr⟩ := Move.eq_reply_of_answers? hk
  exact ⟨r, k, rfl, hr, hids k (of_decide_eq_true hmem)⟩

/-- Calls that wait may be answered in any order: the client comes out the same, and all callers are
told the same. -/
theorem twin (h : Reordered ids ms ms') (hids : ∀ k ∈ ids, c.calls.Waits k) :
    Twin (c.after ms) (c.after ms') ∧ c.told ms = c.told ms' := by
  have hreplies := h.isReplies hids
  have hreplies' := h.symm.isReplies hids
  obtain ⟨htwin, htold⟩ := replies_first ids hreplies h.spared
  obtain ⟨htwin', htold'⟩ := replies_first ids hreplies' h.symm.spared
  have hpermuted := hreplies.permute h.replies
  rw [after_append] at htwin htwin'
  rw [told_append, hreplies.told] at htold
  rw [told_append, hreplies'.told, ← h.besides] at htold'
  rw [← h.besides] at htwin'
  constructor
  · exact (htwin.trans (hpermuted.after _)).trans htwin'.symm
  · rw [htold, htold', hpermuted.told_eq]

end Reordered

end LanguageClient.Client
