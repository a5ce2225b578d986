import LanguageClient.Proofs.Channel.Room

/-!
# After a send that failed

A send that fails before its first byte leaves a line as it was: everything can happen afterwards that
could have happened without it, and nothing else (`TracelessSend`). One that fails later, at its
deadline, closes the write end, and from then on nothing is written (`Refuses`), just as after the
write end has been closed from outside. Together this is `aftermath`.
-/

namespace LanguageClient.Channel

variable {c : Channel} {m : Message} {body : Bytes} {answers : List Answer}

/-! ### One send -/

theorem send_of_shutDown (hs : c.shutDown = true) (m : Message) (lock : Lock)
    (answers : List Answer) : c.send m lock answers = ⟨c, [], .failed (.transport .shutDown)⟩ := by
  simp [send, frame?, hs]

theorem send_of_body?_eq_none (hs : c.shutDown = false) (hm : m.body? = none) (lock : Lock)
    (answers : List Answer) : c.send m lock answers = ⟨c, [], .failed .unwritable⟩ := by
  simp [send, frame?, hs, hm]

theorem send_of_lockExpired (hs : c.shutDown = false) (hm : m.body? = some body)
    (answers : List Answer) :
    c.send m .expired answers = ⟨c, [], .failed (.timeout .lockHeld)⟩ := by
  simp [send, frame?, hs, hm]

theorem send_of_inputClosed (ho : c.inputOpen = false) (hm : m.body? = some body)
    (answers : List Answer) :
    ∃ e, c.send m .obtained answers = ⟨c, [], .failed (.transport e)⟩ ∧
      (e = .inputClosed ∨ e = .shutDown) := by
  cases hs : c.shutDown with
  | true => exact ⟨.shutDown, send_of_shutDown hs m .obtained answers, .inr rfl⟩
  | false => exact ⟨.inputClosed, by simp [send, frame?, writeFrame, hs, hm, ho], .inl rfl⟩

/-- The pipe takes `n` bytes, and then the deadline passes. -/
def Expires (answers : List Answer) (n : Nat) : Prop :=
  ∃ before after, answers = before ++ .expired :: after ∧ (∀ a ∈ before, a.IsTaking) ∧
    room before = n

theorem write_of_expires {left : Bytes} {n : Nat} (h : Expires answers n) (hn : n < left.length)
    (accepted : Bytes) : write accepted left answers = ⟨accepted ++ left.take n, some .expired⟩ := by
  obtain ⟨before, after, rfl, htaking, rfl⟩ := h
  induction before generalizing accepted left with
  | nil =>
    cases left with
    | nil => exact absurd hn (Nat.not_lt_zero _)
    | cons b left => simp [write, room]
  | cons a before ih =>
    obtain ⟨ha, hbefore⟩ := List.forall_mem_cons.mp htaking
    cases left with
    | nil => exact absurd hn (Nat.not_lt_zero _)
    | cons b left =>
      cases a with
      | took k =>
        have hrest : room before < ((b :: left).drop k).length := by
          rw [room] at hn
          rw [List.length_drop]
          omega
        rw [List.cons_append, write, ih _ hbefore hrest, List.append_assoc, room, ← List.take_add]
        rfl
      | room =>
        rw [List.cons_append, write, ih _ hbefore hn]
        rfl
      | shutDown | expired | broken => exact ha.elim

theorem send_of_expires (hs : c.shutDown = false) (ho : c.inputOpen = true)
    (hm : m.body? = some body) {n : Nat} (h : Expires answers n)
    (hn : n < (Frame.encode body).length) :
    c.send m .obtained answers =
      if n = 0 then ⟨c, [], .failed (.timeout .nothingWritten)⟩
      else ⟨c.closeInput, (Frame.encode body).take n, .failed (.timeout .partlyWritten)⟩ := by
  have hwrite := write_of_expires h hn []
  rw [List.nil_append] at hwrite
  by_cases hzero : n = 0
  · subst hzero
    simp [send, frame?, writeFrame, hs, ho, hm, hwrite, settleCut]
  · have hne : ((Frame.encode body).take n).isEmpty = false := by
      simp [List.take_eq_nil_iff, hzero, encode_ne_nil]
    simp [send, frame?, writeFrame, hs, ho, hm, hwrite, settleCut, hne, hzero]

namespace Line

variable {l k : Line} {turns : List Turn}

/-! ### Nobody looks at the record of the sends -/

theorem Admits.sends (h : l.Admits turns) (s : List (Message × Sent)) :
    Admits { l with sends := s } turns := by
  induction h with
  | nil => exact .nil
  | @answer l a turns ha _ ih =>
    refine .answer ?_ ih
    cases a <;> exact ha
  | shutdown _ ih => exact .shutdown ih
  | peerClose _ ih => exact .peerClose ih

/-- A step is possible after any sends, and adds the same to their record. -/
theorem Step.sends (h : Step l k) (s : List (Message × Sent)) :
    ∃ new, k.sends = l.sends ++ new ∧ Step { l with sends := s } { k with sends := s ++ new } := by
  have hquiet (hsends : k.sends = l.sends) (hstep : Step { l with sends := s } { k with sends := s }) :
      ∃ new, k.sends = l.sends ++ new ∧
        Step { l with sends := s } { k with sends := s ++ new } := by
    refine ⟨[], hsends.trans (List.append_nil _).symm, ?_⟩
    rwa [List.append_nil]
  cases h with
  | send m lock turns hlock hadmits =>
    exact ⟨[(m, _)], rfl, .send m lock turns hlock (hadmits.sends s)⟩
  | peerRead n => exact hquiet rfl (.peerRead n)
  | peerClose => exact hquiet rfl .peerClose
  | closeInput hheld => exact hquiet rfl (.closeInput hheld)
  | shutdown => exact hquiet rfl .shutdown
  | enter he => exact hquiet rfl (.enter he)
  | leave hr => exact hquiet rfl (.leave hr)

theorem Reaches.sends (h : Reaches l k) (s : List (Message × Sent)) :
    ∃ new, k.sends = l.sends ++ new ∧
      Reaches { l with sends := s } { k with sends := s ++ new } := by
  induction h with
  | refl =>
    refine ⟨[], (List.append_nil _).symm, ?_⟩
    rw [List.append_nil]
  | @tail mid k _ hstep ih =>
    obtain ⟨new, hnew, hreaches⟩ := ih
    obtain ⟨more, hmore, hstep⟩ := hstep.sends (s ++ new)
    refine ⟨new ++ more, by rw [hmore, hnew, List.append_assoc], ?_⟩
    rw [← List.append_assoc]
    exact hreaches.tail hstep

/-- What can happen after some sends can happen after others, and the sends that follow end in the
same way. -/
theorem reaches_sends_iff (s t new : List (Message × Sent)) :
    Reaches { l with sends := s } { k with sends := s ++ new } ↔
      Reaches { l with sends := t } { k with sends := t ++ new } := by
  have hmove (s t : List (Message × Sent))
      (h : Reaches { l with sends := s } { k with sends := s ++ new }) :
      Reaches { l with sends := t } { k with sends := t ++ new } := by
    obtain ⟨new', hnew, hreaches⟩ := h.sends t
    obtain rfl : new = new' := List.append_cancel_left hnew
    exact hreaches
  exact ⟨hmove s t, hmove t s⟩

/-! ### Sends that leave no trace -/

/-- The line with what happens during a send, but for the send. -/
def meanwhile (l : Line) (turns : List Turn) : Line :=
  { l with
    channel := if .shutdown ∈ turns then l.channel.shutdown else l.channel
    peerOpen := l.peerOpen && decide (.peerClose ∉ turns) }

/-- The send fails with the error `e` and is as if it had not been. -/
structure TracelessSend (l : Line) (m : Message) (lock : Lock) (turns : List Turn) (e : SendError) :
    Prop where
  /-- Nothing is written, and neither the write end nor the shutdown flag is touched. -/
  after : l.send m lock turns =
    { l.meanwhile turns with sends := l.sends ++ [(m, .failed e)] }
  /-- What can happen afterwards is what could have happened without it, with the same results. -/
  later : ∀ (k : Line) (new : List (Message × Sent)),
    Reaches (l.send m lock turns) { k with sends := l.sends ++ [(m, .failed e)] ++ new } ↔
      Reaches (l.meanwhile turns) { k with sends := l.sends ++ new }

theorem tracelessSend_of_failed {m : Message} {lock : Lock} {e : SendError}
    (h : l.channel.send m lock (turns.filterMap Turn.answer?) = ⟨l.channel, [], .failed e⟩) :
    l.TracelessSend m lock turns e := by
  have hafter : l.send m lock turns =
      { l.meanwhile turns with sends := l.sends ++ [(m, .failed e)] } := by
    simp [Line.send, h, meanwhile]
  refine ⟨hafter, fun k new => ?_⟩
  rw [hafter]
  exact reaches_sends_iff (l := l.meanwhile turns) _ l.sends new

/-! ### Write ends that stay closed -/

theorem Step.shutDown (h : Step l k) (hs : l.channel.shutDown = true) :
    k.channel.shutDown = true := by
  cases h with
  | send => exact send_shutDown (.inl hs)
  | peerRead | peerClose | closeInput | leave => exact hs
  | shutdown => rfl
  | enter he =>
    obtain ⟨-, rfl⟩ := enter?_eq_some he
    exact hs

theorem Step.inputClosed (h : Step l k) (ho : l.channel.inputOpen = false) :
    k.channel.inputOpen = false := by
  cases h with
  | send m lock turns =>
    refine send_inputOpen ?_
    rcases send_channel l.channel m lock (turns.filterMap Turn.answer?) with hc | hc <;> rw [hc]
    · exact ho
    · rfl
  | peerRead | peerClose | shutdown | leave => exact ho
  | closeInput => rfl
  | enter he =>
    obtain ⟨-, rfl⟩ := enter?_eq_some he
    exact ho

theorem Reaches.shutDown (h : Reaches l k) (hs : l.channel.shutDown = true) :
    k.channel.shutDown = true := by
  induction h with
  | refl => exact hs
  | tail _ hstep ih => exact hstep.shutDown ih

theorem Reaches.inputClosed (h : Reaches l k) (ho : l.channel.inputOpen = false) :
    k.channel.inputOpen = false := by
  induction h with
  | refl => exact ho
  | tail _ hstep ih => exact hstep.inputClosed ih

/-- Whatever happens from now on, nothing is written, and a message that could be written is refused
once its sender has the lock. -/
structure Refuses (l : Line) : Prop where
  accepted : ∀ k, Reaches l k → k.accepted = l.accepted
  send : ∀ k, Reaches l k → ∀ m body answers, m.body? = some body →
    ∃ e, k.channel.send m .obtained answers = ⟨k.channel, [], .failed (.transport e)⟩ ∧
      (e = .inputClosed ∨ e = .shutDown)

theorem refuses_of_inputClosed (ho : l.channel.inputOpen = false) : l.Refuses where
  accepted _ hk := Dead.reaches (.inr (.inl ho)) hk
  send _ hk _ _ answers hm := send_of_inputClosed (hk.inputClosed ho) hm answers

/-! ### All failures -/

/-- What a failed send leaves behind, and what the channel's end does to all sends after it. -/
structure Aftermath (l : Line) : Prop where
  /-- A message that cannot be written leaves no trace, -/
  unwritable : ∀ m lock turns, l.channel.shutDown = false → m.body? = none →
    l.TracelessSend m lock turns .unwritable
  /-- nor does one whose deadline passes while another writer has the lock, -/
  lockHeld : ∀ m body turns, l.channel.shutDown = false → m.body? = some body →
    l.TracelessSend m .expired turns (.timeout .lockHeld)
  /-- or before its first byte is taken. -/
  nothingWritten : ∀ m body turns, l.channel.shutDown = false → l.channel.inputOpen = true →
    m.body? = some body → Expires (turns.filterMap Turn.answer?) 0 →
      l.TracelessSend m .obtained turns (.timeout .nothingWritten)
  /-- If it passes later, the write end is closed, and stays so. -/
  partlyWritten : ∀ m body turns n, l.channel.shutDown = false → l.channel.inputOpen = true →
    m.body? = some body → Expires (turns.filterMap Turn.answer?) n → 0 < n →
    n < (Frame.encode body).length →
      (l.send m .obtained turns).sends = l.sends ++ [(m, .failed (.timeout .partlyWritten))] ∧
      (l.send m .obtained turns).accepted = l.accepted ++ (Frame.encode body).take n ∧
      (l.send m .obtained turns).channel.inputOpen = false ∧
      (l.send m .obtained turns).Refuses
  /-- The write end may be closed from outside, -/
  inputClosed : ({ l with channel := l.channel.closeInput } : Line).Refuses
  /-- and after a shutdown every send fails in the same way. -/
  shutDown : ∀ k, Reaches { l with channel := l.channel.shutdown } k → ∀ m lock answers,
    k.channel.send m lock answers = ⟨k.channel, [], .failed (.transport .shutDown)⟩
  shutDown_message : TransportError.message .shutDown = bytes "Transport shut down"

theorem aftermath (l : Line) : Aftermath l where
  unwritable m lock turns hs hm := tracelessSend_of_failed (send_of_body?_eq_none hs hm lock _)
  lockHeld m body turns hs hm := tracelessSend_of_failed (send_of_lockExpired hs hm _)
  nothingWritten m body turns hs ho hm h := by
    have hpos : 0 < (Frame.encode body).length := List.length_pos_iff.mpr (encode_ne_nil body)
    have hsend := send_of_expires hs ho hm h hpos
    rw [if_pos rfl] at hsend
    exact tracelessSend_of_failed hsend
  partlyWritten m body turns n hs ho hm h hpos hn := by
    have hsend := send_of_expires hs ho hm h hn
    rw [if_neg (Nat.ne_of_gt hpos)] at hsend
    have hclosed : (l.send m .obtained turns).channel.inputOpen = false :=
      send_inputOpen (by rw [hsend]; rfl)
    refine ⟨?_, ?_, hclosed, refuses_of_inputClosed hclosed⟩
    · simp [Line.send, hsend]
    · simp [Line.send, hsend]
  inputClosed := refuses_of_inputClosed rfl
  shutDown _ hk m lock answers := send_of_shutDown (hk.shutDown rfl) m lock answers
  shutDown_message := by decide

/-- The deadline passes when three bytes of a frame are written. -/
def halfLine : Line :=
  ({} : Line).send (.notification { method := bytes "a", params := none }) .obtained
    [.answer (.took 3), .answer .expired]

theorem halfLine_reachable : Reachable halfLine :=
  .single (.send _ _ _ (fun _ => rfl) (.answer rfl (.answer trivial .nil)))

/-- Behind half a frame, a message that cannot be written is refused as ever, and so is one whose
sender does not get the lock. -/
theorem halfLine_refusals :
    let message : Message := .notification { method := bytes "b", params := none }
    let broken : Message := .notification { method := [0xFF], params := none }
    Reachable halfLine ∧ halfLine.sends.map (·.2) = [.failed (.timeout .partlyWritten)] ∧
      halfLine.accepted.length = 3 ∧
      (halfLine.channel.send broken .obtained []).result = .failed .unwritable ∧
      (halfLine.channel.send message .expired []).result = .failed (.timeout .lockHeld) ∧
      (halfLine.channel.send message .obtained []).result = .failed (.transport .inputClosed) :=
  ⟨halfLine_reachable, by decide, by decide, by decide, by decide, by decide⟩

end Line

end LanguageClient.Channel
