import LanguageClient.Channel.Duplex
import LanguageClient.Proofs.Channel.Delivery
import Mathlib.Logic.Relation

/-!
# The outgoing stream

Sends take turns at one pipe, and while one of them writes, the peer may close its end and the channel
may be shut down (`Turn`). A `Line` is a channel with what has gone into its pipe. Of a frame that was
cut short the pipe keeps a part, and then the line is dead (`Line.Dead`): whatever cut the frame short
keeps every later send from writing. So the pipe holds the frames of the sends that went well and at
most one such part behind them (`Line.intact_of_reachable`). A duplex sends in such steps
(`sendWith_step`) and is read in such steps (`start_reaches`).
-/

namespace LanguageClient.Channel

variable {c : Channel} {m : Message} {lock : Lock} {answers : List Answer} {body frame : Bytes}

/-! ### One write -/

/-- Writing goes so far: the pipe takes `written` of `frame`. -/
structure Writes (frame : Bytes) (answers : List Answer) (written : Bytes) (cut : Option Cut) :
    Prop where
  sub : written <+: frame
  whole : cut = none ↔ written = frame
  took : written ≠ [] → ∃ n, .took n ∈ answers
  shutDown : cut = some .shutDown → .shutDown ∈ answers
  broken : cut = some .broken → .broken ∈ answers

theorem Writes.cons {written : Bytes} {cut : Option Cut} (h : Writes frame answers written cut)
    (a : Answer) : Writes frame (a :: answers) written cut where
  sub := h.sub
  whole := h.whole
  took hw := (h.took hw).imp fun _ hn => List.mem_cons_of_mem a hn
  shutDown hc := List.mem_cons_of_mem a (h.shutDown hc)
  broken hc := List.mem_cons_of_mem a (h.broken hc)

theorem Writes.took_cons {written : Bytes} {cut : Option Cut} (n : Nat)
    (h : Writes (frame.drop n) answers written cut) :
    Writes frame (.took n :: answers) (frame.take n ++ written) cut where
  sub := by
    have hsub := (List.prefix_append_right_inj (frame.take n)).mpr h.sub
    rwa [List.take_append_drop] at hsub
  whole := by
    rw [h.whole]
    constructor
    · rintro rfl
      exact List.take_append_drop n frame
    · intro heq
      exact List.append_cancel_left (heq.trans (List.take_append_drop n frame).symm)
  took _ := ⟨n, List.mem_cons_self⟩
  shutDown hc := List.mem_cons_of_mem _ (h.shutDown hc)
  broken hc := List.mem_cons_of_mem _ (h.broken hc)

/-- Writing that ends before the first byte. -/
theorem Writes.none_written {cut : Cut} (hf : frame ≠ []) (hs : cut = .shutDown → .shutDown ∈ answers)
    (hb : cut = .broken → .broken ∈ answers) : Writes frame answers [] (some cut) where
  sub := List.nil_prefix
  whole := by simp [hf.symm]
  took h := absurd rfl h
  shutDown h := hs (Option.some.inj h)
  broken h := hb (Option.some.inj h)

theorem Writes.empty (answers : List Answer) : Writes [] answers [] none where
  sub := List.nil_prefix
  whole := by simp
  took h := absurd rfl h
  shutDown := nofun
  broken := nofun

theorem write_nil (accepted : Bytes) (answers : List Answer) :
    write accepted [] answers = ⟨accepted, none⟩ := by
  unfold write
  rfl

theorem write_writes (accepted frame : Bytes) (answers : List Answer) :
    ∃ written, (write accepted frame answers).accepted = accepted ++ written ∧
      Writes frame answers written (write accepted frame answers).cut := by
  induction answers generalizing accepted frame with
  | nil =>
    cases frame with
    | nil => exact ⟨[], by simp [write_nil], write_nil accepted [] ▸ .empty _⟩
    | cons b frame => exact ⟨[], by simp [write], .none_written nofun nofun nofun⟩
  | cons a rest ih =>
    cases frame with
    | nil => exact ⟨[], by simp [write_nil], write_nil accepted (a :: rest) ▸ .empty _⟩
    | cons b frame =>
      cases a with
      | took n =>
        obtain ⟨written, hw, h⟩ := ih (accepted ++ (b :: frame).take n) ((b :: frame).drop n)
        exact ⟨(b :: frame).take n ++ written, by rw [← List.append_assoc]; exact hw, h.took_cons n⟩
      | room =>
        obtain ⟨written, hw, h⟩ := ih accepted (b :: frame)
        exact ⟨written, hw, h.cons .room⟩
      | shutDown =>
        exact ⟨[], (List.append_nil _).symm, .none_written nofun (fun _ => List.mem_cons_self) nofun⟩
      | expired => exact ⟨[], (List.append_nil _).symm, .none_written nofun nofun nofun⟩
      | broken =>
        exact ⟨[], (List.append_nil _).symm, .none_written nofun nofun fun _ => List.mem_cons_self⟩

/-! ### One send -/

/-- A send is refused before it writes anything, or it writes its frame as far as the pipe takes it.
-/
theorem send_cases (c : Channel) (m : Message) (lock : Lock) (answers : List Answer) :
    (∃ e, c.send m lock answers = ⟨c, [], .failed e⟩) ∨
      (lock = .obtained ∧ c.shutDown = false ∧ c.inputOpen = true ∧
        ∃ body written cut, m.body? = some body ∧
          Writes (Frame.encode body) answers written cut ∧
          c.send m lock answers =
            ⟨(c.settleCut written cut).1, written, (c.settleCut written cut).2⟩) := by
  unfold send frame?
  by_cases hs : c.shutDown = true
  · exact .inl ⟨_, by rw [if_pos hs]⟩
  · rw [if_neg hs]
    cases hb : m.body? with
    | none => exact .inl ⟨_, rfl⟩
    | some body =>
      cases lock with
      | expired => exact .inl ⟨_, rfl⟩
      | obtained =>
        by_cases ho : c.inputOpen = true
        · obtain ⟨written, hw, hwrites⟩ := write_writes [] (Frame.encode body) answers
          rw [List.nil_append] at hw
          refine .inr ⟨rfl, by simpa using hs, ho, body, written, _, rfl, hwrites, ?_⟩
          simp [writeFrame, hs, ho, hw]
        · exact .inl ⟨.transport .inputClosed, by simp [writeFrame, hs, ho]⟩

theorem encode_ne_nil (body : Bytes) : Frame.encode body ≠ [] := by
  simp [Frame.encode]

/-- A frame is sent if it is written whole. If only a part of it is written, there is a reason for
which nothing can be written after it. -/
theorem settleCut_cases {written : Bytes} {cut : Option Cut}
    (h : Writes frame answers written cut) :
    (written = frame ∧ c.settleCut written cut = (c, .done)) ∨
      (written ≠ frame ∧ (c.settleCut written cut).2 ≠ .done ∧
        (written = [] ∨ .shutDown ∈ answers ∨ .broken ∈ answers ∨
          (c.settleCut written cut).1.inputOpen = false ∨
          (c.settleCut written cut).2 = .waiting)) := by
  cases cut with
  | none => exact .inl ⟨h.whole.mp rfl, rfl⟩
  | some cut =>
    have hne : written ≠ frame := fun heq => Option.some_ne_none cut (h.whole.mpr heq)
    refine .inr ⟨hne, ?_⟩
    cases cut with
    | shutDown => exact ⟨nofun, .inr (.inl (h.shutDown rfl))⟩
    | broken => exact ⟨nofun, .inr (.inr (.inl (h.broken rfl)))⟩
    | blocked => exact ⟨nofun, .inr (.inr (.inr (.inr rfl)))⟩
    | expired =>
      cases written with
      | nil => exact ⟨nofun, .inl rfl⟩
      | cons b rest => exact ⟨nofun, .inr (.inr (.inr (.inl rfl)))⟩

/-- Sending may close the write end and changes nothing else about the channel. -/
theorem send_channel (c : Channel) (m : Message) (lock : Lock) (answers : List Answer) :
    (c.send m lock answers).channel = c ∨ (c.send m lock answers).channel = c.closeInput := by
  rcases send_cases c m lock answers with ⟨e, h⟩ | ⟨-, -, -, body, written, cut, -, -, h⟩ <;> rw [h]
  · exact .inl rfl
  · cases cut with
    | none => exact .inl rfl
    | some cut =>
      cases cut with
      | shutDown | broken | blocked => exact .inl rfl
      | expired =>
        cases written with
        | nil => exact .inl rfl
        | cons => exact .inr rfl

/-! ### A line -/

/-- What may happen while a sender is inside. Reading by the peer is not among it: whatever the peer
reads and whenever, the pipe's answers say what room there is. -/
inductive Turn where
  | answer (a : Answer)
  | shutdown
  | peerClose
  deriving DecidableEq

def Turn.answer? : Turn → Option Answer
  | .answer a => some a
  | .shutdown | .peerClose => none

/-- A channel and its pipe. -/
structure Line where
  channel : Channel := {}
  /-- The peer's end of the pipe is open. -/
  peerOpen : Bool := true
  /-- A sender is inside and will not come out. -/
  held : Bool := false
  /-- The bytes that have gone into the pipe. -/
  accepted : Bytes := []
  /-- Those of them that the peer has read. -/
  received : Bytes := []
  /-- The sends in the order of the lock, and what came of them. -/
  sends : List (Message × Sent) := []

namespace Line

variable {l k : Line} {turns : List Turn}

/-- The pipe can answer so: it takes bytes as long as the peer's end is open and breaks when it is
not, and a wait for room is ended by a shutdown that has happened. -/
def Answers (l : Line) : Answer → Prop
  | .took _ => l.peerOpen = true
  | .broken => l.peerOpen = false
  | .shutDown => l.channel.shutDown = true
  | .room | .expired => True

/-- Every answer fits what has happened before it. -/
inductive Admits : Line → List Turn → Prop where
  | nil {l : Line} : Admits l []
  | answer {l : Line} {a : Answer} {turns : List Turn} :
      l.Answers a → Admits l turns → Admits l (.answer a :: turns)
  | shutdown {l : Line} {turns : List Turn} :
      Admits { l with channel := l.channel.shutdown } turns → Admits l (.shutdown :: turns)
  | peerClose {l : Line} {turns : List Turn} :
      Admits { l with peerOpen := false } turns → Admits l (.peerClose :: turns)

/-- One send from its beginning to its end, with what happens meanwhile. -/
def send (l : Line) (m : Message) (lock : Lock) (turns : List Turn) : Line :=
  let sending := l.channel.send m lock (turns.filterMap Turn.answer?)
  { channel := if .shutdown ∈ turns then sending.channel.shutdown else sending.channel
    peerOpen := l.peerOpen && decide (.peerClose ∉ turns)
    held := l.held || sending.result == .waiting
    accepted := l.accepted ++ sending.accepted
    received := l.received
    sends := l.sends ++ [(m, sending.result)] }

/-- The peer reads up to `n` bytes. -/
def peerRead (l : Line) (n : Nat) : Line :=
  { l with received := l.received ++ (l.accepted.drop l.received.length).take n }

/-- What may happen next. Only one sender is inside at a time, and nobody closes the write end while
one is. A start enters the read loop and leaves it later; for a sender it is the same whether the loop
is entered or left during a send or before it. -/
inductive Step (l : Line) : Line → Prop where
  | send (m : Message) (lock : Lock) (turns : List Turn) :
      (lock = .obtained → l.held = false) → l.Admits turns → Step l (l.send m lock turns)
  | peerRead (n : Nat) : Step l (l.peerRead n)
  | peerClose : Step l { l with peerOpen := false }
  | closeInput : l.held = false → Step l { l with channel := l.channel.closeInput }
  | shutdown : Step l { l with channel := l.channel.shutdown }
  | enter {entered : Channel} : l.channel.enter? = some entered →
      Step l { l with channel := entered }
  | leave : l.channel.running = true → Step l { l with channel := l.channel.leave }

abbrev Reaches : Line → Line → Prop := Relation.ReflTransGen Step

/-- It comes about from a fresh channel. -/
def Reachable (l : Line) : Prop := Reaches {} l

/-! ### Dead lines -/

/-- Nothing more goes into the pipe. -/
def Dead (l : Line) : Prop :=
  l.channel.shutDown = true ∨ l.channel.inputOpen = false ∨ l.peerOpen = false ∨ l.held = true

/-- An answer comes from the line as it was in the beginning or has become since. -/
theorem Admits.of_mem (h : l.Admits turns) {a : Answer} (ha : a ∈ turns.filterMap Turn.answer?) :
    ∃ d : Line, d.Answers a ∧ (d.peerOpen = true → l.peerOpen = true) ∧
      (d.peerOpen = false → l.peerOpen = false ∨ .peerClose ∈ turns) ∧
      (d.channel.shutDown = true → l.channel.shutDown = true ∨ .shutdown ∈ turns) := by
  induction h with
  | nil => exact absurd ha List.not_mem_nil
  | @answer l b turns hb _ ih =>
    rcases List.mem_cons.mp ha with rfl | ha
    · exact ⟨l, hb, id, .inl, .inl⟩
    · obtain ⟨d, hd, hopen, hclosed, hshut⟩ := ih ha
      exact ⟨d, hd, hopen, fun h => (hclosed h).imp_right (.tail _),
        fun h => (hshut h).imp_right (.tail _)⟩
  | shutdown _ ih =>
    obtain ⟨d, hd, hopen, hclosed, -⟩ := ih ha
    exact ⟨d, hd, hopen, fun h => (hclosed h).imp_right (.tail _), fun _ => .inr (.head _)⟩
  | peerClose _ ih =>
    obtain ⟨d, hd, hopen, -, hshut⟩ := ih ha
    exact ⟨d, hd, fun h => absurd (hopen h) Bool.false_ne_true, fun _ => .inr (.head _),
      fun h => (hshut h).imp_right (.tail _)⟩

section

variable {m : Message} {lock : Lock}

theorem send_shutDown (hs : l.channel.shutDown = true ∨ .shutdown ∈ turns) :
    (l.send m lock turns).channel.shutDown = true := by
  by_cases hturn : Turn.shutdown ∈ turns
  · simp only [send, if_pos hturn]
    rfl
  · simp only [send, if_neg hturn]
    have hs := hs.resolve_right hturn
    rcases send_channel l.channel m lock (turns.filterMap Turn.answer?) with h | h <;> rw [h]
    · exact hs
    · exact hs

theorem send_inputOpen
    (ho : (l.channel.send m lock (turns.filterMap Turn.answer?)).channel.inputOpen = false) :
    (l.send m lock turns).channel.inputOpen = false := by
  unfold send
  dsimp only
  split
  · exact ho
  · exact ho

theorem send_peerOpen (hp : l.peerOpen = false ∨ .peerClose ∈ turns) :
    (l.send m lock turns).peerOpen = false := by
  rcases hp with hp | hp <;> simp [send, hp]

theorem Dead.enter {entered : Channel} (h : l.Dead) (he : l.channel.enter? = some entered) :
    Dead { l with channel := entered } := by
  obtain ⟨hs, rfl⟩ := enter?_eq_some he
  rcases h with h | h | h | h
  · cases hs.symm.trans h
  · exact .inr (.inl h)
  · exact .inr (.inr (.inl h))
  · exact .inr (.inr (.inr h))

theorem Dead.send (h : l.Dead) : (l.send m lock turns).Dead := by
  rcases h with h | h | h | h
  · exact .inl (send_shutDown (.inl h))
  · refine .inr (.inl (send_inputOpen ?_))
    rcases send_channel l.channel m lock (turns.filterMap Turn.answer?) with hc | hc <;> rw [hc]
    · exact h
    · rfl
  · exact .inr (.inr (.inl (send_peerOpen (.inl h))))
  · exact .inr (.inr (.inr (by simp [Line.send, h])))

/-- A send that writes at all finds the line alive. It writes its whole frame, or the line is dead
after it. -/
theorem send_spec (hlock : lock = .obtained → l.held = false) (h : l.Admits turns) :
    let sending := l.channel.send m lock (turns.filterMap Turn.answer?)
    (sending.result = .done ∧ ¬ l.Dead ∧
        ∃ body, m.body? = some body ∧ sending.accepted = Frame.encode body) ∨
      (sending.result ≠ .done ∧ (sending.accepted = [] ∨
        (¬ l.Dead ∧ (l.send m lock turns).Dead ∧ ∃ body, m.body? = some body ∧
          sending.accepted <+: Frame.encode body ∧ sending.accepted ≠ Frame.encode body))) := by
  intro sending
  rcases send_cases l.channel m lock (turns.filterMap Turn.answer?) with
    ⟨e, heq⟩ | ⟨hl, hs, ho, body, written, cut, hb, hw, heq⟩
  · have hsending : sending = ⟨l.channel, [], .failed e⟩ := heq
    rw [hsending]
    exact .inr ⟨nofun, .inl rfl⟩
  · have haccepted : sending.accepted = written := congrArg Sending.accepted heq
    have hresult : sending.result = (l.channel.settleCut written cut).2 :=
      congrArg Sending.result heq
    have halive (hne : written ≠ []) : ¬ l.Dead := by
      obtain ⟨n, hn⟩ := hw.took hne
      obtain ⟨d, hd, hopen, -⟩ := h.of_mem hn
      simp [Dead, hs, ho, hopen hd, hlock hl]
    rw [haccepted, hresult]
    rcases settleCut_cases (c := l.channel) hw with ⟨rfl, hsettle⟩ | ⟨hne, hnot, hreason⟩
    · rw [hsettle]
      exact .inl ⟨rfl, halive (encode_ne_nil body), body, hb, rfl⟩
    · refine .inr ⟨hnot, ?_⟩
      by_cases hwritten : written = []
      · exact .inl hwritten
      · refine .inr ⟨halive hwritten, ?_, body, hb, hw.sub, hne⟩
        -- Each reason for the cut is one of the ways in which a line is dead.
        rcases hreason with hnil | ha | ha | hclosed | hwaiting
        · exact absurd hnil hwritten
        · obtain ⟨d, hd, -, -, hshut⟩ := h.of_mem ha
          exact .inl (send_shutDown (hshut hd))
        · obtain ⟨d, hd, -, hclosed, -⟩ := h.of_mem ha
          exact .inr (.inr (.inl (send_peerOpen (hclosed hd))))
        · refine .inr (.inl (send_inputOpen ?_))
          rw [heq]
          exact hclosed
        · refine .inr (.inr (.inr ?_))
          have hwait : sending.result = .waiting := hresult.trans hwaiting
          simp [Line.send, show (l.channel.send m lock _).result = .waiting from hwait]

end

/-- A dead line stays dead, and nothing goes into its pipe. -/
theorem Dead.step (h : l.Dead) (hstep : Step l k) : k.Dead ∧ k.accepted = l.accepted := by
  cases hstep with
  | send m lock turns hlock hadmits =>
    refine ⟨h.send, ?_⟩
    rcases send_spec (m := m) hlock hadmits with ⟨-, hnot, -⟩ | ⟨-, hnil | ⟨hnot, -⟩⟩
    · exact absurd h hnot
    · rw [Line.send, hnil]
      exact List.append_nil _
    · exact absurd h hnot
  | peerRead n => exact ⟨h, rfl⟩
  | peerClose => exact ⟨.inr (.inr (.inl rfl)), rfl⟩
  | closeInput => exact ⟨.inr (.inl rfl), rfl⟩
  | shutdown => exact ⟨.inl rfl, rfl⟩
  | enter he => exact ⟨h.enter he, rfl⟩
  | leave => exact ⟨h, rfl⟩

theorem Dead.reaches (h : l.Dead) (hreaches : Reaches l k) : k.accepted = l.accepted := by
  suffices k.Dead ∧ k.accepted = l.accepted from this.2
  induction hreaches with
  | refl => exact ⟨h, rfl⟩
  | tail _ hstep ih =>
    obtain ⟨hdead, heq⟩ := ih.1.step hstep
    exact ⟨hdead, heq.trans ih.2⟩

/-! ### The stream -/

/-- A part of a frame whose send did not go well: it failed, or the sender is inside for good. -/
def CutShort (l : Line) (part : Bytes) : Prop :=
  ∃ m result body, (m, result) ∈ l.sends ∧ m.body? = some body ∧
    part <+: Frame.encode body ∧ part ≠ Frame.encode body ∧
    ((∃ e, result = .failed e) ∨ (result = .waiting ∧ l.held = true))

theorem CutShort.step {part : Bytes} (h : l.CutShort part) (hstep : Step l k) : k.CutShort part := by
  obtain ⟨m, result, body, hm, hb, hsub, hne, hresult⟩ := h
  refine ⟨m, result, body, ?_, hb, hsub, hne, hresult.imp_right fun hw => ⟨hw.1, ?_⟩⟩
  · cases hstep with
    | send => exact List.mem_append_left _ hm
    | peerRead | peerClose | closeInput | shutdown | enter | leave => exact hm
  · cases hstep with
    | send => simp [send, hw.2]
    | peerRead | peerClose | closeInput | shutdown | enter | leave => exact hw.2

theorem cutShort_send {m : Message} {lock : Lock} {body : Bytes}
    (hresult : (l.channel.send m lock (turns.filterMap Turn.answer?)).result ≠ .done)
    (hb : m.body? = some body)
    (hsub : (l.channel.send m lock (turns.filterMap Turn.answer?)).accepted <+: Frame.encode body)
    (hne : (l.channel.send m lock (turns.filterMap Turn.answer?)).accepted ≠ Frame.encode body) :
    (l.send m lock turns).CutShort
      (l.channel.send m lock (turns.filterMap Turn.answer?)).accepted := by
  refine ⟨m, _, body, List.mem_append_right _ (List.mem_singleton.mpr rfl), hb, hsub, hne, ?_⟩
  cases hcases : (l.channel.send m lock (turns.filterMap Turn.answer?)).result with
  | done => exact absurd hcases hresult
  | failed e => exact .inl ⟨e, rfl⟩
  | waiting => exact .inr ⟨rfl, by simp [send, hcases]⟩

/-- The pipe holds the frames of the sends that went well, and behind them at most a part of another,
after which the line is dead. -/
structure Streams (l : Line) (bodies : List Bytes) (part : Bytes) : Prop where
  done : (l.sends.filter (·.2 = .done)).map (·.1.body?) = bodies.map some
  accepted : l.accepted = (bodies.map Frame.encode).flatten ++ part
  received : l.received <+: l.accepted
  part : part ≠ [] → l.Dead ∧ l.CutShort part

theorem Streams.init : Streams {} [] [] where
  done := rfl
  accepted := rfl
  received := List.prefix_rfl
  part h := absurd rfl h

/-- A step that sends nothing. -/
theorem Streams.quiet {bodies : List Bytes} {part : Bytes} (h : Streams l bodies part)
    (hstep : Step l k) (hsends : k.sends = l.sends) (haccepted : k.accepted = l.accepted)
    (hreceived : k.received <+: k.accepted) : Streams k bodies part where
  done := hsends ▸ h.done
  accepted := haccepted ▸ h.accepted
  received := hreceived
  part hpart := ⟨((h.part hpart).1.step hstep).1, (h.part hpart).2.step hstep⟩

theorem peerRead_received (h : l.received <+: l.accepted) (n : Nat) :
    (l.peerRead n).received <+: l.accepted := by
  obtain ⟨rest, hrest⟩ := h
  rw [peerRead, ← hrest, List.drop_left]
  exact (List.prefix_append_right_inj _).mpr (List.take_prefix n rest)

theorem Streams.send {bodies : List Bytes} {part : Bytes} (h : Streams l bodies part)
    {m : Message} {lock : Lock} (hlock : lock = .obtained → l.held = false)
    (hadmits : l.Admits turns) :
    ∃ bodies' part', Streams (l.send m lock turns) bodies' part' := by
  have hstep : Step l (l.send m lock turns) := .send m lock turns hlock hadmits
  have hreceived : l.received <+: (l.send m lock turns).accepted :=
    h.received.trans (List.prefix_append ..)
  have hpart (halive : ¬ l.Dead) : part = [] :=
    Decidable.byContradiction fun hne => halive (h.part hne).1
  rcases send_spec (m := m) hlock hadmits with
    ⟨hdone, halive, body, hb, heq⟩ | ⟨hresult, heq | ⟨halive, hdead, body, hb, hsub, hne⟩⟩
  · refine ⟨bodies ++ [body], [], ⟨?_, ?_, hreceived, fun hne => absurd rfl hne⟩⟩
    · simp [Line.send, hdone, h.done, hb]
    · simp [Line.send, heq, h.accepted, hpart halive]
  · refine ⟨bodies, part, ⟨?_, ?_, hreceived, fun hne => ?_⟩⟩
    · simp [Line.send, hresult, h.done]
    · simp [Line.send, heq, h.accepted]
    · exact ⟨((h.part hne).1.step hstep).1, (h.part hne).2.step hstep⟩
  · refine ⟨bodies, _, ⟨?_, ?_, hreceived, fun _ => ⟨hdead, cutShort_send hresult hb hsub hne⟩⟩⟩
    · simp [Line.send, hresult, h.done]
    · simp [Line.send, h.accepted, hpart halive]

theorem Streams.step {bodies : List Bytes} {part : Bytes} (h : Streams l bodies part)
    (hstep : Step l k) : ∃ bodies' part', Streams k bodies' part' := by
  cases hstep with
  | send m lock turns hlock hadmits => exact h.send hlock hadmits
  | peerRead n => exact ⟨_, _, h.quiet (.peerRead n) rfl rfl (peerRead_received h.received n)⟩
  | peerClose => exact ⟨_, _, h.quiet .peerClose rfl rfl h.received⟩
  | closeInput hheld => exact ⟨_, _, h.quiet (.closeInput hheld) rfl rfl h.received⟩
  | shutdown => exact ⟨_, _, h.quiet .shutdown rfl rfl h.received⟩
  | enter he => exact ⟨_, _, h.quiet (.enter he) rfl rfl h.received⟩
  | leave hr => exact ⟨_, _, h.quiet (.leave hr) rfl rfl h.received⟩

theorem Reachable.streams (h : Reachable l) : ∃ bodies part, Streams l bodies part := by
  induction h with
  | refl => exact ⟨[], [], .init⟩
  | tail _ hstep ih =>
    obtain ⟨bodies, part, hstreams⟩ := ih
    exact hstreams.step hstep

/-- The pipe holds the frames of exactly the sends that went well, in order, and behind them at most a
part of the frame of one send that did not; after such a part nothing more is ever written. The peer
reads what the pipe holds. -/
def Intact (l : Line) : Prop :=
  ∃ (bodies : List Bytes) (part : Bytes),
    (l.sends.filter (·.2 = .done)).map (·.1.body?) = bodies.map some ∧
      l.accepted = (bodies.map Frame.encode).flatten ++ part ∧
      l.received <+: l.accepted ∧
      (part = [] ∨ l.CutShort part ∧ ∀ k, Reaches l k → k.accepted = l.accepted)

/-- Whatever is sent, however the pipe takes it and whatever else happens, the stream is intact. -/
theorem intact_of_reachable (h : Reachable l) : l.Intact := by
  obtain ⟨bodies, part, hstreams⟩ := h.streams
  refine ⟨bodies, part, hstreams.done, hstreams.accepted, hstreams.received, ?_⟩
  by_cases hpart : part = []
  · exact .inl hpart
  · obtain ⟨hdead, hcut⟩ := hstreams.part hpart
    exact .inr ⟨hcut, fun k hk => hdead.reaches hk⟩

/-- A notification is taken in two pieces, and of a second one only three bytes go in before the
channel is shut down. -/
def cutLine : Line :=
  (({} : Line).send (.notification { method := bytes "a", params := none }) .obtained
      [.answer (.took 10), .answer .room, .answer (.took 100)]).send
    (.notification { method := bytes "b", params := none }) .obtained
      [.answer (.took 3), .shutdown, .answer .shutDown]

theorem cutLine_reachable : Reachable cutLine := by
  refine .tail (.single (.send _ _ _ (fun _ => rfl) ?_)) (.send _ _ _ (fun _ => by decide) ?_)
  · exact .answer rfl (.answer trivial (.answer rfl .nil))
  · exact .answer rfl (.shutdown (.answer rfl .nil))

theorem intact_cutLine : Reachable cutLine ∧ cutLine.Intact :=
  ⟨cutLine_reachable, intact_of_reachable cutLine_reachable⟩

end Line

/-! ### The parts of a duplex -/

theorem readerOpen_accept (p : Pipe) (n : Nat) : (p.accept n).2.readerOpen = p.readerOpen := by
  unfold Pipe.accept
  cases p.pages with
  | nil => rfl
  | cons newest older =>
    dsimp only
    split <;> rfl

variable {l : Line} {whenFull : List Answer}

/-- A start is steps of a line that send nothing, whatever is read and whatever the host does in its
callbacks. -/
theorem start_reaches (l : Line) (host : Host) (input : List Arrival) :
    Line.Reaches l { l with channel := (l.channel.start host input).1 } := by
  unfold start
  cases he : l.channel.enter? with
  | none => exact .refl
  | some entered =>
    have hr : entered.running = true := by
      obtain ⟨-, rfl⟩ := enter?_eq_some he
      rfl
    have hinside : Line.Reaches l { l with channel := entered } := .single (.enter he)
    have hrun := @Loop.sameOrShut_run host { channel := entered } hr input
    have hleave {c : Channel} (hc : c.running = true) :
        Line.Step { l with channel := c } { l with channel := c.leave } := .leave hc
    rcases hrun with heq | heq
    · dsimp only
      rw [heq]
      exact hinside.tail (hleave hr)
    · dsimp only
      rw [heq]
      exact (hinside.tail .shutdown).tail (hleave hr)

/-- A pipe gives answers that a line admits. -/
theorem admits_answers (hw : l.Admits (whenFull.map .answer)) (p : Pipe) (n : Nat)
    (hp : l.peerOpen = p.readerOpen) : l.Admits ((p.answers n whenFull).map .answer) := by
  fun_induction Pipe.answers p n whenFull with
  | case1 p n hr =>
    have hclosed : p.readerOpen = false := by simpa using hr
    exact .answer (hp.trans hclosed) .nil
  | case2 p hr => exact .nil
  | case3 => exact hw
  | case4 p n hr hn taken full heq ht ih =>
    have hopen : p.readerOpen = true := by simpa using hr
    have hfull : full.readerOpen = p.readerOpen := by
      have h := readerOpen_accept p n
      rwa [heq] at h
    exact .answer (hp.trans hopen) (ih (hp.trans hfull.symm))

/-- Sending over a duplex is a step of a line. -/
theorem sendWith_step {d : Duplex} (hc : l.channel = d.channel)
    (hp : l.peerOpen = d.outgoing.readerOpen) (hheld : l.held = false)
    (hw : l.Admits (whenFull.map .answer)) (m : Message) (lock : Lock) :
    ∃ k, Line.Step l k ∧ k.channel = (d.sendWith m lock whenFull).1.channel ∧
      k.sends = l.sends ++ [(m, (d.sendWith m lock whenFull).2)] := by
  have hadmits := admits_answers hw d.outgoing ((d.channel.frame? m).toOption.getD []).length hp
  refine ⟨_, .send m lock _ (fun _ => hheld) hadmits, ?_⟩
  simp [Line.send, Duplex.sendWith, Turn.answer?, List.filterMap_map, Function.comp_def, hc]

end LanguageClient.Channel
