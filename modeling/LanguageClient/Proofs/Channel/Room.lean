import LanguageClient.Proofs.Channel.Outgoing

/-!
# Sending into a pipe with room

If the channel is open and the pipe takes enough, in pieces of any size and with any waits between
them, a message is sent: its frame goes into the pipe and nothing else changes (`Line.send_works`).
-/

namespace LanguageClient.Channel

/-- The pipe takes something, or there is room again after a wait. -/
def Answer.IsTaking : Answer → Prop
  | .took _ | .room => True
  | .shutDown | .expired | .broken => False

/-- How many bytes the pipe takes in all. -/
def room : List Answer → Nat
  | [] => 0
  | .took n :: rest => n + room rest
  | _ :: rest => room rest

theorem write_of_room {left : Bytes} {answers : List Answer} (h : ∀ a ∈ answers, a.IsTaking)
    (hroom : left.length ≤ room answers) (accepted : Bytes) :
    write accepted left answers = ⟨accepted ++ left, none⟩ := by
  induction answers generalizing accepted left with
  | nil =>
    obtain rfl : left = [] := List.length_eq_zero_iff.mp (Nat.le_zero.mp hroom)
    rw [write_nil, List.append_nil]
  | cons a answers ih =>
    obtain ⟨ha, hanswers⟩ := List.forall_mem_cons.mp h
    cases left with
    | nil => rw [write_nil, List.append_nil]
    | cons b left =>
      cases a with
      | took n =>
        have hrest : ((b :: left).drop n).length ≤ room answers := by
          rw [List.length_drop]
          exact Nat.sub_le_iff_le_add'.mpr hroom
        rw [write, ih hanswers hrest]
        simp
      | room =>
        rw [write, ih hanswers hroom]
        simp
      | shutDown | expired | broken => exact ha.elim

namespace Line

/-- A message with a frame of this size can be sent: the channel is open, and the pipe takes as
much. -/
structure Works (l : Line) (turns : List Turn) (size : Nat) : Prop where
  notShutDown : l.channel.shutDown = false
  inputOpen : l.channel.inputOpen = true
  taking : ∀ t ∈ turns, ∃ a, t = .answer a ∧ a.IsTaking
  room : size ≤ room (turns.filterMap Turn.answer?)

variable {l : Line} {turns : List Turn}

theorem send_works {m : Message} {body : Bytes} (hm : m.body? = some body)
    (h : l.Works turns (Frame.encode body).length) :
    l.send m .obtained turns =
      { l with
        accepted := l.accepted ++ Frame.encode body
        sends := l.sends ++ [(m, .done)] } := by
  have hanswers : ∀ a ∈ turns.filterMap Turn.answer?, a.IsTaking := by
    intro a ha
    obtain ⟨t, ht, hta⟩ := List.mem_filterMap.mp ha
    obtain ⟨a', rfl, ha'⟩ := h.taking t ht
    cases hta
    exact ha'
  have hsend : l.channel.send m .obtained (turns.filterMap Turn.answer?) =
      ⟨l.channel, Frame.encode body, .done⟩ := by
    simp [Channel.send, frame?, writeFrame, h.notShutDown, h.inputOpen, hm,
      write_of_room hanswers h.room, settleCut]
  have hshutdown : Turn.shutdown ∉ turns := fun ht => by
    obtain ⟨a, ha, -⟩ := h.taking _ ht
    cases ha
  have hclose : Turn.peerClose ∉ turns := fun ht => by
    obtain ⟨a, ha, -⟩ := h.taking _ ht
    cases ha
  simp [Line.send, hsend, hshutdown, hclose]

end Line

end LanguageClient.Channel
