import LanguageClient.Failure

/-!
A channel to a server: one pipe that is read and one that is written.

Three flags say how far reading is (`running`, `connected`, `shutDown`), and one whether the write
end is still open. Shutting down is for good; it ends reading and every write that is waiting for
room.
-/

namespace LanguageClient

structure Channel where
  /-- The read loop is inside. -/
  running : Bool := false
  /-- The read loop is inside and the channel is not shut down. -/
  connected : Bool := false
  shutDown : Bool := false
  /-- The write end is open. -/
  inputOpen : Bool := true
  deriving DecidableEq

namespace Channel

/-- Enters the read loop. Nobody enters after a shutdown, nor while it is running. -/
def enter? (c : Channel) : Option Channel :=
  if c.shutDown || c.running then none else some { c with running := true, connected := true }

theorem enter?_eq_some {c entered : Channel} (h : c.enter? = some entered) :
    c.shutDown = false ∧ entered = { c with running := true, connected := true } := by
  unfold enter? at h
  split at h
  · simp at h
  · simp_all

/-- Leaves the read loop. -/
def leave (c : Channel) : Channel := { c with running := false, connected := false }

def shutdown (c : Channel) : Channel := { c with shutDown := true, connected := false }

/-- Closes the write end. -/
def closeInput (c : Channel) : Channel := { c with inputOpen := false }

end Channel

end LanguageClient
