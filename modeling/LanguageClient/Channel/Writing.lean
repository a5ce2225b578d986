import LanguageClient.Channel

/-!
Sending: the frame of a message is written under a lock, in as many pieces as the pipe takes.

What the pipe does is given from outside as a list of answers, so that every way of taking a frame
in parts is covered. A deadline that passes before the first byte leaves the channel as it was;
one that passes later closes the write end, because nothing after half a frame could be
understood.
-/

namespace LanguageClient

/-- Why a message was not sent. -/
inductive SendError where
  /-- A string in it is not valid UTF-8. -/
  | unwritable
  | transport (e : TransportError)
  | timeout (e : TimeoutError)
  deriving DecidableEq

namespace Channel

/-- What one attempt to write meets. -/
inductive Answer where
  /-- The pipe takes up to `n` bytes. -/
  | took (n : Nat)
  /-- The pipe is full, and then there is room. -/
  | room
  /-- The pipe is full, and then the channel is shut down. -/
  | shutDown
  /-- The pipe is full, and then the deadline passes. -/
  | expired
  /-- Nobody reads the pipe. -/
  | broken
  deriving DecidableEq

/-- Why writing ended before the end of the frame. -/
inductive Cut where
  | shutDown
  | expired
  | broken
  /-- There is no answer yet. -/
  | blocked
  deriving DecidableEq

/-- How far a frame was written. -/
structure Written where
  /-- What the pipe has taken, in order. -/
  accepted : Bytes
  /-- Nothing if all of the frame is written. -/
  cut : Option Cut
  deriving DecidableEq

/-- Writes what is left of a frame after `accepted`. -/
def write (accepted left : Bytes) (answers : List Answer) : Written :=
  if left.isEmpty then ⟨accepted, none⟩
  else
    match answers with
    | [] => ⟨accepted, some .blocked⟩
    | .took n :: rest => write (accepted ++ left.take n) (left.drop n) rest
    | .room :: rest => write accepted left rest
    | .shutDown :: _ => ⟨accepted, some .shutDown⟩
    | .expired :: _ => ⟨accepted, some .expired⟩
    | .broken :: _ => ⟨accepted, some .broken⟩

/-- How sending ended. -/
inductive Sent where
  | done
  | failed (e : SendError)
  /-- It is still waiting for room. -/
  | waiting
  deriving DecidableEq

/-- The effect of sending. -/
structure Sending where
  channel : Channel
  /-- The bytes that went into the pipe. -/
  accepted : Bytes
  result : Sent

/-- Before the lock: the frame of a message, unless the channel is shut down. -/
def frame? (c : Channel) (m : Message) : Except SendError Bytes :=
  if c.shutDown then .error (.transport .shutDown)
  else
    match m.body? with
    | none => .error .unwritable
    | some body => .ok (Frame.encode body)

/-- What a cut means for the channel and for the sender. -/
def settleCut (c : Channel) (accepted : Bytes) : Option Cut → Channel × Sent
  | none => (c, .done)
  | some .blocked => (c, .waiting)
  | some .broken => (c, .failed (.transport .brokenPipe))
  | some .shutDown => (c, .failed (.transport .shutDown))
  | some .expired =>
    if accepted.isEmpty then (c, .failed (.timeout .nothingWritten))
    else (c.closeInput, .failed (.timeout .partlyWritten))

/-- Under the lock: writes a frame. The channel may have been shut down while the lock was
awaited. -/
def writeFrame (c : Channel) (frame : Bytes) (answers : List Answer) : Sending :=
  if c.shutDown then ⟨c, [], .failed (.transport .shutDown)⟩
  else if !c.inputOpen then ⟨c, [], .failed (.transport .inputClosed)⟩
  else
    let written := write [] frame answers
    let (channel, result) := c.settleCut written.accepted written.cut
    ⟨channel, written.accepted, result⟩

/-- What came of waiting for the lock. -/
inductive Lock where
  | obtained
  /-- The deadline passed while another writer held it. -/
  | expired
  deriving DecidableEq

/-- Sends a message. -/
def send (c : Channel) (m : Message) (lock : Lock) (answers : List Answer) : Sending :=
  match c.frame? m with
  | .error e => ⟨c, [], .failed e⟩
  | .ok frame =>
    match lock with
    | .expired => ⟨c, [], .failed (.timeout .lockHeld)⟩
    | .obtained => c.writeFrame frame answers

end Channel

end LanguageClient
