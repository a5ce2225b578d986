import LanguageClient.Message

/-!
The messages that a server sent on its own account and the host has not yet taken.

The inbox is first in, first out, and holds a bounded number. When it is full, a further message
takes the place of the oldest one, and the loss is counted.
-/

namespace LanguageClient

structure Inbox where
  capacity : Nat
  items : List Message := []
  /-- How many messages were lost. -/
  dropped : Nat := 0

namespace Inbox

/-- The capacity when none is asked for. -/
def defaultCapacity : Nat := 100

/-- An empty inbox; a capacity of zero acts as one. -/
def ofCapacity (capacity : Nat) : Inbox := { capacity := max 1 capacity }

def size (q : Inbox) : Nat := q.items.length

def isFull (q : Inbox) : Bool := q.capacity ≤ q.size

/-- Adds a message. The answer is false if the oldest one was lost for it. -/
def push (q : Inbox) (m : Message) : Inbox × Bool :=
  if q.isFull then
    ({ q with items := q.items.tail ++ [m], dropped := q.dropped + 1 }, false)
  else ({ q with items := q.items ++ [m] }, true)

/-- Takes the oldest message. -/
def pop (q : Inbox) : Inbox × Option Message := ({ q with items := q.items.tail }, q.items.head?)

/-- Adds messages, in order. -/
def pushAll (q : Inbox) (ms : List Message) : Inbox := ms.foldl (fun q m => (q.push m).1) q

/-- Takes the oldest message, and waits for one if there is none. `sleeps` are the messages that are
added in each sleep between two looks at the inbox; the last look is at the end of the time. -/
def popFor (q : Inbox) : List (List Message) → Inbox × Option Message
  | [] => q.pop
  | added :: sleeps => if q.items.isEmpty then (q.pushAll added).popFor sleeps else q.pop

end Inbox

end LanguageClient
