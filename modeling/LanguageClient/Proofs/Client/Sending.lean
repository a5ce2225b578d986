import LanguageClient.Proofs.Client.Lifecycle

/-!
# Operations whose sending has effects

A client asks its transport what becomes of a message. Here it does so in any monad, so that each
question may leave a trace: `performIn` is `perform` with the question asked where a message is
handed over. Without effects the two are the same (`performIn_pure`), and whatever the effects are,
an operation asks about its outgoing message, once, and about nothing else (`performIn_of_running`,
`performIn_of_not_running`).
-/

namespace LanguageClient

/-- The message of an operation. A request has the given id. -/
def Operation.message (id : Int64) : Operation → Message
  | .request method params => .request { id := .int id, method, params := some params }
  | .notification method params => .notification { method, params := some params }

namespace Client

variable {μ : Type → Type}

section

variable [Monad μ]

def handOverIn (c : Client) (m : Message) (send : Message → μ Exchange) :
    μ (Client × Option Failure) := do
  let exchange ← send m
  return c.handOver m fun _ => exchange

def issueIn (c : Client) (method : Bytes) (params : Json) (send : Message → μ Exchange) :
    μ (Client × Except Failure Int64) :=
  match c.calls.register with
  | .error phase => return (c, .error (.notRunning (.cannotSend phase method)))
  | .ok (id, calls) => do
    let c := { c with calls }.note (.sendingRequest method (.int id))
    let request := Message.request { id := .int id, method, params := some params }
    let sent ← c.handOverIn request send
    return match sent with
      | (c, none) => (c, .ok id)
      | (c, some failure) => (c.withdraw method (.int id) failure, .error failure)

def callIn (c : Client) (method : Bytes) (params : Json) (send : Message → μ Exchange)
    (later : List Happening) : μ (Client × Except Failure Json) := do
  let issued ← c.issueIn method params send
  return match issued with
    | (c, .error failure) => (c, .error failure)
    | (c, .ok id) => (later.foldl react c).conclude method id

def notifyIn (c : Client) (method : Bytes) (params : Json) (send : Message → μ Exchange) :
    μ (Client × Except Failure Unit) :=
  if c.isRunning then do
    let c := c.note (.sendingNotification method)
    let sent ← c.handOverIn (.notification { method, params := some params }) send
    return match sent with
      | (c, none) => (c, .ok ())
      | (c, some failure) => (c, .error failure)
  else return (c, .error (.notRunning (.cannotSend c.phase method)))

def performIn (c : Client) (op : Operation) (send : Message → μ Exchange)
    (later : List Happening) : μ (Client × Except Failure (Option Json)) :=
  match op with
  | .request method params => do
    let (c, result) ← c.callIn method params send later
    return (c, result.map some)
  | .notification method params => do
    let (c, result) ← c.notifyIn method params send
    return (later.foldl react c, result.map fun _ => none)

end

variable {c : Client}

theorem outgoing?_of_running (hr : c.phase = .running) (op : Operation) :
    c.outgoing? op = some (op.message c.calls.nextId) := by
  cases op <;> simp [outgoing?, isRunning_of_running hr, Operation.message]

variable [Monad μ] [LawfulMonad μ]

theorem handOverIn_eq (c : Client) (m : Message) (send : Message → μ Exchange) :
    c.handOverIn m send = (fun x => c.handOver m fun _ => x) <$> send m :=
  (map_eq_pure_bind _ _).symm

theorem issueIn_of_running (hr : c.phase = .running) (method : Bytes) (params : Json)
    (send : Message → μ Exchange) :
    c.issueIn method params send =
      (fun x => c.issue method params fun _ => x) <$> send (c.requestFor method params) := by
  have hissue := funext fun x => issue_of_running hr method params fun _ => x
  rw [hissue, issueIn, Calls.register_of_running hr]
  dsimp only
  rw [handOverIn_eq, bind_map_left]
  exact (map_eq_pure_bind _ _).symm

theorem callIn_of_running (hr : c.phase = .running) (method : Bytes) (params : Json)
    (send : Message → μ Exchange) (later : List Happening) :
    c.callIn method params send later =
      (fun x => c.call method params (fun _ => x) later) <$> send (c.requestFor method params) := by
  rw [callIn, issueIn_of_running hr, bind_map_left]
  exact (map_eq_pure_bind _ _).symm

theorem notifyIn_of_running (hr : c.phase = .running) (method : Bytes) (params : Json)
    (send : Message → μ Exchange) :
    c.notifyIn method params send =
      (fun x => c.notify method params fun _ => x) <$>
        send (.notification { method, params := some params }) := by
  have hrun := isRunning_of_running hr
  rw [notifyIn, if_pos hrun]
  dsimp only
  rw [handOverIn_eq, bind_map_left]
  simp only [notify, hrun, if_true]
  exact (map_eq_pure_bind _ _).symm

/-- An operation of a running client sends its message and nothing else, once. -/
theorem performIn_of_running (hr : c.phase = .running) (op : Operation)
    (send : Message → μ Exchange) (later : List Happening) :
    c.performIn op send later =
      (fun x => c.perform op (fun _ => x) later) <$> send (op.message c.calls.nextId) := by
  cases op with
  | request method params =>
    rw [performIn, callIn_of_running hr, bind_map_left]
    exact (map_eq_pure_bind _ _).symm
  | notification method params =>
    rw [performIn, notifyIn_of_running hr, bind_map_left]
    exact (map_eq_pure_bind _ _).symm

/-- An operation of a client that does not run leaves no trace. -/
theorem performIn_of_not_running (hr : c.phase ≠ .running) (op : Operation)
    (send : Message → μ Exchange) (transport : Transport) (later : List Happening) :
    c.performIn op send later = pure (c.perform op transport later) := by
  cases op with
  | request method params =>
    simp only [performIn, callIn, issueIn, Calls.register_of_not_running hr, pure_bind, perform,
      call_of_not_running hr]
    rfl
  | notification method params =>
    have hnot : c.isRunning = false := by simp [isRunning, hr]
    simp only [performIn, notifyIn, hnot, Bool.false_eq_true, if_false, pure_bind, perform,
      notify_of_not_running hr]

/-- Without effects it is the operation itself. -/
theorem performIn_pure (op : Operation) (transport : Transport) (later : List Happening) :
    c.performIn op (fun m => (pure (transport m) : μ Exchange)) later =
      pure (c.perform op transport later) := by
  by_cases hr : c.phase = .running
  · rw [performIn_of_running hr, map_pure]
    refine congrArg pure (perform_congr (fun m hm => ?_) later)
    cases (outgoing?_of_running hr op).symm.trans hm
    rfl
  · exact performIn_of_not_running hr op _ transport later

end Client

end LanguageClient
