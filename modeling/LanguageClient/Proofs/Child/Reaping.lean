import LanguageClient.Child

/-!
# A child is reaped once

The requests that a child's operations make are carried out by a `System`, which keeps the processes
that were launched until their status is taken, and records what it had of a process when a request
for it came. A child that ends is reaped once, with the status with which it ended, and no request
is made after that, so that no signal ever reaches a process of somebody else which has got its
number (`reapedOnce_after`).

A child with its system is at one of four stages (`Stage`), and an event leads from stage to stage
with requests of its own (`Stage.step_world`). What such a step can do is `Stage.Step`, from which
the account of all requests follows (`Accounted`).
-/

namespace LanguageClient.Child

/-- The number of a process. -/
abbrev Pid := Nat

/-- What the system keeps of a process that was launched and not yet reaped. -/
inductive Life where
  | running
  | ended (status : ExitStatus)
  deriving DecidableEq

/-- A request that was carried out, and what the system had of its process when it came. -/
structure Served where
  request : Request
  pid : Option Pid
  found : Option Life
  deriving DecidableEq

@[ext] structure System where
  /-- The processes that were launched and not yet reaped. Under another number there is none, or a
  process of somebody else. -/
  processes : Pid → Option Life := fun _ => none
  served : List Served := []

namespace System

/-- What becomes of a process by a request. A process is `born` when it is launched; one that has
ended is kept until it is waited for. -/
def effect (born : Life) : Request → Option Life → Option Life
  | .launch, _ => some born
  | .kill, some .running => some (.ended (.signaled killSignal))
  | .kill, found => found
  | .wait, some (.ended _) => none
  | .wait, found => found

/-- Carries out a request for a process. -/
def serve (born : Life) (pid : Option Pid) (s : System) (r : Request) : System where
  processes p := if pid = some p then effect born r (s.processes p) else s.processes p
  served := s.served ++ [⟨r, pid, pid.bind s.processes⟩]

/-- A system with one process at most. -/
def holding (pid : Pid) (life : Option Life) (log : List Served) : System where
  processes p := if p = pid then life else none
  served := log

theorem holding_none (pid : Pid) (log : List Served) :
    holding pid none log = { served := log } := by
  simp [holding]

theorem processes_holding (pid : Pid) (life : Option Life) (log : List Served) :
    (holding pid life log).processes pid = life := if_pos rfl

theorem serve_holding (born : Life) (pid : Pid) (life : Option Life) (log : List Served)
    (r : Request) :
    serve born (some pid) (holding pid life log) r =
      holding pid (effect born r life) (log ++ [⟨r, some pid, life⟩]) := by
  refine System.ext (funext fun p => ?_) ?_
  · by_cases hp : p = pid
    · simp [serve, holding, hp]
    · simp [serve, holding, hp, Ne.symm hp]
  · simp [serve, holding]

/-- A system without processes holds none under the number of the next one. -/
theorem serve_empty (born : Life) (pid : Pid) (log : List Served) (r : Request) :
    serve born (some pid) { served := log } r =
      holding pid (effect born r none) (log ++ [⟨r, some pid, none⟩]) := by
  rw [← holding_none pid, serve_holding]

end System

/-- How a process is born: one for which there is no program to run ends at once. -/
def born : Except LaunchError Unit → Life
  | .ok () => .running
  | .error _ => .ended (.exited 127)

/-- A child with the number that it was given, and its system. -/
structure World where
  child : Child := {}
  pid : Option Pid := none
  system : System := {}

namespace World

/-- The status of the child if it has ended by itself. -/
def ended (w : World) : Option ExitStatus :=
  match w.pid.bind w.system.processes with
  | some (.ended status) => some status
  | _ => none

/-- Launches the child, for which the system uses the number `pid`. -/
def spawn (w : World) (command : Bytes) (launched : Except LaunchError Unit) (pid : Pid) :
    World × Except LaunchError Unit :=
  let (child, answer, requests) := w.child.spawn command launched
  ({ child
     pid := if answer.toOption.isSome then some pid else w.pid
     system := requests.foldl (System.serve (born launched) (some pid)) w.system }, answer)

/-- Carries out requests for the child. -/
def serve (w : World) (child : Child) (requests : List Request) : World :=
  { w with child, system := requests.foldl (System.serve .running w.pid) w.system }

def isRunning (w : World) : World × Bool :=
  let (child, answer, requests) := w.child.isRunning w.ended
  (w.serve child requests, answer)

def terminate (w : World) : World :=
  let (child, requests) := w.child.terminate w.ended
  w.serve child requests

/-- The child ends by itself, if it runs. -/
def exits (w : World) (status : ExitStatus) : World :=
  { w with
    system.processes := fun p =>
      if w.pid = some p ∧ w.system.processes p = some .running then some (.ended status)
      else w.system.processes p }

end World

/-- What happens to a child. -/
inductive Event where
  | spawn (command : Bytes) (launched : Except LaunchError Unit) (pid : Pid)
  | isRunning
  | terminate
  | exits (status : ExitStatus)

namespace World

def step (w : World) : Event → World
  | .spawn command launched pid => (w.spawn command launched pid).1
  | .isRunning => w.isRunning.1
  | .terminate => w.terminate
  | .exits status => w.exits status

def after (w : World) (events : List Event) : World := events.foldl step w

end World

/-! ### How a child fares, told from the events alone -/

/-- The number of the child, and what happens after its launch. -/
def sinceLaunch : List Event → Option (Pid × List Event)
  | [] => none
  | .spawn command (.ok ()) pid :: rest =>
    if command.isEmpty then sinceLaunch rest else some (pid, rest)
  | .spawn _ (.error _) _ :: rest | .isRunning :: rest | .terminate :: rest | .exits _ :: rest =>
    sinceLaunch rest

/-- How a child ends that runs: by itself, or by force if it is terminated before. -/
def ending : List Event → Option ExitStatus
  | [] => none
  | .exits status :: _ => some status
  | .terminate :: _ => some (.signaled killSignal)
  | .spawn .. :: rest | .isRunning :: rest => ending rest

/-- Somebody looks after a child. -/
def Event.looks : Event → Bool
  | .isRunning | .terminate => true
  | .spawn .. | .exits _ => false

/-- What is known of the end of a child that runs. If it ends by itself, somebody has to look. -/
def known : List Event → Option ExitStatus
  | [] => none
  | .exits status :: rest => if rest.any Event.looks then some status else none
  | .terminate :: _ => some (.signaled killSignal)
  | .spawn .. :: rest | .isRunning :: rest => known rest

/-! ### Stages -/

/-- How far a child has come. -/
inductive Stage where
  | unlaunched
  | running (pid : Pid)
  | ended (pid : Pid) (status : ExitStatus)
  | reaped (pid : Pid) (status : ExitStatus)

namespace Stage

def child : Stage → Child
  | .unlaunched => {}
  | .running _ | .ended .. => { spawned := true }
  | .reaped _ status => { spawned := true, status := some status }

def pid : Stage → Option Pid
  | .unlaunched => none
  | .running pid | .ended pid _ | .reaped pid _ => some pid

def system (log : List Served) : Stage → System
  | .running pid => .holding pid (some .running) log
  | .ended pid status => .holding pid (some (.ended status)) log
  | .unlaunched | .reaped .. => { served := log }

def next : Stage → Event → Stage
  | .unlaunched, .spawn command (.ok ()) pid =>
    if command.isEmpty then .unlaunched else .running pid
  | .running pid, .terminate => .reaped pid (.signaled killSignal)
  | .running pid, .exits status => .ended pid status
  | .ended pid status, .isRunning | .ended pid status, .terminate => .reaped pid status
  | stage, _ => stage

/-- The requests that are made at a stage, and what the system finds. -/
def served : Stage → Event → List Served
  | .unlaunched, .spawn command (.ok ()) pid =>
    if command.isEmpty then [] else [⟨.launch, some pid, none⟩]
  | .unlaunched, .spawn command (.error _) pid =>
    if command.isEmpty then []
    else [⟨.launch, some pid, none⟩, ⟨.wait, some pid, some (.ended (.exited 127))⟩]
  | .running pid, .isRunning => [⟨.wait, some pid, some .running⟩]
  | .running pid, .terminate =>
    [⟨.kill, some pid, some .running⟩, ⟨.wait, some pid, some (.ended (.signaled killSignal))⟩]
  | .ended pid status, .isRunning => [⟨.wait, some pid, some (.ended status)⟩]
  | .ended pid status, .terminate =>
    [⟨.kill, some pid, some (.ended status)⟩, ⟨.wait, some pid, some (.ended status)⟩]
  | _, _ => []

/-- A child at a stage, with what its system has carried out so far. -/
def world (stage : Stage) (log : List Served) : World :=
  { child := stage.child, pid := stage.pid, system := stage.system log }

def isRunning : Stage → Bool
  | .running _ => true
  | .unlaunched | .ended .. | .reaped .. => false

/-- What a spawn answers. -/
def answer (stage : Stage) (command : Bytes) (launched : Except LaunchError Unit) :
    Except LaunchError Unit :=
  if stage.pid.isSome then .error .alreadySpawned
  else if command.isEmpty then .error .emptyCommand
  else launched

variable (stage : Stage) (log : List Served)

theorem ended_world :
    (stage.world log).ended =
      match stage with
      | .ended _ status => some status
      | _ => none := by
  cases stage with
  | unlaunched | reaped => simp [World.ended, world, system, Stage.pid]
  | running pid | ended pid status =>
    simp [World.ended, world, system, Stage.pid, System.processes_holding]

theorem spawn_world (command : Bytes) (launched : Except LaunchError Unit) (pid : Pid) :
    (stage.world log).spawn command launched pid =
      ((stage.next (.spawn command launched pid)).world
        (log ++ stage.served (.spawn command launched pid)), stage.answer command launched) := by
  cases stage with
  | unlaunched =>
    cases hc : command.isEmpty with
    | true =>
      cases launched <;>
        simp [World.spawn, Child.spawn, world, child, Stage.pid, system, next, served, answer, hc,
          Except.toOption]
    | false =>
      cases launched <;>
        simp [World.spawn, Child.spawn, world, child, Stage.pid, system, next, served, answer, hc,
          Except.toOption, born, System.serve_empty, System.serve_holding, System.effect,
          System.holding_none]
  | running | ended | reaped =>
    simp [World.spawn, Child.spawn, world, child, Stage.pid, next, served, answer,
      Except.toOption]

theorem isRunning_world :
    (stage.world log).isRunning =
      ((stage.next .isRunning).world (log ++ stage.served .isRunning), stage.isRunning) := by
  rw [World.isRunning, ended_world]
  cases stage with
  | unlaunched | reaped =>
    simp [World.serve, Child.isRunning, isUnreaped, world, child, system, next, served, isRunning]
  | running pid | ended pid status =>
    simp [World.serve, Child.isRunning, isUnreaped, world, child, system, next, served, isRunning,
      Stage.pid, System.serve_holding, System.effect, System.holding_none]

theorem terminate_world :
    (stage.world log).terminate =
      (stage.next .terminate).world (log ++ stage.served .terminate) := by
  rw [World.terminate, ended_world]
  cases stage with
  | unlaunched | reaped =>
    simp [World.serve, Child.terminate, isUnreaped, world, child, system, next, served]
  | running pid | ended pid status =>
    simp [World.serve, Child.terminate, isUnreaped, world, child, system, next, served, Stage.pid,
      System.serve_holding, System.effect, System.holding_none]

theorem exits_world (status : ExitStatus) :
    (stage.world log).exits status =
      (stage.next (.exits status)).world (log ++ stage.served (.exits status)) := by
  cases stage with
  | unlaunched | reaped => simp [World.exits, world, child, Stage.pid, system, next, served]
  | running pid | ended pid status' =>
    simp only [World.exits, world, child, Stage.pid, system, next, served, List.append_nil]
    congr 2
    funext p
    by_cases hp : p = pid <;> simp [System.holding, hp]

theorem step_world (e : Event) :
    (stage.world log).step e = (stage.next e).world (log ++ stage.served e) := by
  cases e with
  | spawn command launched pid =>
    exact congrArg Prod.fst (stage.spawn_world log command launched pid)
  | isRunning => exact congrArg Prod.fst (stage.isRunning_world log)
  | terminate => exact stage.terminate_world log
  | exits status => exact stage.exits_world log status

def after (stage : Stage) (events : List Event) : Stage := events.foldl next stage

/-- All requests that are made from a stage on. -/
def requests : Stage → List Event → List Served
  | _, [] => []
  | stage, e :: events => stage.served e ++ (stage.next e).requests events

theorem after_world (events : List Event) :
    (stage.world log).after events = (stage.after events).world (log ++ stage.requests events) := by
  induction events generalizing stage log with
  | nil => simp [World.after, after, requests]
  | cons e events ih =>
    rw [World.after, List.foldl_cons, step_world]
    refine (ih (stage.next e) _).trans ?_
    rw [requests, List.append_assoc]
    rfl

/-! ### Stages against the events -/

theorem after_reaped (pid : Pid) (status : ExitStatus) (events : List Event) :
    (reaped pid status).after events = reaped pid status := by
  induction events with
  | nil => rfl
  | cons e events ih => exact ih

theorem requests_reaped (pid : Pid) (status : ExitStatus) (events : List Event) :
    (reaped pid status).requests events = [] := by
  induction events with
  | nil => rfl
  | cons e events ih => exact ih

theorem after_ended (pid : Pid) (status : ExitStatus) (events : List Event) :
    (ended pid status).after events =
      if events.any Event.looks then reaped pid status else ended pid status := by
  induction events with
  | nil => rfl
  | cons e events ih =>
    cases e with
    | spawn | exits => exact ih
    | isRunning | terminate => exact after_reaped pid status events

theorem after_running (pid : Pid) (events : List Event) :
    (running pid).after events =
      match known events, ending events with
      | some status, _ => reaped pid status
      | none, some status => ended pid status
      | none, none => running pid := by
  induction events with
  | nil => rfl
  | cons e events ih =>
    cases e with
    | spawn | isRunning => exact ih
    | terminate => exact after_reaped pid _ events
    | exits status =>
      refine (after_ended pid status events).trans ?_
      rw [known, ending]
      split <;> rfl

theorem after_unlaunched (events : List Event) :
    unlaunched.after events =
      match sinceLaunch events with
      | none => unlaunched
      | some (pid, rest) => (running pid).after rest := by
  induction events with
  | nil => rfl
  | cons e events ih =>
    cases e with
    | isRunning | terminate | exits => exact ih
    | spawn command launched pid =>
      cases launched with
      | error => exact ih
      | ok =>
        rw [sinceLaunch]
        cases hc : command.isEmpty with
        | true =>
          refine Eq.trans ?_ ih
          rw [after, List.foldl_cons, next, if_pos hc]
          rfl
        | false =>
          rw [after, List.foldl_cons, next, if_neg (by simp [hc])]
          rfl

end Stage

theorem ending_of_known {events : List Event} {status : ExitStatus}
    (h : known events = some status) : ending events = some status := by
  induction events with
  | nil => cases h
  | cons e events ih =>
    cases e with
    | spawn | isRunning => exact ih h
    | terminate => exact h
    | exits own =>
      rw [known] at h
      split at h
      · exact h
      · cases h

/-- A stage agrees with what the events tell. -/
structure Stage.Told (stage : Stage) (events : List Event) : Prop where
  pid : stage.pid = (sinceLaunch events).map Prod.fst
  status : stage.child.status = (sinceLaunch events).bind fun launch => known launch.2
  isRunning : stage.isRunning = true ↔
    ∃ pid rest, sinceLaunch events = some (pid, rest) ∧ ending rest = none

theorem Stage.told_after (events : List Event) : Told (unlaunched.after events) events := by
  rw [after_unlaunched]
  cases hl : sinceLaunch events with
  | none => exact ⟨by simp [hl, Stage.pid], by simp [hl, child], by simp [hl, isRunning]⟩
  | some launch =>
    obtain ⟨pid, rest⟩ := launch
    simp only [after_running]
    cases hk : known rest with
    | some status =>
      have he := ending_of_known hk
      exact ⟨by simp [hl, Stage.pid], by simp [hl, hk, child], by simp [hl, he, isRunning]⟩
    | none =>
      cases he : ending rest with
      | some status =>
        exact ⟨by simp [hl, Stage.pid], by simp [hl, hk, child], by simp [hl, he, isRunning]⟩
      | none =>
        refine ⟨by simp [hl, Stage.pid], by simp [hl, hk, child], ?_⟩
        exact ⟨fun _ => ⟨pid, rest, hl, he⟩, fun _ => rfl⟩

/-! ### What the system was asked -/

/-- What a step can do: where it leads, and the requests on the way. -/
inductive Stage.Step : Stage → Stage → List Served → Prop where
  | rest {stage : Stage} : Step stage stage []
  | launch {pid : Pid} : Step .unlaunched (.running pid) [⟨.launch, some pid, none⟩]
  /-- There is no program to run. -/
  | vain {pid : Pid} {status : ExitStatus} : Step .unlaunched .unlaunched
      [⟨.launch, some pid, none⟩, ⟨.wait, some pid, some (.ended status)⟩]
  | look {pid : Pid} : Step (.running pid) (.running pid) [⟨.wait, some pid, some .running⟩]
  | exit {pid : Pid} {status : ExitStatus} : Step (.running pid) (.ended pid status) []
  | reap {pid : Pid} {status : ExitStatus} : Step (.ended pid status) (.reaped pid status)
      [⟨.wait, some pid, some (.ended status)⟩]
  | force {pid : Pid} : Step (.running pid) (.reaped pid (.signaled killSignal))
      [⟨.kill, some pid, some .running⟩, ⟨.wait, some pid, some (.ended (.signaled killSignal))⟩]
  /-- It is ended by force, and has ended already. -/
  | late {pid : Pid} {status : ExitStatus} : Step (.ended pid status) (.reaped pid status)
      [⟨.kill, some pid, some (.ended status)⟩, ⟨.wait, some pid, some (.ended status)⟩]

theorem Stage.step (stage : Stage) (e : Event) : Step stage (stage.next e) (stage.served e) := by
  cases stage with
  | unlaunched =>
    cases e with
    | spawn command launched pid =>
      cases hc : command.isEmpty <;> cases launched <;> simp only [next, served, hc]
      · exact .vain
      · exact .launch
      · exact .rest
      · exact .rest
    | isRunning | terminate | exits => exact .rest
  | running pid =>
    cases e with
    | spawn => exact .rest
    | isRunning => exact .look
    | terminate => exact .force
    | exits status => exact .exit
  | ended pid status =>
    cases e with
    | spawn | exits => exact .rest
    | isRunning => exact .reap
    | terminate => exact .late
  | reaped pid status => exact .rest

def Served.isLaunch (r : Served) : Bool := r.request = .launch

/-- A wait that took a status. -/
def Served.isReap (r : Served) : Bool :=
  match r.request, r.found with
  | .wait, some (.ended _) => true
  | _, _ => false

namespace Stage.Step

variable {stage next : Stage} {new : List Served}

theorem pid (h : stage.Step next new) {pid : Pid} (hp : stage.pid = some pid) :
    next.pid = some pid := by
  cases h with
  | launch => cases hp
  | rest | vain | look | exit | reap | force | late => exact hp

theorem found (h : stage.Step next new) :
    ∀ r ∈ new, r.found = none ↔ r.request = .launch := by
  cases h <;> simp

theorem killed (h : stage.Step next new) :
    ∀ r ∈ new, r.request = .kill → r.pid = next.pid ∧ next.pid.isSome := by
  cases h <;> simp [Stage.pid]

/-- A launch is balanced by a process to be reaped, and a reap by one that was to be reaped. -/
theorem reaps (h : stage.Step next new) :
    new.countP Served.isLaunch + (if stage.child.isUnreaped then 1 else 0) =
      new.countP Served.isReap + if next.child.isUnreaped then 1 else 0 := by
  cases h <;> simp [Served.isLaunch, Served.isReap, isUnreaped, child]

theorem taken (h : stage.Step next new) {status : ExitStatus}
    (hs : next.child.status = some status) :
    ⟨.wait, next.pid, some (.ended status)⟩ ∈ new ∨
      (next.pid = stage.pid ∧ stage.child.status = some status) := by
  cases h with
  | rest => exact .inr ⟨rfl, hs⟩
  | launch | vain | look | exit => cases hs
  | reap | force | late =>
    cases hs
    exact .inl (by simp [Stage.pid])

end Stage.Step

/-- The requests that have led to a stage. -/
structure Accounted (stage : Stage) (log : List Served) : Prop where
  /-- Every request but a launch was for a process that was there, -/
  found : ∀ r ∈ log, r.found = none ↔ r.request = .launch
  /-- only the child itself was ever killed, -/
  killed : ∀ r ∈ log, r.request = .kill → r.pid = stage.pid ∧ stage.pid.isSome
  /-- each process that was launched was reaped once, -/
  reaps : log.countP Served.isLaunch =
    log.countP Served.isReap + if stage.child.isUnreaped then 1 else 0
  /-- and the status is what the wait has taken. -/
  taken : ∀ status, stage.child.status = some status →
    ⟨.wait, stage.pid, some (.ended status)⟩ ∈ log

theorem Accounted.step {stage next : Stage} {log new : List Served} (h : Accounted stage log)
    (hs : stage.Step next new) : Accounted next (log ++ new) where
  found := by
    intro r hr
    rcases List.mem_append.mp hr with hr | hr
    · exact h.found r hr
    · exact hs.found r hr
  killed := by
    intro r hr hk
    rcases List.mem_append.mp hr with hr | hr
    · obtain ⟨heq, hsome⟩ := h.killed r hr hk
      obtain ⟨pid, hp⟩ := Option.isSome_iff_exists.mp hsome
      rw [heq, hp, hs.pid hp]
      exact ⟨rfl, rfl⟩
    · exact hs.killed r hr hk
  reaps := by
    have hold := h.reaps
    have hnew := hs.reaps
    rw [List.countP_append, List.countP_append]
    omega
  taken := by
    intro status hstatus
    rcases hs.taken hstatus with hnew | ⟨hp, hold⟩
    · exact List.mem_append_right _ hnew
    · rw [hp]
      exact List.mem_append_left _ (h.taken status hold)

theorem Accounted.after {stage : Stage} {log : List Served} (h : Accounted stage log)
    (events : List Event) : Accounted (stage.after events) (log ++ stage.requests events) := by
  induction events generalizing stage log with
  | nil => simpa [Stage.after, Stage.requests] using h
  | cons e events ih =>
    rw [Stage.requests, ← List.append_assoc]
    exact ih (h.step (stage.step e))

theorem accounted_unlaunched : Accounted .unlaunched [] where
  found := nofun
  killed := nofun
  reaps := rfl
  taken := nofun

/-! ### All of it -/

/-- A child and its system after some events. -/
structure ReapedOnce (events : List Event) (w : World) : Prop where
  /-- What a spawn answers, -/
  spawn_answer : ∀ command launched pid, (w.spawn command launched pid).2 =
    if w.pid.isSome then .error .alreadySpawned
    else if command.isEmpty then .error .emptyCommand
    else launched
  /-- and that one that fails leaves all as it was, -/
  spawn_failed : ∀ command launched pid e, (w.spawn command launched pid).2 = .error e →
    (w.spawn command launched pid).1.child = w.child ∧
      (w.spawn command launched pid).1.pid = w.pid ∧
      (w.spawn command launched pid).1.system.processes = w.system.processes
  /-- so that a later one can still succeed. -/
  spawn_ok : ∀ command pid, w.pid = none → command.isEmpty = false →
    (w.spawn command (.ok ()) pid).1.child = { spawned := true } ∧
      (w.spawn command (.ok ()) pid).1.pid = some pid
  /-- The number is that of the first launch, -/
  pid : w.pid = (sinceLaunch events).map Prod.fst
  spawned : w.child.spawned = w.pid.isSome
  /-- and remains. -/
  pid_after : ∀ more pid, w.pid = some pid → (w.after more).pid = some pid
  /-- The status is what is known of the end of the child, which is its true one; -/
  status : w.child.status = (sinceLaunch events).bind fun launch => known launch.2
  status_true : ∀ status, w.child.status = some status →
    ∃ pid rest, sinceLaunch events = some (pid, rest) ∧ ending rest = some status
  /-- it is there once the child is reaped, and no other process is ever left to be reaped. -/
  unreaped : ∀ pid, w.system.processes pid ≠ none ↔ w.pid = some pid ∧ w.child.status = none
  isRunning : w.isRunning.2 = true ↔
    ∃ pid rest, sinceLaunch events = some (pid, rest) ∧ ending rest = none
  /-- Then it does not run, nothing changes any more, and nothing more is asked of the system. -/
  final : ∀ status, w.child.status = some status →
    w.isRunning.2 = false ∧ ∀ more, w.after more = w
  /-- Ending the child by force leaves nothing to be reaped, however often it is done, -/
  terminate : (∀ pid, w.terminate.system.processes pid = none) ∧
    (w.pid.isSome → w.terminate.child.status.isSome) ∧ w.terminate.terminate = w.terminate
  /-- and waits only for a process that has ended. -/
  terminate_waits : ∃ new, w.terminate.system.served = w.system.served ++ new ∧
    ∀ r ∈ new, r.request = .wait → ∃ status, r.found = some (.ended status)
  /-- So does a spawn. -/
  spawn_waits : ∀ command launched pid, ∃ new,
    (w.spawn command launched pid).1.system.served = w.system.served ++ new ∧
      ∀ r ∈ new, r.request = .wait → ∃ status, r.found = some (.ended status)
  /-- No other process was ever waited for or killed, and each was reaped once. -/
  found : ∀ r ∈ w.system.served, r.found = none ↔ r.request = .launch
  killed : ∀ r ∈ w.system.served, r.request = .kill → r.pid = w.pid ∧ w.pid.isSome
  reaps : w.system.served.countP Served.isLaunch =
    w.system.served.countP Served.isReap + if w.child.isUnreaped then 1 else 0
  taken : ∀ status, w.child.status = some status →
    ⟨.wait, w.pid, some (.ended status)⟩ ∈ w.system.served

namespace Stage

variable (stage : Stage) (log : List Served)

theorem processes_world (pid : Pid) :
    (stage.world log).system.processes pid ≠ none ↔
      stage.pid = some pid ∧ stage.child.status = none := by
  cases stage <;> simp [world, system, System.holding, Stage.pid, child, eq_comm]

theorem served_world : (stage.world log).system.served = log := by cases stage <;> rfl

theorem next_spawn_of_error {command : Bytes} {launched : Except LaunchError Unit} {pid : Pid}
    {e : LaunchError} (h : stage.answer command launched = .error e) :
    stage.next (.spawn command launched pid) = stage := by
  cases stage with
  | unlaunched =>
    cases launched with
    | error => rfl
    | ok =>
      cases hc : command.isEmpty with
      | true => simp [next, hc]
      | false => simp [answer, Stage.pid, hc] at h
  | running | ended | reaped => rfl

/-- Whoever waits until a process ends finds that it has ended. -/
theorem terminate_waits : ∀ r ∈ stage.served .terminate,
    r.request = .wait → ∃ status, r.found = some (.ended status) := by
  cases stage <;> simp [served]

theorem spawn_waits (command : Bytes) (launched : Except LaunchError Unit) (pid : Pid) :
    ∀ r ∈ stage.served (.spawn command launched pid),
      r.request = .wait → ∃ status, r.found = some (.ended status) := by
  cases stage with
  | unlaunched => cases hc : command.isEmpty <;> cases launched <;> simp [served, hc]
  | running | ended | reaped => exact nofun

theorem terminated : (stage.next .terminate = unlaunched ∧ stage = unlaunched) ∨
    ∃ pid status, stage.next .terminate = reaped pid status := by
  cases stage with
  | unlaunched => exact .inl ⟨rfl, rfl⟩
  | running pid => exact .inr ⟨pid, _, rfl⟩
  | ended pid status | reaped pid status => exact .inr ⟨pid, status, rfl⟩

theorem processes_terminate (pid : Pid) :
    (stage.world log).terminate.system.processes pid = none := by
  rw [terminate_world]
  rcases stage.terminated with ⟨hnext, -⟩ | ⟨pid', status, hnext⟩ <;> rw [hnext] <;> rfl

theorem status_terminate (h : stage.pid.isSome) :
    (stage.world log).terminate.child.status.isSome := by
  rw [terminate_world]
  rcases stage.terminated with ⟨-, rfl⟩ | ⟨pid, status, hnext⟩
  · cases h
  · rw [hnext]
    rfl

theorem terminate_terminate :
    (stage.world log).terminate.terminate = (stage.world log).terminate := by
  rw [terminate_world, terminate_world]
  rcases stage.terminated with ⟨hnext, -⟩ | ⟨pid, status, hnext⟩ <;>
    rw [hnext] <;> simp [next, served]

/-- Behind the reaping nothing changes. -/
theorem final_world {status : ExitStatus} (h : stage.child.status = some status)
    (events : List Event) : (stage.world log).after events = stage.world log := by
  cases stage with
  | unlaunched | running | ended => cases h
  | reaped pid status' => rw [after_world, after_reaped, requests_reaped, List.append_nil]

theorem pid_after {pid : Pid} (h : stage.pid = some pid) (events : List Event) :
    (stage.after events).pid = some pid := by
  induction events generalizing stage with
  | nil => exact h
  | cons e events ih => exact ih (stage.next e) ((stage.step e).pid h)

end Stage

/-- Whatever is done to a child and whenever it ends, it is reaped once. -/
theorem reapedOnce_after (events : List Event) :
    ReapedOnce events (({} : World).after events) := by
  have hworld := Stage.after_world .unlaunched [] events
  have htold := Stage.told_after events
  have haccounted := accounted_unlaunched.after events
  have hstart : ({} : World) = Stage.unlaunched.world [] := rfl
  rw [hstart, hworld]
  generalize Stage.unlaunched.after events = stage at *
  generalize [] ++ Stage.unlaunched.requests events = log at *
  have hserved := stage.served_world log
  exact {
    spawn_answer := by
      intro command launched pid
      rw [stage.spawn_world]
      rfl
    spawn_failed := by
      intro command launched pid e h
      rw [stage.spawn_world] at h ⊢
      rw [stage.next_spawn_of_error h]
      exact ⟨rfl, rfl, by cases stage <;> rfl⟩
    spawn_ok := by
      intro command pid hp hc
      rw [stage.spawn_world]
      cases stage with
      | unlaunched => simp [Stage.next, hc, Stage.world, Stage.child, Stage.pid]
      | running | ended | reaped => cases hp
    pid := htold.pid
    spawned := by cases stage <;> rfl
    pid_after := by
      intro more pid hp
      rw [Stage.after_world]
      exact stage.pid_after hp more
    status := htold.status
    status_true := by
      intro status hs
      rw [show (stage.world log).child.status = _ from htold.status] at hs
      obtain ⟨⟨pid, rest⟩, hl, hk⟩ := Option.bind_eq_some_iff.mp hs
      exact ⟨pid, rest, hl, ending_of_known hk⟩
    unreaped := stage.processes_world log
    isRunning := by
      rw [stage.isRunning_world]
      exact htold.isRunning
    final := by
      intro status hs
      refine ⟨?_, stage.final_world log hs⟩
      rw [stage.isRunning_world]
      cases stage with
      | unlaunched | running | ended => cases hs
      | reaped => rfl
    terminate :=
      ⟨stage.processes_terminate log, stage.status_terminate log, stage.terminate_terminate log⟩
    terminate_waits := by
      rw [stage.terminate_world, Stage.served_world, hserved]
      exact ⟨_, rfl, stage.terminate_waits⟩
    spawn_waits := by
      intro command launched pid
      rw [stage.spawn_world, Stage.served_world, hserved]
      exact ⟨_, rfl, stage.spawn_waits command launched pid⟩
    found := by rw [hserved]; exact haccounted.found
    killed := by rw [hserved]; exact haccounted.killed
    reaps := by rw [hserved]; exact haccounted.reaps
    taken := by rw [hserved]; exact haccounted.taken }

-- The number of a process that could not be run is given again, and the child ends before it is
-- killed.
example :
    let w := ({} : World).after
      [.spawn (bytes "a") (.error (.noSuchFile (bytes "a"))) 7, .spawn (bytes "b") (.ok ()) 7,
        .exits (.exited 3), .terminate, .isRunning]
    w.child.status = some (.exited 3) ∧
      w.system.served.map Served.request = [.launch, .wait, .launch, .kill, .wait] := by
  decide

end LanguageClient.Child
