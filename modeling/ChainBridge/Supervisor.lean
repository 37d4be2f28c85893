import ChainBridge.Lib.Lanes
import ChainBridge.Session

/-!
# The supervisor and its workers

`main.rs` keeps the NATS consumer up: it connects, starts a `NatsConsumer` and, when that gives up, waits and connects again.
`NatsConsumer::start` runs two pull consumers side by side. Each is a loop, `run_consumer`, that opens a stream of messages, works
on a bounded number of them at once and opens the stream again when it has ended. An error of either ends both, and the handlers
that still run are dropped with them.
-/

namespace ChainBridge

open Interleave

/-- The two pull consumers of `start`. -/
inductive Worker where
  | fast
  | mint
  deriving DecidableEq

/-- `filter_subjects`: the subjects a worker pulls. -/
def Worker.filterSubjects : Worker → List String
  | .fast => ["chain.tx.submit", "chain.tx.simulate", "chain.tx.cancel", "chain.tx.status"]
  | .mint => ["chain.tx.mint"]

/-- `concurrency`: how many handlers of a worker may be in flight. -/
def Worker.concurrency : Worker → Nat
  | .fast => 32
  | .mint => 8

/-- The subject of a message. -/
def Delivery.subject : Delivery → String
  | .submit _ => "chain.tx.submit"
  | .cancel _ => "chain.tx.cancel"
  | .mint _ => "chain.tx.mint"
  | .status _ => "chain.tx.status"
  | .unknown subject => subject

/-- The workers as lanes of the bridge. `for_each_concurrent` takes a message only below the limit. -/
def workers : Lanes Worker Delivery where
  limit := Worker.concurrency
  takes := fun w d => w.filterSubjects.contains d.subject

/-! ## One worker -/

/-- Where `run_consumer` stands: fetching its stream and consumer; opening the messages, with its `create_failures` and
`backoff_ms`; sleeping after a failure; working on messages until the stream ends and, once it has, until the last handler is
done; sleeping before it opens them again. -/
inductive RunConsumer where
  | starting
  | opening (createFailures backoffMs : Nat)
  | backingOff (createFailures backoffMs : Nat)
  | streaming (ended : Bool)
  | pausing
  deriving DecidableEq

/-- What happens to a worker. The sleeps come with how long they took. -/
inductive WorkerEvent where
  | ready
  | unready
  | opened
  | openFailed
  | backedOff (ms : Nat)
  | messageError
  | ended
  | drained
  | paused (ms : Nat)
  deriving DecidableEq

/-- A step of `run_consumer`: where it stands next, or the error it returns. Opening the messages resets the failures and the
backoff; the fifth failure in a row is an error. -/
def RunConsumer.step : RunConsumer → WorkerEvent → Option (Except Unit RunConsumer)
  | .starting, .ready => some (.ok (.opening 0 100))
  | .starting, .unready => some (.error ())
  | .opening _ _, .opened => some (.ok (.streaming false))
  | .opening createFailures backoffMs, .openFailed =>
    if createFailures + 1 ≥ 5 then some (.error ()) else some (.ok (.backingOff (createFailures + 1) backoffMs))
  | .backingOff createFailures backoffMs, .backedOff ms =>
    if ms = backoffMs then some (.ok (.opening createFailures (min (backoffMs * 2) 5000))) else none
  | .streaming false, .messageError => some (.ok (.streaming false))
  | .streaming false, .ended => some (.ok (.streaming true))
  | .streaming true, .drained => some (.ok .pausing)
  | .pausing, .paused ms => if ms = 200 then some (.ok (.opening 0 100)) else none
  | _, _ => none

/-! ## The supervisor -/

/-- Where the supervisor stands: connecting, with its `backoff_ms`; in `start` before the workers run; running both workers;
sleeping before it connects again. -/
inductive Supervisor where
  | connecting (backoffMs : Nat)
  | starting
  | running (workers : Worker → RunConsumer)
  | waiting (backoffMs : Nat)

/-- What happens to the supervisor. -/
inductive SupervisorEvent where
  | connected
  | connectFailed
  | streamReady
  | streamFailed
  | worker (w : Worker) (e : WorkerEvent)
  | slept (ms : Nat)
  deriving DecidableEq

/-- A step of the supervisor. A connection resets the backoff, so it sleeps 500 ms when the consumer has given up. -/
def Supervisor.step : Supervisor → SupervisorEvent → Option Supervisor
  | .connecting _, .connected => some .starting
  | .connecting backoffMs, .connectFailed => some (.waiting backoffMs)
  | .starting, .streamReady => some (.running fun _ => .starting)
  | .starting, .streamFailed => some (.waiting 500)
  | .running workers, .worker w e =>
    match (workers w).step e with
    | some (.ok s) => some (.running (Function.update workers w s))
    | some (.error ()) => some (.waiting 500)
    | none => none
  | .waiting backoffMs, .slept ms => if ms = backoffMs then some (.connecting (min (backoffMs * 2) 30000)) else none
  | _, _ => none

/-- Whether the workers run. -/
def Supervisor.isRunning : Supervisor → Bool
  | .running _ => true
  | _ => false

/-- Whether a worker pulls messages. -/
def Supervisor.pulls (s : Supervisor) (w : Worker) : Bool :=
  match s with
  | .running workers => decide (workers w = .streaming false)
  | _ => false

/-! ## The supervised bridge -/

/-- The bridge with its handlers in flight under the supervisor, and what happened to the supervisor so far. -/
structure Supervised where
  supervisor : Supervisor
  hall : Hall Call Call.Answer Session Delivery Move Worker
  log : List SupervisorEvent

/-- `main`: nothing runs, and the first connection is tried with a backoff of 500 ms. -/
def Supervised.init (w : Session) : Supervised := { supervisor := .connecting 500, hall := Hall.init w, log := [] }

/-- Whether the supervisor lets the handlers do a step: messages are taken by workers that pull, and handlers run while the workers
do. The reconnection is its own. -/
def Supervisor.permits (s : Supervisor) : Hall.Action Call Call.Answer Delivery Move Worker → Bool
  | .spawn w _ _ => s.pulls w
  | .call _ _ => s.isRunning
  | .retire _ _ => s.isRunning
  | .env .reconnect => false
  | .env _ => true

/-- Whether the handlers let the supervisor do a step: a worker is drained when none of its handlers is in flight. -/
def Supervised.admits (s : Supervised) : SupervisorEvent → Bool
  | .worker w .drained => (s.hall.inFlight w).isEmpty
  | _ => true

/-- A step asked for: of the supervisor, or around the handlers. -/
inductive Supervised.Action where
  | control (e : SupervisorEvent)
  | handlers (a : Hall.Action Call Call.Answer Delivery Move Worker)

/-- The handlers after a step of the supervisor: when the workers stop, the session ends. -/
def Supervised.hallAfter (Γ : Ctx) (s : Supervised) (next : Supervisor) :
    Option (Hall Call Call.Answer Session Delivery Move Worker) :=
  if s.supervisor.isRunning && !next.isRunning then s.hall.act (bridge Γ) workers (.env .reconnect) else some s.hall

/-- The state after a step asked for, if it is possible. -/
def Supervised.act (Γ : Ctx) (s : Supervised) : Action → Option Supervised
  | .control e =>
    match s.supervisor.step e with
    | some next =>
      if s.admits e then (s.hallAfter Γ next).map fun hall => { supervisor := next, hall, log := s.log ++ [e] } else none
    | none => none
  | .handlers a =>
    if s.supervisor.permits a then (s.hall.act (bridge Γ) workers a).map fun hall => { s with hall } else none

/-- The states of the supervised bridge, from a session on. -/
inductive Supervised.Reach (Γ : Ctx) (w : Session) : Supervised → Prop where
  | init : Reach Γ w (.init w)
  | step {s s' : Supervised} {a : Action} : Reach Γ w s → s.act Γ a = some s' → Reach Γ w s'

end ChainBridge
