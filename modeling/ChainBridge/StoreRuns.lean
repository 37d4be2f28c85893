import ChainBridge.History

/-!
# Runs of the store alone

What the handlers and the cleanup task do to `dedup_store`, without anything else they do: a handler claims its key, records its
effect or releases the key, and the sweep drops the expired records. A run is a list of such steps in any order, with any
idempotency keys; `storeRun` reads the run off the history of a session.
-/

namespace ChainBridge

open Interleave

/-- A step on the store, with the handler that takes it. A success stores a record under the key of the handler, a failure removes
the key; with an empty idempotency key neither touches the store. -/
inductive StoreStep where
  | claim (t : Nat) (e : Effect) (idempotencyKey correlationId : String) (nowMs : Nat)
  | success (t : Nat) (e : Effect) (idempotencyKey : String) (rec : DedupRecord)
  | failure (t : Nat) (e : Effect) (idempotencyKey : String)
  | sweep (nowMs : Nat)
  deriving DecidableEq

namespace StoreStep

/-- The effect of the handler that takes a step; a sweep is nobody's. -/
def effect : StoreStep → Option Effect
  | .claim _ e _ _ _ => some e
  | .success _ e _ _ => some e
  | .failure _ e _ => some e
  | .sweep _ => none

/-- Whether a step is a sweep. -/
def isSweep : StoreStep → Bool
  | .sweep _ => true
  | _ => false

/-- The clock reading a step compares expiries with. -/
def reading : StoreStep → Option Nat
  | .claim _ _ _ _ nowMs => some nowMs
  | .sweep nowMs => some nowMs
  | _ => none

/-- The store after a step. -/
def apply (store : DedupStore) : StoreStep → DedupStore
  | .claim _ e idempotencyKey correlationId nowMs => (claimOrReplay store (dedupKey e idempotencyKey) correlationId nowMs).2
  | .success _ e idempotencyKey rec =>
    match dedupKey e idempotencyKey with
    | some key => store.insert key rec
    | none => store
  | .failure _ e idempotencyKey =>
    match dedupKey e idempotencyKey with
    | some key => store.remove key
    | none => store
  | .sweep nowMs => sweepDedup store nowMs

/-- What `claim_or_replay` returns at a step that is a claim, with the handler and its effect. -/
def result (store : DedupStore) : StoreStep → Option (Nat × Effect × Option TxResultMessage)
  | .claim t e idempotencyKey correlationId nowMs =>
    some (t, e, (claimOrReplay store (dedupKey e idempotencyKey) correlationId nowMs).1)
  | _ => none

end StoreStep

/-- The store after a run. -/
def replay (store : DedupStore) (run : List StoreStep) : DedupStore := run.foldl StoreStep.apply store

/-- What `claim_or_replay` returns in a run, claim by claim. -/
def claimResults : DedupStore → List StoreStep → List (Nat × Effect × Option TxResultMessage)
  | _, [] => []
  | store, s :: run => (s.result store).toList ++ claimResults (s.apply store) run

theorem replay_cons (store : DedupStore) (s : StoreStep) (run : List StoreStep) :
    replay store (s :: run) = replay (s.apply store) run := rfl

theorem replay_concat (store : DedupStore) (run : List StoreStep) (s : StoreStep) :
    replay store (run ++ [s]) = s.apply (replay store run) := by
  simp [replay]

theorem claimResults_concat (store : DedupStore) (run : List StoreStep) (s : StoreStep) :
    claimResults store (run ++ [s]) = claimResults store run ++ (s.result (replay store run)).toList := by
  induction run generalizing store with
  | nil => simp [claimResults, replay]
  | cons s' run ih => simp [claimResults, ih, replay_cons]

/-! ## The run in a history -/

/-- The effect a delivery asks for, with its idempotency key. -/
def Delivery.request : Delivery → Option (Effect × String)
  | .submit (.ok envelope) => some (.submit, envelope.idempotencyKey)
  | .mint (.ok envelope) => some (.mint, envelope.idempotencyKey)
  | _ => none

/-- The effect and the idempotency key a handler was started with. -/
def requestOf (t : Nat) (log : History) : Option (Effect × String) := (messageOf t log).bind Delivery.request

/-- What a label does to the store, as a step of the handler that makes the call. -/
def storeStep (log : History) : BridgeLabel → Option StoreStep
  | .call t ⟨.claim _ correlationId nowMs, _⟩ =>
    (requestOf t log).map fun r => .claim t r.1 r.2 correlationId nowMs
  | .call t ⟨.dedupInsert _ rec, _⟩ => (requestOf t log).map fun r => .success t r.1 r.2 rec
  | .call t ⟨.dedupRemove _, _⟩ => (requestOf t log).map fun r => .failure t r.1 r.2
  | .env (.sweep nowMs) => some (.sweep nowMs)
  | _ => none

/-- The steps on the store in the history of a session. -/
def storeRun (log : History) : List StoreStep := log.filterMap (storeStep log)

/-- What `claim_or_replay` returned in a history, by handler. -/
def claimAnswers (log : History) : List (Nat × Option TxResultMessage) :=
  log.filterMap fun
    | .call t ⟨.claim _ _ _, a⟩ => some (t, a)
    | _ => none

end ChainBridge
