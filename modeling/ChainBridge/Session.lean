import ChainBridge.Consumer
import ChainBridge.Lib.Pool

/-!
# A consumer session

The state the handlers of one `NatsConsumer` share, the answers it gives to their calls, and what happens around them: time
passes, the cleanup task sweeps, the blockhash task refreshes its cache, and the supervisor of `main.rs` replaces the consumer.

`NatsConsumer::start` hands the cleanup task a clone of each map. `dedup_store` is behind an `Arc`, so its clone is the same
map; `idempotency_cache` is a bare `DashMap`, so its clone is a copy, which the handlers never see again.
-/

namespace ChainBridge

open Interleave

/-- The state of a session. -/
structure Session where
  /-- The wall clock, in milliseconds. -/
  clock : Nat
  /-- The correlation ids the handlers look up and record, with their expiries. -/
  idempotencyCache : KeyMap String Nat
  /-- The copy of `idempotencyCache` that the cleanup task sweeps. -/
  cleanupCache : KeyMap String Nat
  dedupStore : DedupStore
  blockhashCache : Option (Hash × Nat)

/-- `NatsConsumer::new` and `start`: empty maps; the clock and the blockhash cache belong to the process. -/
def Session.fresh (clock : Nat) (blockhashCache : Option (Hash × Nat)) : Session :=
  { clock, idempotencyCache := .empty, cleanupCache := .empty, dedupStore := .empty, blockhashCache }

/-- The answer to a call and the session after it. The calls on the shared state are answered from it; the answers of Vault, the
provider, the audit store and NATS are the environment's. -/
def Session.serve (s : Session) : (c : Call) → c.Answer → c.Answer × Session
  | .now, _ => (s.clock, s)
  | .cacheContains key, _ => (s.idempotencyCache.contains key, s)
  | .cacheInsert key expiryMs, _ => ((), { s with idempotencyCache := s.idempotencyCache.insert key expiryMs })
  | .claim key correlationId nowMs, _ =>
    let out := claimOrReplay s.dedupStore key correlationId nowMs
    (out.1, { s with dedupStore := out.2 })
  | .dedupInsert key rec, _ => ((), { s with dedupStore := s.dedupStore.insert key rec })
  | .dedupRemove key, _ => ((), { s with dedupStore := s.dedupStore.remove key })
  | .blockhashGet, _ => (s.blockhashCache, s)
  | .getLatestBlockhash, a => (a, s)
  | .simulateTransaction _, a => (a, s)
  | .signMessage _ _, a => (a, s)
  | .getPublicKey _, a => (a, s)
  | .sendTransaction _, a => (a, s)
  | .getSignatureStatuses _, a => (a, s)
  | .getTokenAccountBalance _, a => (a, s)
  | .auditAppend _, a => (a, s)
  | .publish _ _, a => (a, s)
  | .ack _, a => (a, s)
  | .panic, a => (a, s)

/-- What happens around the handlers. -/
inductive Move where
  /-- Time passes. -/
  | tick (clock : Nat)
  /-- A tick of the cleanup task, at its clock reading. -/
  | sweep (nowMs : Nat)
  /-- The blockhash task stores a new blockhash. -/
  | refresh (hash : Hash) (height : Nat)
  /-- The session ends and the supervisor starts the next one: every handler is dropped where it stands. -/
  | reconnect

/-- The session after a move. The clock never decreases and the cleanup task never reads ahead of it. -/
def Session.move (s : Session) : Move → Option Session
  | .tick clock => if s.clock ≤ clock then some { s with clock } else none
  | .sweep nowMs =>
    if nowMs ≤ s.clock then
      some { s with
        cleanupCache := s.cleanupCache.retain fun _ expiryMs => decide (expiryMs > nowMs)
        dedupStore := sweepDedup s.dedupStore nowMs }
    else none
  | .refresh hash height => some { s with blockhashCache := some (hash, height) }
  | .reconnect => some (.fresh s.clock s.blockhashCache)

/-- The moves that drop the running handlers. -/
def Move.isReconnect : Move → Bool
  | .reconnect => true
  | _ => false

/-- The bridge: deliveries start handlers, the session answers them. -/
def bridge (Γ : Ctx) : System Call Call.Answer Session Delivery Move where
  start := dispatch Γ
  serve := Session.serve
  env := Session.move
  cuts := Move.isReconnect

/-- A step of the bridge. -/
abbrev BridgeLabel : Type := Label Call.Answer Delivery Move

/-- A state of the bridge with its history. -/
abbrev BridgePool : Type := Pool Call Call.Answer Session Delivery Move

/-- The steps of one session: anything but a reconnection. -/
def InSession : BridgeLabel → Prop
  | .env .reconnect => False
  | _ => True

/-- The answers a call of the shared state cannot choose: the call changes the session at most as `serve` says. -/
theorem clock_serve (s : Session) (c : Call) (a : c.Answer) : (s.serve c a).2.clock = s.clock := by
  cases c <;> rfl

/-- The clock never decreases. -/
theorem clock_le_move {s s' : Session} {m : Move} (h : s.move m = some s') : s.clock ≤ s'.clock := by
  cases m with
  | tick clock =>
    simp only [Session.move] at h
    split at h
    · cases h
      assumption
    · cases h
  | sweep nowMs =>
    simp only [Session.move] at h
    split at h
    · cases h
      exact Nat.le_refl _
    · cases h
  | refresh hash height =>
    cases h
    exact Nat.le_refl _
  | reconnect =>
    cases h
    exact Nat.le_refl _

end ChainBridge
