import ChainBridge.Audit
import ChainBridge.Dedup
import ChainBridge.Lib.Prog

/-!
# The calls a handler makes

A handler reads the clock, uses the two shared maps, calls Vault, the Solana provider and the audit store, publishes a result
and acknowledges its delivery. Each of these is one call; between two calls of one handler any other handler may run. An index
out of bounds is the call `panic`, which has no answer: the release profile aborts the process.
-/

namespace ChainBridge

open Interleave

/-- The calls of the handlers. -/
inductive Call where
  /-- `gridtokenx_telemetry::time::now`, in milliseconds. -/
  | now
  /-- `idempotency_cache.contains_key`. -/
  | cacheContains (key : String)
  /-- `idempotency_cache.insert`. -/
  | cacheInsert (key : String) (expiryMs : Nat)
  /-- `claim_or_replay` on `dedup_store`: one entry operation of the map, so one step. -/
  | claim (key : Option String) (correlationId : String) (nowMs : Nat)
  /-- `dedup_store.insert`. -/
  | dedupInsert (key : String) (rec : DedupRecord)
  /-- `dedup_store.remove`. -/
  | dedupRemove (key : String)
  /-- `BlockhashCache::get`. -/
  | blockhashGet
  /-- `SolanaProvider::get_latest_blockhash`. -/
  | getLatestBlockhash
  /-- `SolanaProvider::simulate_transaction`. -/
  | simulateTransaction (tx : Transaction)
  /-- `VaultProvider::sign_message`. -/
  | signMessage (keyName : String) (message : Bytes)
  /-- `VaultProvider::get_public_key`. -/
  | getPublicKey (keyName : String)
  /-- `SolanaProvider::send_transaction`. -/
  | sendTransaction (tx : Transaction)
  /-- `SolanaProvider::get_signature_statuses` of one signature. -/
  | getSignatureStatuses (sig : Signature)
  /-- `SolanaProvider::get_token_account_balance`. -/
  | getTokenAccountBalance (pubkey : Pubkey)
  /-- `AuditPort::append`. -/
  | auditAppend (entry : AuditEntry)
  /-- A result published to a reply subject. -/
  | publish (subject : String) (reply : Reply)
  /-- The delivery acknowledged. -/
  | ack (kind : AckKind)
  /-- An index out of bounds. -/
  | panic

/-- The answers of the calls. -/
@[reducible] def Call.Answer : Call → Type
  | .now => Nat
  | .cacheContains _ => Bool
  | .cacheInsert _ _ => Unit
  | .claim _ _ _ => Option TxResultMessage
  | .dedupInsert _ _ => Unit
  | .dedupRemove _ => Unit
  | .blockhashGet => Option (Hash × Nat)
  | .getLatestBlockhash => Except String (Hash × Nat)
  | .simulateTransaction _ => Except String SimulationResult
  | .signMessage _ _ => Except String Signature
  | .getPublicKey _ => Except String Pubkey
  | .sendTransaction _ => Except String Signature
  | .getSignatureStatuses _ => Except String (List (Option Json))
  | .getTokenAccountBalance _ => Except String Json
  | .auditAppend _ => Except String Int
  | .publish _ _ => Unit
  | .ack _ => Unit
  | .panic => Empty

/-- A handler, or a part of one: a program over these calls. -/
abbrev Handler (α : Type) : Type := Prog Call Call.Answer α

/-- A call with its answer. -/
abbrev CallEvent : Type := Event Call.Answer

/-- Read the clock. -/
def readClock : Handler Nat := Prog.perform Call.now

/-- Whether a correlation id (or the mark of its cancellation) is remembered. -/
def cacheContains (key : String) : Handler Bool := Prog.perform (Call.cacheContains key)

/-- Abort the process. -/
def abort {α : Type} : Handler α := .call .panic (fun e : Empty => e.elim)

/-- The index expression `xs[i]`. -/
def index {α : Type} (xs : List α) (i : Nat) : Handler α :=
  match xs[i]? with
  | some x => pure x
  | none => abort

/-- Publish a result. -/
def publish (subject : String) (reply : Reply) : Handler Unit := Prog.perform (Call.publish subject reply)

/-- Acknowledge the delivery. -/
def ack (kind : AckKind) : Handler Unit := Prog.perform (Call.ack kind)

end ChainBridge
