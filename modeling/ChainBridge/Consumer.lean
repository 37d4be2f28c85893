import ChainBridge.Auth
import ChainBridge.Service

/-!
# The NATS handlers

`nats_consumer/consumer.rs`: one program for each subject. A handler takes its payload parsed (or the parse error), passes its
gates in the order of the source, and ends with the acknowledgement of its delivery. Metrics and log lines are left out.
-/

namespace ChainBridge

open Interleave

/-- How old an envelope may be. -/
def stalenessMs : Nat := 55000

/-- How long a correlation id is remembered. -/
def correlationTtlMs : Nat := 60000

/-- The attempts `tokio_retry` makes after the first: the delays of `FixedInterval::from_millis(500).take(3)`. -/
def retryDelays : Nat := 3

/-- `evaluate_envelope_auth`: the decision at the current time. -/
def evaluateEnvelopeAuth (Γ : Ctx) (auth : Option EnvelopeAuth) (claimedIdentity : String) (canonical : Bytes)
    (forceSigned : Bool) : Handler (Except String Unit) := do
  let nowMs ← readClock
  return envelopeDecision Γ auth claimedIdentity canonical forceSigned nowMs

/-- `audit_rejection`: the audit entry of a refusal before the signing path, under the claimed identity. -/
def auditRejection (correlationId claimedIdentity action stage reason : String) : Handler Unit :=
  recordAudit correlationId ⟨claimedIdentity⟩ action (.rejected stage reason)

/-- A gate that refuses: audit entry, failure result, acknowledgement. -/
def refuse (correlationId claimedIdentity action stage reason : String) (subject : String) (reply : Reply) (kind : AckKind) :
    Handler Unit := do
  auditRejection correlationId claimedIdentity action stage reason
  publish subject reply
  ack kind

/-- The reason of a failed envelope authentication. -/
def authReason (reason : String) : String := "envelope authentication failed: " ++ reason

/-- `Retry::spawn`: run the action, and again after each delay while it fails. -/
def retrySpawn {ε α : Type} (action : Handler (Except ε α)) : Nat → Handler (Except ε α)
  | 0 => action
  | n + 1 => do
    match ← action with
    | .ok a => return .ok a
    | .error _ => retrySpawn action n

/-- The retried signing of `handle_submit`. -/
def submitWithRetry (Γ : Ctx) (envelope : TxSubmitMessage) : Handler (Except SignSubmitStage (Signature × Nat)) :=
  retrySpawn (signAndSubmit Γ envelope.serializedTx envelope.keyId ⟨envelope.serviceIdentity⟩ envelope.correlationId)
    retryDelays

/-- 5. Sign and submit, record the outcome in the two maps, publish, acknowledge. -/
def submitEffect (Γ : Ctx) (envelope : TxSubmitMessage) (key : Option String) (nowMs : Nat) : Handler Unit := do
  match ← submitWithRetry Γ envelope with
  | .ok (sig, slot) =>
    let _ ← Prog.perform (Call.cacheInsert envelope.correlationId (u64Add nowMs correlationTtlMs))
    if let some key := key then
      let _ ← Prog.perform (Call.dedupInsert key (doneAt nowMs (Γ.signatureToString sig) slot))
    publish envelope.replySubject (.tx
      { correlationId := envelope.correlationId, success := true, signature := some (Γ.signatureToString sig),
        error := none, slot := slot, deduplicated := false })
    ack .ack
  | .error stage =>
    if let some key := key then
      let _ ← Prog.perform (Call.dedupRemove key)
    publish envelope.replySubject (.tx (.failure envelope.correlationId stage.display))
    ack .ack

/-- 4 and 4.5. The checks that no retry can change, then the claim of the idempotency key. -/
def submitChecked (Γ : Ctx) (envelope : TxSubmitMessage) (nowMs : Nat) : Handler Unit := do
  let corr := envelope.correlationId
  let refuseWith (stage reason error : String) : Handler Unit :=
    refuse corr envelope.serviceIdentity "submit" stage reason envelope.replySubject (.tx (.failure corr error)) .term
  match Γ.deserialize envelope.serializedTx with
  | .error e =>
    publish envelope.replySubject (.tx (.failure corr ("Invalid transaction format: " ++ e)))
    ack .term
  | .ok tx =>
  match Γ.validateTransaction ⟨envelope.serviceIdentity⟩ tx with
  | .error e => refuseWith "policy" e ("Policy Engine rejection: " ++ e)
  | .ok () =>
  if envelope.keyId ≠ platformAdmin ∧ envelope.keyId ≠ "" then
    refuseWith "auth" ("Key ID not authorized: " ++ envelope.keyId) ("Key ID not authorized: " ++ envelope.keyId)
  else
    let key := dedupKey .submit envelope.idempotencyKey
    match ← Prog.perform (Call.claim key corr nowMs) with
    | some result =>
      publish envelope.replySubject (.tx result)
      ack .ack
    | none => submitEffect Γ envelope key nowMs

/-- `handle_submit`. -/
def handleSubmit (Γ : Ctx) (payload : Except String TxSubmitMessage) : Handler Unit := do
  match payload with
  | .error _ => ack .term
  | .ok envelope =>
  let corr := envelope.correlationId
  let refuseWith (stage reason error : String) (kind : AckKind) : Handler Unit :=
    refuse corr envelope.serviceIdentity "submit" stage reason envelope.replySubject (.tx (.failure corr error)) kind
  match ← evaluateEnvelopeAuth Γ envelope.auth envelope.serviceIdentity (Γ.canonicalSubmitBytes envelope) false with
  | .error reason => refuseWith "auth" (authReason reason) (authReason reason) .term
  | .ok () =>
  if Γ.serviceRole ⟨envelope.serviceIdentity⟩ = .unknown then
    refuseWith "rbac" "unknown service role" ("Unauthorised service identity: " ++ envelope.serviceIdentity) .term
  else if ← cacheContains corr then ack .ack
  else
    let nowMs ← readClock
    if nowMs - envelope.createdAtMs > stalenessMs then
      refuseWith "stale" ("stale envelope: age " ++ toString (nowMs - envelope.createdAtMs) ++ "ms")
        "Stale transaction — blockhash may be expired" .ack
    else submitChecked Γ envelope nowMs

/-- The cache key that marks a cancellation. -/
def cancelKey (correlationId : String) : String := "cancel:" ++ correlationId

/-- `handle_cancel`. -/
def handleCancel (Γ : Ctx) (payload : Except String TxCancelMessage) : Handler Unit := do
  match payload with
  | .error _ => ack .term
  | .ok envelope =>
  let corr := envelope.correlationId
  let refuseWith (stage reason error : String) (kind : AckKind) : Handler Unit :=
    refuse corr envelope.serviceIdentity "cancel" stage reason envelope.replySubject (.cancel (.failure corr error)) kind
  match ← evaluateEnvelopeAuth Γ envelope.auth envelope.serviceIdentity (Γ.canonicalCancelBytes envelope) false with
  | .error reason => refuseWith "auth" (authReason reason) (authReason reason) .term
  | .ok () =>
  if Γ.serviceRole ⟨envelope.serviceIdentity⟩ = .unknown then
    refuseWith "rbac" "unknown service role" ("Unauthorised service identity: " ++ envelope.serviceIdentity) .term
  else if ← cacheContains (cancelKey corr) then ack .ack
  else
    let nowMs ← readClock
    if nowMs - envelope.createdAtMs > stalenessMs then
      refuseWith "stale" "stale cancellation request" "Cancellation request stale" .ack
    else
      let _ ← Prog.perform (Call.cacheInsert (cancelKey corr) (u64Add nowMs correlationTtlMs))
      let _ ← Prog.perform (Call.cacheInsert corr (u64Add nowMs correlationTtlMs))
      publish envelope.replySubject (.cancel { correlationId := corr, success := true, error := none })
      ack .ack

/-- 5. Build, sign and submit the mint, record the outcome in the two maps, publish, acknowledge. -/
def mintEffect (Γ : Ctx) (envelope : MintEnergyMessage) (key : Option String) (nowMs : Nat) : Handler Unit := do
  match ← buildAndSubmitGenerationMint Γ envelope.recipientWallet envelope.energyKwh envelope.meterId
      envelope.windowStartMs ⟨envelope.serviceIdentity⟩ envelope.correlationId with
  | .ok (sig, slot) =>
    let _ ← Prog.perform (Call.cacheInsert envelope.correlationId (u64Add nowMs correlationTtlMs))
    if let some key := key then
      let _ ← Prog.perform (Call.dedupInsert key (doneAt nowMs (Γ.signatureToString sig) slot))
    publish envelope.replySubject (.mint
      { correlationId := envelope.correlationId, success := true, signature := some (Γ.signatureToString sig),
        error := none, slot := slot, deduplicated := false })
    ack .ack
  | .error e =>
    if let some key := key then
      let _ ← Prog.perform (Call.dedupRemove key)
    publish envelope.replySubject (.mint (.failure envelope.correlationId e))
    ack .ack

/-- `handle_mint`: the envelope must be signed whatever the policy. -/
def handleMint (Γ : Ctx) (payload : Except String MintEnergyMessage) : Handler Unit := do
  match payload with
  | .error _ => ack .term
  | .ok envelope =>
  let corr := envelope.correlationId
  let refuseWith (stage reason error : String) (kind : AckKind) : Handler Unit :=
    refuse corr envelope.serviceIdentity "mint" stage reason envelope.replySubject (.mint (.failure corr error)) kind
  match ← evaluateEnvelopeAuth Γ envelope.auth envelope.serviceIdentity (Γ.canonicalMintBytes envelope) true with
  | .error reason => refuseWith "auth" (authReason reason) (authReason reason) .term
  | .ok () =>
  match Γ.requireAny (Γ.serviceRole ⟨envelope.serviceIdentity⟩) [.aggregatorBridge, .meterService] with
  | .error _ =>
    refuseWith "rbac" "role not permitted to mint"
      ("Unauthorised service identity for mint: " ++ envelope.serviceIdentity) .term
  | .ok () =>
  if ← cacheContains corr then ack .ack
  else
    let nowMs ← readClock
    if nowMs - envelope.createdAtMs > stalenessMs then
      refuseWith "stale" ("stale envelope: age " ++ toString (nowMs - envelope.createdAtMs) ++ "ms")
        "Stale mint request" .ack
    else
      let key := dedupKey .mint envelope.idempotencyKey
      match ← Prog.perform (Call.claim key corr nowMs) with
      | some prior =>
        publish envelope.replySubject (.mint (mintReplay prior))
        ack .ack
      | none => mintEffect Γ envelope key nowMs

/-- `handle_status`: a read; it neither signs nor submits. -/
def handleStatus (Γ : Ctx) (payload : Except String TxStatusMessage) : Handler Unit := do
  match payload with
  | .error _ => ack .term
  | .ok envelope =>
  let corr := envelope.correlationId
  let refuseWith (stage reason error : String) : Handler Unit :=
    refuse corr envelope.serviceIdentity "status" stage reason envelope.replySubject (.status (.failure corr error)) .term
  match ← evaluateEnvelopeAuth Γ envelope.auth envelope.serviceIdentity (Γ.canonicalStatusBytes envelope) false with
  | .error reason => refuseWith "auth" (authReason reason) (authReason reason)
  | .ok () =>
  match Γ.requireAny (Γ.serviceRole ⟨envelope.serviceIdentity⟩) [.meterService, .admin] with
  | .error _ =>
    refuseWith "rbac" "role not permitted to query status"
      ("Unauthorised service identity for status: " ++ envelope.serviceIdentity)
  | .ok () =>
  let result ← signatureStatus Γ envelope.signature
  publish envelope.replySubject (.status (match result with
    | .ok (found, confirmed, status, slot) =>
      { correlationId := corr, found, confirmed, status, slot, error := none }
    | .error e => .failure corr e))
  ack .ack

/-- A message of the stream, by its subject, with its payload parsed. -/
inductive Delivery where
  | submit (payload : Except String TxSubmitMessage)
  | cancel (payload : Except String TxCancelMessage)
  | mint (payload : Except String MintEnergyMessage)
  | status (payload : Except String TxStatusMessage)
  | unknown (subject : String)

/-- The dispatch of `run_consumer`. -/
def dispatch (Γ : Ctx) : Delivery → Handler Unit
  | .submit payload => handleSubmit Γ payload
  | .cancel payload => handleCancel Γ payload
  | .mint payload => handleMint Γ payload
  | .status payload => handleStatus Γ payload
  | .unknown _ => ack .ack

end ChainBridge
