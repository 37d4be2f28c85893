import ChainBridge.Calls

/-!
# The signing service

`api/service.rs`: the one signing path, the confirmation poll, the bridge-built generation mint and the status query. The
stages of `sign_and_submit` are named as the comments of the source number them.
-/

namespace ChainBridge

open Interleave

/-- `SignSubmitStage`: the stage of `sign_and_submit` that failed. -/
inductive SignSubmitStage where
  | invalidFormat (e : String)
  | policyRejected (reason : String)
  | blockhashRefreshFailed (e : String)
  | simulationRejected (reason : String)
  | vaultSigningFailed (e : String)
  | keyNotAuthorized (keyId : String)
  | submissionFailed (e : String)
  deriving DecidableEq

/-- The display text of a failed stage. -/
def SignSubmitStage.display : SignSubmitStage → String
  | .invalidFormat e => "Invalid transaction format: " ++ e
  | .policyRejected reason => "Policy Engine rejection: " ++ reason
  | .blockhashRefreshFailed e => "Failed to refresh blockhash: " ++ e
  | .simulationRejected reason => reason
  | .vaultSigningFailed e => "Vault Transit signing failed: " ++ e
  | .keyNotAuthorized keyId => "Key ID not authorized: " ++ keyId
  | .submissionFailed e => "Solana RPC submission failed: " ++ e

/-- The only key id that signs. -/
def platformAdmin : String := "platform_admin"

/-- `record_audit`: append one entry, best effort. -/
def recordAudit (correlationId : String) (identity : SpiffeIdentity) (action : String) (outcome : AuditOutcome) :
    Handler Unit := do
  let createdAtMs ← readClock
  let _ ← Prog.perform
    (Call.auditAppend (AuditEntry.new correlationId identity.uri action outcome (UInt64.ofNat createdAtMs)))

/-- The audit entry of a rejection inside the signing path. -/
def auditSignRejection (correlationId : String) (identity : SpiffeIdentity) (stage reason : String) : Handler Unit :=
  recordAudit correlationId identity "sign_and_submit" (.rejected stage reason)

/-- 1. The blockhash: only an empty one is set, from the cache or, if that is empty, from the provider. -/
def selectBlockhash (tx : Transaction) : Handler (Except SignSubmitStage Transaction) := do
  if tx.message.recentBlockhash = Hash.default then
    match ← Prog.perform Call.blockhashGet with
    | some (bh, _) => return .ok (tx.withBlockhash bh)
    | none =>
      match ← Prog.perform Call.getLatestBlockhash with
      | .ok (bh, _) => return .ok (tx.withBlockhash bh)
      | .error e => return .error (.blockhashRefreshFailed e)
  else return .ok tx

/-- 1b. The simulation before signing: a transaction error rejects, an RPC error is advisory. -/
def presignSimulate (Γ : Ctx) (identity : SpiffeIdentity) (correlationId : String) (tx : Transaction) :
    Handler (Except SignSubmitStage Unit) := do
  if Γ.presignDisabled then return .ok ()
  match ← Prog.perform (Call.simulateTransaction tx) with
  | .ok { err := some e, .. } =>
    let reason := "pre-sign simulation failed: Some(" ++ e ++ ")"
    auditSignRejection correlationId identity "simulation" reason
    return .error (.simulationRejected reason)
  | .ok { err := none, .. } => return .ok ()
  | .error _ => return .ok ()

/-- The index expressions `account_keys[i]` of the signer log, for each `i` of a list. -/
def logSigners (accountKeys : List Pubkey) : List Nat → Handler Unit
  | [] => return ()
  | i :: is => do
    let _ ← index accountKeys i
    logSigners accountKeys is

/-- 2. The log of the payer and, when several signatures are required, of the signers. -/
def logPayer (Γ : Ctx) (tx : Transaction) : Handler Unit := do
  if Γ.infoEnabled then
    let _ ← index tx.message.accountKeys 0
    if tx.message.numRequired > 1 then logSigners tx.message.accountKeys (List.range tx.message.numRequired)

/-- The signatures, filled up to the required number with the default signature. -/
def resizeSignatures (sigs : List Signature) (n : Nat) : List Signature :=
  if sigs.length < n then sigs ++ List.replicate (n - sigs.length) Signature.default else sigs

/-- 4. Attach the signature at slot 0: the index expression `signatures[0]`. -/
def attachSignature (tx : Transaction) (sig : Signature) : Handler Transaction :=
  match resizeSignatures tx.signatures tx.message.numRequired with
  | [] => abort
  | _ :: rest => return { tx with signatures := sig :: rest }

/-- 2 to 4. Sign the message data remotely and attach the signature. -/
def vaultSign (Γ : Ctx) (tx : Transaction) : Handler (Except SignSubmitStage Transaction) := do
  let messageData := Γ.messageData tx.message
  logPayer Γ tx
  match ← Prog.perform (Call.signMessage Γ.transitKeyName messageData) with
  | .error e => return .error (.vaultSigningFailed e)
  | .ok sig =>
    let tx ← attachSignature tx sig
    return .ok tx

/-- The `platform_admin` branch: blockhash, simulation, signature. -/
def signPlatformAdmin (Γ : Ctx) (identity : SpiffeIdentity) (correlationId : String) (tx : Transaction) :
    Handler (Except SignSubmitStage Transaction) := do
  match ← selectBlockhash tx with
  | .error stage => return .error stage
  | .ok tx =>
    match ← presignSimulate Γ identity correlationId tx with
    | .error stage => return .error stage
    | .ok () => vaultSign Γ tx

/-- The submission and its audit entry. -/
def sendSigned (Γ : Ctx) (identity : SpiffeIdentity) (correlationId : String) (tx : Transaction) :
    Handler (Except SignSubmitStage (Signature × Nat)) := do
  match ← Prog.perform (Call.sendTransaction tx) with
  | .ok sig =>
    recordAudit correlationId identity "sign_and_submit" (.submitted (Γ.signatureToString sig) 0)
    return .ok (sig, 0)
  | .error e =>
    auditSignRejection correlationId identity "submit" e
    return .error (.submissionFailed e)

/-- `sign_and_submit`: decode, check the policy, sign for `platform_admin`, submit. -/
def signAndSubmit (Γ : Ctx) (serializedTx : Bytes) (keyId : String) (identity : SpiffeIdentity) (correlationId : String) :
    Handler (Except SignSubmitStage (Signature × Nat)) := do
  match Γ.deserialize serializedTx with
  | .error e => return .error (.invalidFormat e)
  | .ok tx =>
    match Γ.validateTransaction identity tx with
    | .error reason =>
      auditSignRejection correlationId identity "policy" reason
      return .error (.policyRejected reason)
    | .ok () =>
      if keyId = platformAdmin then
        match ← signPlatformAdmin Γ identity correlationId tx with
        | .error stage => return .error stage
        | .ok tx => sendSigned Γ identity correlationId tx
      else if keyId ≠ "" then
        auditSignRejection correlationId identity "auth" ("Key ID not authorized: " ++ keyId)
        return .error (.keyNotAuthorized keyId)
      else sendSigned Γ identity correlationId tx

/-! ## The generation mint -/

/-- `ConfirmOutcome`: confirmed at a slot, landed with an error, or not confirmed within the poll window. -/
inductive ConfirmOutcome where
  | confirmed (slot : Nat)
  | errored
  | pending
  deriving DecidableEq

/-- What one answer of the status poll decides: the first entry, if it is present and has an error or a slot. -/
def pollVerdict : Except String (List (Option Json)) → Option ConfirmOutcome
  | .ok (some status :: _) =>
    if ((status.get? "err").map fun e => !e.isNull).getD false then some .errored
    else ((status.get? "slot").bind Json.asU64).map .confirmed
  | _ => none

/-- `resolve_confirmation_bounded`: at most `attempts` polls. -/
def resolveConfirmationBounded (sig : Signature) : Nat → Handler ConfirmOutcome
  | 0 => return .pending
  | n + 1 => do
    match pollVerdict (← Prog.perform (Call.getSignatureStatuses sig)) with
    | some verdict => return verdict
    | none => resolveConfirmationBounded sig n

/-- `resolve_confirmation`: 24 polls. -/
def resolveConfirmation (sig : Signature) : Handler ConfirmOutcome := resolveConfirmationBounded sig 24

/-- The unsigned mint transaction, serialized: the compute budget first, the payer in slot 0. -/
def mintTransaction (Γ : Ctx) (payer recipient : Pubkey) (amount : Nat) (meterId : Vector UInt8 16)
    (windowStartMs : Int64) : Except String Bytes := do
  let instructions ← (Γ.buildGenerationMintInstructions payer recipient amount meterId windowStartMs).mapError
    ("building generation-mint instructions: " ++ ·)
  let message := Γ.messageNew (Γ.setComputeUnitLimit 400000 :: instructions) payer
  (Γ.serialize (Transaction.newUnsigned message)).mapError ("serializing mint tx: " ++ ·)

/-- The error of a mint that landed with an on-chain error. -/
def mintErrored (sig : String) : String :=
  "generation mint " ++ sig ++ " landed with an on-chain error; not confirmed"

/-- The error of a mint that the poll did not confirm. -/
def mintPending (sig : String) : String :=
  "generation mint " ++ sig ++ " unconfirmed within window; outbox will retry"

/-- `build_and_submit_generation_mint`: build the transaction, sign and submit it, and report success only when the poll confirms
it. An error is the text the handler reports. -/
def buildAndSubmitGenerationMint (Γ : Ctx) (recipientWallet : String) (energyKwh : UInt64) (meterId : Vector UInt8 16)
    (windowStartMs : Int64) (identity : SpiffeIdentity) (correlationId : String) :
    Handler (Except String (Signature × Nat)) := do
  match Γ.energyKwhToBaseUnits energyKwh with
  | .error e => return .error e
  | .ok amount =>
  match Γ.pubkeyFromStr recipientWallet with
  | .error e => return .error ("invalid recipient wallet '" ++ recipientWallet ++ "': " ++ e)
  | .ok recipient =>
  match ← Prog.perform (Call.getPublicKey Γ.transitKeyName) with
  | .error e => return .error ("resolving bridge signer pubkey from Vault: " ++ e)
  | .ok payer =>
  match mintTransaction Γ payer recipient amount meterId windowStartMs with
  | .error e => return .error e
  | .ok serialized =>
  match ← signAndSubmit Γ serialized platformAdmin identity correlationId with
  | .error stage => return .error stage.display
  | .ok (sig, _) =>
  match ← resolveConfirmation sig with
  | .confirmed slot => return .ok (sig, slot)
  | .errored => return .error (mintErrored (Γ.signatureToString sig))
  | .pending => return .error (mintPending (Γ.signatureToString sig))

/-! ## The status query -/

/-- `status["key"]`: a missing field reads as null. -/
def Json.field (v : Json) (key : String) : Json := (v.get? key).getD .null

/-- `signature_status`: found, confirmed, the commitment text and the slot. -/
def signatureStatus (Γ : Ctx) (signature : String) : Handler (Except String (Bool × Bool × String × Nat)) := do
  match Γ.signatureFromStr signature with
  | .error e => return .error ("invalid signature: " ++ e)
  | .ok sig =>
    match ← Prog.perform (Call.getSignatureStatuses sig) with
    | .error e => return .error ("get_signature_statuses failed: " ++ e)
    | .ok (some status :: _) =>
      return .ok (true, (status.field "err").isNull, (status.field "confirmation_status").asStr.getD "processed",
        (status.field "slot").asU64.getD 0)
    | .ok _ => return .ok (false, false, "NotFound", 0)

end ChainBridge
