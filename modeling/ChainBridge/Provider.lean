import ChainBridge.Lib.Handle
import ChainBridge.Service

/-!
# The simulation of the two providers

`api/provider.rs`: `simulate_transaction` of `RealSolanaProvider`, which asks an RPC node, and of `SurfpoolSolanaProvider`,
which clones the accounts of the instructions into LiteSVM, encodes the transaction again for it and simulates there. Each is a
program over the calls of its provider; the signing path runs on either of them. The other calls of the path go through.
-/

namespace ChainBridge

open Interleave

/-- An account as the RPC node has it and LiteSVM takes it. -/
structure Account where
  lamports : UInt64
  data : Bytes
  owner : Pubkey
  executable : Bool
  rentEpoch : UInt64
  deriving DecidableEq

/-- `VersionedTransaction`, as `From<Transaction>` makes it: with a legacy message. -/
structure VersionedTransaction where
  signatures : List Signature
  message : Message
  deriving DecidableEq

/-- `VersionedTransaction::from`. -/
def VersionedTransaction.ofTransaction (tx : Transaction) : VersionedTransaction :=
  { signatures := tx.signatures, message := tx.message }

/-- `FailedTransactionMetadata`: the failed simulation of LiteSVM, by its debug text. -/
structure FailedTransactionMetadata where
  debug : String

/-- The calls of the providers, and of the signing path that uses one. -/
inductive ProviderCall where
  /-- `RpcClient::simulate_transaction`. -/
  | rpcSimulate (tx : Transaction)
  /-- `RpcClient::get_account`. -/
  | rpcGetAccount (pubkey : Pubkey)
  /-- `LiteSVM::get_account`, and whether there is one. -/
  | svmHasAccount (pubkey : Pubkey)
  /-- `LiteSVM::set_account`. -/
  | svmSetAccount (pubkey : Pubkey) (account : Account)
  /-- `LiteSVM::simulate_transaction`: the compute units consumed, or the failure of the transaction. -/
  | svmSimulate (tx : VersionedTransaction)
  /-- A call of the signing path to something else. -/
  | other (c : Call)

/-- The answers of the calls. -/
@[reducible] def ProviderCall.Answer : ProviderCall → Type
  | .rpcSimulate _ => Except String SimulationResult
  | .rpcGetAccount _ => Except String Account
  | .svmHasAccount _ => Bool
  | .svmSetAccount _ _ => Except String Unit
  | .svmSimulate _ => Except FailedTransactionMetadata Nat
  | .other c => c.Answer

/-- A provider, or the signing path on one: a program over these calls. -/
abbrev ProviderProg (α : Type) : Type := Prog ProviderCall ProviderCall.Answer α

/-- A call with its answer. -/
abbrev ProviderEvent : Type := Event ProviderCall.Answer

/-- The context of the providers: with what the bridge relies on, the encodings of versioned transactions and whether Surfpool
has an RPC client to clone accounts with. -/
structure Providers extends Ctx where
  /-- `bincode::serialize` of a `solana_sdk` versioned transaction. -/
  serializeVersioned : VersionedTransaction → Except String Bytes
  /-- `bincode::deserialize` of a `solana_transaction` versioned transaction. -/
  deserializeVersioned : Bytes → Except String VersionedTransaction
  /-- `rpc_client` is set. -/
  cloning : Bool

/-- `RealSolanaProvider::simulate_transaction`, less its log. -/
def realSimulateTransaction (tx : Transaction) : ProviderProg (Except String SimulationResult) :=
  Prog.perform (ProviderCall.rpcSimulate tx)

/-- `ensure_account`: an account LiteSVM does not have is cloned, if there is a client to clone it with. -/
def ensureAccount (P : Providers) (pubkey : Pubkey) : ProviderProg (Except String Unit) := do
  if ← Prog.perform (ProviderCall.svmHasAccount pubkey) then return .ok ()
  else if P.cloning then
    match ← Prog.perform (ProviderCall.rpcGetAccount pubkey) with
    | .error e => return .error e
    | .ok account => Prog.perform (ProviderCall.svmSetAccount pubkey account)
  else return .ok ()

/-- The accounts the instructions name, in order; an index out of range names none. -/
def Message.instructionKeys (m : Message) : List Pubkey :=
  m.instructions.flatMap fun ix => ix.accounts.filterMap fun i => m.accountKeys[i.toNat]?

/-- The loop over them, which the first failure ends. -/
def ensureAccounts (P : Providers) : List Pubkey → ProviderProg (Except String Unit)
  | [] => return .ok ()
  | key :: keys => do
    match ← ensureAccount P key with
    | .error e => return .error e
    | .ok () => ensureAccounts P keys

/-- The transaction encoded for LiteSVM. -/
def Providers.reencode (P : Providers) (tx : Transaction) : Except String VersionedTransaction := do
  let bytes ← P.serializeVersioned (.ofTransaction tx)
  P.deserializeVersioned bytes

/-- `SurfpoolSolanaProvider::simulate_transaction`: a failed simulation is an error, like a failure to simulate at all. -/
def surfpoolSimulateTransaction (P : Providers) (tx : Transaction) : ProviderProg (Except String SimulationResult) := do
  match ← ensureAccounts P tx.message.instructionKeys with
  | .error e => return .error e
  | .ok () =>
    match P.reencode tx with
    | .error e => return .error e
    | .ok versionedTx =>
      match ← Prog.perform (ProviderCall.svmSimulate versionedTx) with
      | .error e => return .error e.debug
      | .ok units => return .ok { err := none, unitsConsumed := some units }

/-- The provider the service runs on: `SOLANA_NETWORK=simnet` selects Surfpool. -/
inductive ProviderKind where
  | real
  | surfpool
  deriving DecidableEq

/-- `simulate_transaction` of a provider. -/
def ProviderKind.simulateTransaction (P : Providers) : ProviderKind → Transaction → ProviderProg (Except String SimulationResult)
  | .real, tx => realSimulateTransaction tx
  | .surfpool, tx => surfpoolSimulateTransaction P tx

/-- The provider behind the calls of the signing path: it serves the simulation, the other calls go through. -/
def ProviderKind.serve (P : Providers) (kind : ProviderKind) : (c : Call) → ProviderProg c.Answer
  | .simulateTransaction tx => kind.simulateTransaction P tx
  | c => Prog.perform (ProviderCall.other c)

/-- `sign_and_submit` of a service that runs on a provider. -/
def ProviderKind.signAndSubmit (P : Providers) (kind : ProviderKind) (serializedTx : Bytes) (keyId : String)
    (identity : SpiffeIdentity) (correlationId : String) : ProviderProg (Except SignSubmitStage (Signature × Nat)) :=
  (ChainBridge.signAndSubmit P.toCtx serializedTx keyId identity correlationId).handle (kind.serve P)

end ChainBridge
