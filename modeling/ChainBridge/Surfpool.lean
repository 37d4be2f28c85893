import ChainBridge.Lib.Locks
import ChainBridge.Provider
import ChainBridge.Rpc

/-!
# Surfpool under its lock

`SurfpoolSolanaProvider` of `api/provider.rs` keeps a LiteSVM behind a `RwLock`, and the calls of the provider run side by
side. Each method is a program that takes the guard in the order of the source, reads and writes the LiteSVM it guards, and
drops the guard where it goes out of scope. `ensure_account` holds its guard while it asks the RPC node; a method that ensures
an account and then uses it takes the guard anew, so other calls may come between. LiteSVM itself is a parameter.
-/

namespace ChainBridge

open Interleave

/-- What the provider uses of LiteSVM; an operation that fails may have changed it. -/
structure LiteSvm (σ : Type) where
  getAccount : σ → Pubkey → Option Account
  setAccount : σ → Pubkey → Account → Except String Unit × σ
  getBalance : σ → Pubkey → Option UInt64
  airdrop : σ → Pubkey → UInt64 → Except FailedTransactionMetadata Unit × σ
  simulateTransaction : σ → VersionedTransaction → Except FailedTransactionMetadata Nat
  sendTransaction : σ → VersionedTransaction → Except FailedTransactionMetadata Unit × σ
  latestBlockhash : σ → Hash

/-- The methods of `SolanaProvider`. -/
inductive SolanaCall where
  | simulateTransaction (tx : Transaction)
  | sendTransaction (tx : Transaction)
  | getLatestBlockhash
  | getBalance (pubkey : Pubkey)
  | getAccount (pubkey : Pubkey)
  | getRecentPrioritizationFees (pubkeys : List Pubkey)
  | getTokenAccountBalance (pubkey : Pubkey)
  | getSignatureStatuses (signatures : List Signature)
  | getSlot
  | requestAirdrop (pubkey : Pubkey) (lamports : UInt64)
  | getTransaction (signature : Signature)
  | getEpochInfo

/-- The answers. -/
@[reducible] def SolanaCall.Answer : SolanaCall → Type
  | .simulateTransaction _ => Except String SimulationResult
  | .sendTransaction _ => Except String Signature
  | .getLatestBlockhash => Except String (Hash × Nat)
  | .getBalance _ => Except String UInt64
  | .getAccount _ => Except String Account
  | .getRecentPrioritizationFees _ => Except String (List PrioritizationFee)
  | .getTokenAccountBalance _ => Except String Json
  | .getSignatureStatuses _ => Except String (List (Option Json))
  | .getSlot => Except String UInt64
  | .requestAirdrop _ _ => Except String Signature
  | .getTransaction _ => Except String Json
  | .getEpochInfo => Except String EpochInfo

/-- The lock. -/
inductive SvmLock where
  | svm
  deriving DecidableEq

instance : Subsingleton SvmLock := ⟨fun | .svm, .svm => rfl⟩

/-- There is no other lock to take while one is held. -/
instance : LT SvmLock := ⟨fun _ _ => False⟩

instance : WellFoundedGT SvmLock where
  wf := ⟨fun _ => .intro _ fun _ h => h.elim⟩

/-- What a method asks outside of the LiteSVM, or returns to its caller. -/
inductive SurfCall where
  /-- `RpcClient::get_account`. -/
  | rpcGetAccount (pubkey : Pubkey)
  /-- The method returns. -/
  | reply (c : SolanaCall) (answer : c.Answer)

/-- The answers. -/
@[reducible] def SurfCall.Answer : SurfCall → Type
  | .rpcGetAccount _ => Except String Account
  | .reply _ _ => Unit

/-- A method under the lock, or a part of one. -/
abbrev SurfTask (σ α : Type) : Type := LockProg (fun _ : SvmLock => σ) SurfCall.Answer α

section Methods

variable {σ : Type} (P : Providers) (S : LiteSvm σ)

namespace SurfTask

/-- `svm.write`. -/
def write : SurfTask σ Unit := Prog.perform (LockCall.acquire .svm .exclusive)

/-- `svm.read`. -/
def read : SurfTask σ Unit := Prog.perform (LockCall.acquire .svm .shared)

/-- The guard is dropped. -/
def unlock : SurfTask σ Unit := Prog.perform (LockCall.release .svm)

/-- What the guard dereferences to. -/
def deref : SurfTask σ σ := Prog.perform (LockCall.get SvmLock.svm)

/-- Change what the guard dereferences to. -/
def assign (svm : σ) : SurfTask σ Unit := Prog.perform (LockCall.set SvmLock.svm svm)

/-- `client.get_account`. -/
def rpcGetAccount (pubkey : Pubkey) : SurfTask σ (Except String Account) :=
  Prog.perform (LockCall.outside (SurfCall.rpcGetAccount pubkey))

end SurfTask

open SurfTask

/-- `ensure_account`: the guard is held over the question to the RPC node. -/
def ensureAccountTask (pubkey : Pubkey) : SurfTask σ (Except String Unit) := do
  write
  let svm ← deref
  if (S.getAccount svm pubkey).isSome then do
    unlock
    return .ok ()
  else if P.cloning then do
    match ← rpcGetAccount pubkey with
    | .error e =>
      unlock
      return .error e
    | .ok account =>
      assign (S.setAccount svm pubkey account).2
      unlock
      return (S.setAccount svm pubkey account).1
  else do
    unlock
    return .ok ()

/-- The loop over the accounts of a transaction, which the first failure ends. -/
def ensureAccountsTask : List Pubkey → SurfTask σ (Except String Unit)
  | [] => return .ok ()
  | key :: keys => do
    match ← ensureAccountTask P S key with
    | .error e => return .error e
    | .ok () => ensureAccountsTask keys

/-- `simulate_transaction`. -/
def simulateTransactionTask (tx : Transaction) : SurfTask σ (Except String SimulationResult) := do
  match ← ensureAccountsTask P S tx.message.instructionKeys with
  | .error e => return .error e
  | .ok () =>
    write
    match P.reencode tx with
    | .error e =>
      unlock
      return .error e
    | .ok versionedTx =>
      let svm ← deref
      unlock
      match S.simulateTransaction svm versionedTx with
      | .error e => return .error e.debug
      | .ok units => return .ok { err := none, unitsConsumed := some units }

/-- The balance below which a payer is funded, and what it gets. -/
def payerMinimum : UInt64 := 1000000000

def payerAirdrop : UInt64 := 10000000000

/-- The first part of `send_transaction`: the payer has SOL, or gets it. -/
def fundPayerTask (payer : Pubkey) : SurfTask σ (Except String Unit) := do
  write
  let svm ← deref
  if (S.getBalance svm payer).getD 0 < payerMinimum then do
    assign (S.airdrop svm payer payerAirdrop).2
    unlock
    return (S.airdrop svm payer payerAirdrop).1.mapError FailedTransactionMetadata.debug
  else do
    unlock
    return .ok ()

/-- The second part of `send_transaction`. -/
def sendFundedTask (tx : Transaction) : SurfTask σ (Except String Signature) := do
  write
  match P.reencode tx with
  | .error e =>
    unlock
    return .error e
  | .ok versionedTx =>
    let svm ← deref
    assign (S.sendTransaction svm versionedTx).2
    unlock
    match (S.sendTransaction svm versionedTx).1 with
    | .error e => return .error e.debug
    | .ok () => return .ok (tx.signatures.head?.getD .default)

/-- `send_transaction`: a transaction without keys has no payer to fund. -/
def sendTransactionTask (tx : Transaction) : SurfTask σ (Except String Signature) :=
  match tx.message.accountKeys.head? with
  | none => sendFundedTask P S tx
  | some payer => do
    match ← fundPayerTask S payer with
    | .error e => return .error e
    | .ok () => sendFundedTask P S tx

/-- `get_latest_blockhash`. -/
def getLatestBlockhashTask : SurfTask σ (Except String (Hash × Nat)) := do
  read
  let svm ← deref
  unlock
  return .ok (S.latestBlockhash svm, 1000)

/-- `get_balance`. -/
def getBalanceTask (pubkey : Pubkey) : SurfTask σ (Except String UInt64) := do
  match ← ensureAccountTask P S pubkey with
  | .error e => return .error e
  | .ok () =>
    read
    let svm ← deref
    unlock
    return .ok ((S.getBalance svm pubkey).getD 0)

/-- `get_account`. -/
def getAccountTask (pubkey : Pubkey) : SurfTask σ (Except String Account) := do
  match ← ensureAccountTask P S pubkey with
  | .error e => return .error e
  | .ok () =>
    read
    let svm ← deref
    unlock
    match S.getAccount svm pubkey with
    | none => return .error "Account not found"
    | some account => return .ok account

/-- `request_airdrop`. -/
def requestAirdropTask (pubkey : Pubkey) (lamports : UInt64) : SurfTask σ (Except String Signature) := do
  write
  let svm ← deref
  assign (S.airdrop svm pubkey lamports).2
  unlock
  match (S.airdrop svm pubkey lamports).1 with
  | .error e => return .error e.debug
  | .ok () => return .ok .default

/-- The status of every signature. -/
def finalizedStatus : SignatureStatus := { slot := 0, confirmations := some 1, err := .null, level := .finalized }

/-- The balance of every token account; `1.0` by its bits. -/
def surfpoolTokenBalance : TokenBalance := { amount := "1000000000", decimals := 9, uiAmount := 0x3ff0000000000000 }

/-- The epoch. -/
def surfpoolEpochInfo : EpochInfo :=
  { absoluteSlot := 100, blockHeight := 100, epoch := 1, slotsInEpoch := 432000, slotIndex := 100, transactionCount := some 1000 }

/-- The method of a call. -/
def SolanaCall.serve : (c : SolanaCall) → SurfTask σ c.Answer
  | .simulateTransaction tx => simulateTransactionTask P S tx
  | .sendTransaction tx => sendTransactionTask P S tx
  | .getLatestBlockhash => getLatestBlockhashTask S
  | .getBalance pubkey => getBalanceTask P S pubkey
  | .getAccount pubkey => getAccountTask P S pubkey
  | .getRecentPrioritizationFees _ => .ret (.ok [])
  | .getTokenAccountBalance _ => .ret (.ok surfpoolTokenBalance.toJson)
  | .getSignatureStatuses signatures => .ret (.ok (signatures.map fun _ => some finalizedStatus.toJson))
  | .getSlot => .ret (.ok 0)
  | .requestAirdrop pubkey lamports => requestAirdropTask S pubkey lamports
  | .getTransaction _ => .ret (.ok (.obj []))
  | .getEpochInfo => .ret (.ok surfpoolEpochInfo)

/-- A call, and its answer to the caller. -/
def SolanaCall.task (c : SolanaCall) : SurfTask σ Unit := do
  let answer ← c.serve P S
  Prog.perform (LockCall.outside (SurfCall.reply c answer))

end Methods

/-- The calls of the provider in a state of a run. -/
abbrev SurfTasks (σ : Type) : Type := Locked (fun _ : SvmLock => σ) SurfCall.Answer SolanaCall

end ChainBridge
