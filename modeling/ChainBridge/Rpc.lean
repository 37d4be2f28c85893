import ChainBridge.Provider
import ChainBridge.Reads
import ChainBridge.Session
import Mathlib.Data.List.Infix

/-!
# The gRPC service

The methods of `ChainBridgeService` in `api/service.rs` that `Grpc` and `Reads` leave out, the dispatch over all of them, and the
service as a system: a request starts a program that ends with its response. The methods call the provider in ways the NATS
handlers never do, so they are programs over their own calls, of which the calls of the handlers are one kind.
-/

namespace ChainBridge

open Interleave

/-! ## Calls -/

/-- `RpcPrioritizationFee`. -/
structure PrioritizationFee where
  slot : UInt64
  prioritizationFee : UInt64
  deriving DecidableEq

/-- `EpochInfo`. -/
structure EpochInfo where
  absoluteSlot : UInt64
  blockHeight : UInt64
  epoch : UInt64
  slotsInEpoch : UInt64
  slotIndex : UInt64
  transactionCount : Option UInt64
  deriving DecidableEq

/-- A response of the service. -/
inductive RpcResponse where
  | submitTransaction (response : SubmitTransactionResponse)
  | balance (lamports : UInt64)
  | accountData (found : Bool) (data : Bytes)
  | latestBlockhash (blockhash : String) (lastValidBlockHeight : Nat)
  | prioritizationFees (fees : List PrioritizationFee)
  | tokenAccountBalance (response : GetTokenAccountBalanceResponse)
  | signatureStatus (response : GetSignatureStatusResponse)
  | slot (slot : UInt64)
  | airdrop (success : Bool) (signature : String)
  | transactionDetails (found : Bool) (slot : Nat) (accountKeys : List String)
  | epochInfo (epoch slot : UInt64)

/-- The calls of the methods. -/
inductive RpcCall where
  /-- A call the NATS handlers make too. -/
  | shared (c : Call)
  /-- `SolanaProvider::get_balance`. -/
  | getBalance (pubkey : Pubkey)
  /-- `SolanaProvider::get_account`. -/
  | getAccount (pubkey : Pubkey)
  /-- `SolanaProvider::get_recent_prioritization_fees`. -/
  | getRecentPrioritizationFees (pubkeys : List Pubkey)
  /-- `SolanaProvider::get_slot`. -/
  | getSlot
  /-- `SolanaProvider::request_airdrop`. -/
  | requestAirdrop (pubkey : Pubkey) (lamports : UInt64)
  /-- `SolanaProvider::get_transaction`. -/
  | getTransaction (signature : Signature)
  /-- `SolanaProvider::get_epoch_info`. -/
  | getEpochInfo
  /-- The response, or the error, as the client gets it. -/
  | respond (result : Except ConnectError RpcResponse)

/-- The answers of the calls; an error of the provider is its display text. -/
@[reducible] def RpcCall.Answer : RpcCall → Type
  | .shared c => c.Answer
  | .getBalance _ => Except String UInt64
  | .getAccount _ => Except String Account
  | .getRecentPrioritizationFees _ => Except String (List PrioritizationFee)
  | .getSlot => Except String UInt64
  | .requestAirdrop _ _ => Except String Signature
  | .getTransaction _ => Except String Json
  | .getEpochInfo => Except String EpochInfo
  | .respond _ => Unit

/-- A method, or a part of one. -/
abbrev RpcProg (α : Type) : Type := Prog RpcCall RpcCall.Answer α

/-- A call with its answer. -/
abbrev RpcEvent : Type := Event RpcCall.Answer

/-- A part that makes calls of the NATS handlers only. -/
def share {α : Type} (p : Handler α) : RpcProg α := p.handle fun c => Prog.perform (RpcCall.shared c)

/-! ## Methods -/

/-- The roles that may read what the gateway has no use for. -/
def serviceRoles : List ServiceRole :=
  [.tradingApi, .tradingMatcher, .aggregatorBridge, .iamService, .settlementService, .reportingService, .admin]

/-- The roles that may request an airdrop. -/
def airdropRoles : List ServiceRole := [.admin, .iamService]

/-- The roles that may read the epoch. -/
def epochRoles : List ServiceRole := [.apiGateway, .tradingApi, .tradingMatcher, .aggregatorBridge, .iamService, .admin]

/-- The gate every method begins with: the role of the caller is one of those permitted. -/
def withRole {α : Type} (Γ : Ctx) (env : DevEnv) (headers : HeaderMap) (roles : List ServiceRole)
    (method : RpcProg (Except ConnectError α)) : RpcProg (Except ConnectError α) :=
  match Γ.requireAny (extractRole Γ env headers) roles with
  | .error msg => return .error ⟨.permissionDenied, msg⟩
  | .ok () => method

/-- An argument that parses, or `InvalidArgument`. -/
def withArgument {α β : Type} (parsed : Except String α) (what : String) (method : α → RpcProg (Except ConnectError β)) :
    RpcProg (Except ConnectError β) :=
  match parsed with
  | .error e => return .error ⟨.invalidArgument, what ++ e⟩
  | .ok a => method a

/-- `str::contains`. -/
def containsText (s pattern : String) : Bool := decide (pattern.toList <:+: s.toList)

section Methods

variable (Γ : Ctx) (env : DevEnv) (headers : HeaderMap)

/-- `get_balance`. -/
def getBalance (pubkey : String) : RpcProg (Except ConnectError RpcResponse) :=
  withRole Γ env headers readRoles <| withArgument (Γ.pubkeyFromStr pubkey) "Invalid pubkey: " fun pubkey => do
    match ← Prog.perform (RpcCall.getBalance pubkey) with
    | .ok lamports => return .ok (.balance lamports)
    | .error _ => return .error ⟨.internal, "Failed to fetch balance"⟩

/-- `get_account_data`: an error that names a missing account is no error. -/
def getAccountData (pubkey : String) : RpcProg (Except ConnectError RpcResponse) :=
  withRole Γ env headers readRoles <| withArgument (Γ.pubkeyFromStr pubkey) "Invalid pubkey: " fun pubkey => do
    match ← Prog.perform (RpcCall.getAccount pubkey) with
    | .ok account => return .ok (.accountData true account.data)
    | .error e =>
      if containsText e "AccountNotFound" then return .ok (.accountData false [])
      else return .error ⟨.internal, "Failed to fetch account data"⟩

/-- `get_latest_blockhash`; `hashToString` is `Hash::to_string`. -/
def getLatestBlockhash (hashToString : Hash → String) : RpcProg (Except ConnectError RpcResponse) :=
  withRole Γ env headers serviceRoles do
    match ← Prog.perform (RpcCall.shared .getLatestBlockhash) with
    | .ok (blockhash, lastValidBlockHeight) => return .ok (.latestBlockhash (hashToString blockhash) lastValidBlockHeight)
    | .error _ => return .error ⟨.internal, "Failed to fetch blockhash"⟩

/-- The account keys of a request, parsed; the first that does not parse is the error. -/
def parseAccountKeys : List String → Except String (List Pubkey)
  | [] => .ok []
  | k :: ks =>
    match Γ.pubkeyFromStr k with
    | .error e => .error ("Invalid account key '" ++ k ++ "': " ++ e)
    | .ok key => (parseAccountKeys ks).map (key :: ·)

/-- `get_recent_prioritization_fees`. -/
def getRecentPrioritizationFees (accountKeys : List String) : RpcProg (Except ConnectError RpcResponse) :=
  withRole Γ env headers serviceRoles <| withArgument (parseAccountKeys Γ accountKeys) "" fun accountKeys => do
    match ← Prog.perform (RpcCall.getRecentPrioritizationFees accountKeys) with
    | .ok fees => return .ok (.prioritizationFees fees)
    | .error _ => return .error ⟨.internal, "Failed to fetch prioritization fees"⟩

/-- `get_slot`. -/
def getSlot : RpcProg (Except ConnectError RpcResponse) :=
  withRole Γ env headers serviceRoles do
    match ← Prog.perform RpcCall.getSlot with
    | .ok slot => return .ok (.slot slot)
    | .error _ => return .error ⟨.internal, "Failed to fetch current slot"⟩

/-- `request_airdrop`. -/
def requestAirdrop (pubkey : String) (lamports : UInt64) : RpcProg (Except ConnectError RpcResponse) :=
  withRole Γ env headers airdropRoles <| withArgument (Γ.pubkeyFromStr pubkey) "Invalid pubkey: " fun pubkey => do
    match ← Prog.perform (RpcCall.requestAirdrop pubkey lamports) with
    | .ok sig => return .ok (.airdrop true (Γ.signatureToString sig))
    | .error _ => return .error ⟨.internal, "Airdrop request failed"⟩

/-- The account keys of a transaction, where it has an array of them; an item that is no string reads as an empty one. -/
def accountKeysOf (tx : Json) : List String :=
  match (((tx.field "transaction").field "message").field "accountKeys").asArray with
  | some accounts => accounts.map fun v => v.asStr.getD ""
  | none => []

/-- `get_transaction_details`: an error that names a missing transaction is no error. -/
def getTransactionDetails (signature : String) : RpcProg (Except ConnectError RpcResponse) :=
  withRole Γ env headers readRoles <| withArgument (Γ.signatureFromStr signature) "Invalid signature: " fun signature => do
    match ← Prog.perform (RpcCall.getTransaction signature) with
    | .ok tx => return .ok (.transactionDetails true ((tx.field "slot").asU64.getD 0) (accountKeysOf tx))
    | .error e =>
      if containsText e "TransactionNotFound" || containsText e "not found" then
        return .ok (.transactionDetails false 0 [])
      else return .error ⟨.internal, "Failed to fetch transaction details"⟩

/-- `get_epoch_info`. -/
def getEpochInfo : RpcProg (Except ConnectError RpcResponse) :=
  withRole Γ env headers epochRoles do
    match ← Prog.perform RpcCall.getEpochInfo with
    | .ok info => return .ok (.epochInfo info.epoch info.absoluteSlot)
    | .error _ => return .error ⟨.internal, "Failed to fetch epoch info"⟩

end Methods

/-! ## The service -/

/-- A request, by its method. -/
inductive RpcRequest where
  | submitTransaction (request : SubmitTransactionRequest)
  | getBalance (pubkey : String)
  | getAccountData (pubkey : String)
  | getLatestBlockhash
  | getRecentPrioritizationFees (accountKeys : List String)
  | getTokenAccountBalance (pubkey : String)
  | getSignatureStatus (signature : String)
  | getSlot
  | requestAirdrop (pubkey : String) (lamports : UInt64)
  | getTransactionDetails (signature : String)
  | getEpochInfo

/-- What the service relies on besides the context: the display of a hash and of a JSON value, and the dev modes. -/
structure RpcEnv where
  hashToString : Hash → String
  valueToString : Json → String
  dev : DevEnv

/-- The method of a request. -/
def serveRequest (Γ : Ctx) (R : RpcEnv) (headers : HeaderMap) :
    RpcRequest → RpcProg (Except ConnectError RpcResponse)
  | .submitTransaction request => do
    return (← share (submitTransaction Γ R.dev headers request)).map .submitTransaction
  | .getBalance pubkey => getBalance Γ R.dev headers pubkey
  | .getAccountData pubkey => getAccountData Γ R.dev headers pubkey
  | .getLatestBlockhash => getLatestBlockhash Γ R.dev headers R.hashToString
  | .getRecentPrioritizationFees accountKeys => getRecentPrioritizationFees Γ R.dev headers accountKeys
  | .getTokenAccountBalance pubkey => do
    return (← share (getTokenAccountBalance Γ R.dev headers pubkey)).map .tokenAccountBalance
  | .getSignatureStatus signature => do
    return (← share (getSignatureStatus Γ R.valueToString R.dev headers signature)).map .signatureStatus
  | .getSlot => getSlot Γ R.dev headers
  | .requestAirdrop pubkey lamports => requestAirdrop Γ R.dev headers pubkey lamports
  | .getTransactionDetails signature => getTransactionDetails Γ R.dev headers signature
  | .getEpochInfo => getEpochInfo Γ R.dev headers

/-- A request as it arrives: the peer certificates of a TLS connection, the headers the client sent, and the method. -/
structure RpcMessage where
  peerCerts : Option (List Bytes)
  headers : HeaderMap
  request : RpcRequest

/-- The headers the method gets, after the layers. -/
def RpcMessage.received (Γ : Ctx) (m : RpcMessage) : HeaderMap :=
  match m.peerCerts with
  | some certs => (receivedRequest Γ certs m.headers).headers
  | none => (peerCertServiceCall Γ (.new m.headers)).headers

/-- The program of a request: its method, then the response. -/
def RpcMessage.program (Γ : Ctx) (R : RpcEnv) (m : RpcMessage) : RpcProg Unit := do
  let result ← serveRequest Γ R (m.received Γ) m.request
  Prog.perform (RpcCall.respond result)

/-- The answers: the calls of the handlers are answered by the session, the others by the environment. -/
def Session.serveRpc (s : Session) : (c : RpcCall) → c.Answer → c.Answer × Session
  | .shared c, a => s.serve c a
  | .getBalance _, a => (a, s)
  | .getAccount _, a => (a, s)
  | .getRecentPrioritizationFees _, a => (a, s)
  | .getSlot, a => (a, s)
  | .requestAirdrop _ _, a => (a, s)
  | .getTransaction _, a => (a, s)
  | .getEpochInfo, a => (a, s)
  | .respond _, a => (a, s)

/-- The gRPC service: requests start methods. A client that goes away drops its method, which is a run in which the method makes
no more calls; nothing else does. -/
def rpcServer (Γ : Ctx) (R : RpcEnv) : System RpcCall RpcCall.Answer Session RpcMessage Empty where
  start := RpcMessage.program Γ R
  serve := Session.serveRpc
  env _ e := e.elim
  cuts e := e.elim

end ChainBridge
