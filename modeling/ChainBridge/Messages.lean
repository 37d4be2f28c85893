import ChainBridge.Solana
import Mathlib.Algebra.Group.Nat.Defs

/-!
# Identities, envelopes and results

The message types of `gridtokenx_blockchain_core::rpc::nats_schema` with the fields the bridge reads or writes, the caller's
identity and role, and the outcome an audit entry records.
-/

namespace ChainBridge

/-- A workload identity: the text of a SPIFFE URI. -/
structure SpiffeIdentity where
  uri : String
  deriving DecidableEq

/-- The role an identity maps to. -/
inductive ServiceRole where
  | admin | apiGateway | iamService | tradingApi | tradingMatcher | aggregatorBridge | settlementService
  | reportingService | meterService | unknown
  deriving DecidableEq

/-- The signature a publisher attaches to an envelope. -/
structure EnvelopeAuth where
  scheme : String
  certPem : String
  signature : String
  deriving DecidableEq

/-- `chain.tx.submit`: a serialized transaction to sign and submit. -/
structure TxSubmitMessage where
  correlationId : String
  idempotencyKey : String
  replySubject : String
  serializedTx : Bytes
  keyId : String
  serviceIdentity : String
  createdAtMs : Nat
  auth : Option EnvelopeAuth
  deriving DecidableEq

/-- `chain.tx.cancel`: a request to cancel a correlation id. -/
structure TxCancelMessage where
  correlationId : String
  replySubject : String
  serviceIdentity : String
  createdAtMs : Nat
  auth : Option EnvelopeAuth
  deriving DecidableEq

/-- `chain.tx.mint`: a generation-mint intent. The energy is a 64-bit float, held by its bits. -/
structure MintEnergyMessage where
  correlationId : String
  idempotencyKey : String
  replySubject : String
  recipientWallet : String
  energyKwh : UInt64
  meterId : Vector UInt8 16
  windowStartMs : Int64
  serviceIdentity : String
  createdAtMs : Nat
  auth : Option EnvelopeAuth
  deriving DecidableEq

/-- `chain.tx.status`: a query for the confirmation status of a signature. -/
structure TxStatusMessage where
  correlationId : String
  replySubject : String
  signature : String
  serviceIdentity : String
  auth : Option EnvelopeAuth
  deriving DecidableEq

/-- The result of a submit. -/
structure TxResultMessage where
  correlationId : String
  success : Bool
  signature : Option String
  error : Option String
  slot : Nat
  deduplicated : Bool
  deriving DecidableEq

/-- The result of a cancel. -/
structure TxCancelResultMessage where
  correlationId : String
  success : Bool
  error : Option String
  deriving DecidableEq

/-- The result of a mint. -/
structure MintEnergyResultMessage where
  correlationId : String
  success : Bool
  signature : Option String
  error : Option String
  slot : Nat
  deduplicated : Bool
  deriving DecidableEq

/-- The result of a status query. -/
structure TxStatusResultMessage where
  correlationId : String
  found : Bool
  confirmed : Bool
  status : String
  slot : Nat
  error : Option String
  deriving DecidableEq

/-- A result published to a reply subject. -/
inductive Reply where
  | tx (r : TxResultMessage)
  | cancel (r : TxCancelResultMessage)
  | mint (r : MintEnergyResultMessage)
  | status (r : TxStatusResultMessage)
  deriving DecidableEq

/-- The failure result of a submit, not deduplicated. -/
def TxResultMessage.failure (correlationId error : String) : TxResultMessage :=
  { correlationId, success := false, signature := none, error := some error, slot := 0, deduplicated := false }

/-- The failure result of a cancel. -/
def TxCancelResultMessage.failure (correlationId error : String) : TxCancelResultMessage :=
  { correlationId, success := false, error := some error }

/-- The failure result of a mint, not deduplicated. -/
def MintEnergyResultMessage.failure (correlationId error : String) : MintEnergyResultMessage :=
  { correlationId, success := false, signature := none, error := some error, slot := 0, deduplicated := false }

/-- The failure result of a status query. -/
def TxStatusResultMessage.failure (correlationId error : String) : TxStatusResultMessage :=
  { correlationId, found := false, confirmed := false, status := "Error", slot := 0, error := some error }

/-- How a delivery is acknowledged: taken off the stream, or terminated so that it is never redelivered. -/
inductive AckKind where
  | ack | term
  deriving DecidableEq

/-- What happened to a mediated transaction at the audit point. -/
inductive AuditOutcome where
  | submitted (signature : String) (slot : Nat)
  | rejected (stage reason : String)
  deriving DecidableEq

/-- Addition of 64-bit unsigned integers in a release build: it wraps. -/
def u64Add (a b : Nat) : Nat := (a + b) % 2 ^ 64

theorem u64Add_eq {a b : Nat} (h : a + b < 2 ^ 64) : u64Add a b = a + b := Nat.mod_eq_of_lt h

end ChainBridge
