import ChainBridge.Grpc

/-!
# The gRPC reads of a status and of a token balance

`get_signature_status` and `get_token_account_balance` of `api/service.rs`, and the JSON that `api/provider.rs` hands them:
`SurfpoolSolanaProvider` writes the keys by hand, `RealSolanaProvider` gets the same keys from the Solana client types. A key a
reader does not find reads as null, and null as the reader's default.
-/

namespace ChainBridge

open Interleave

/-! ## What the providers write -/

/-- `TransactionConfirmationStatus`. -/
inductive CommitmentLevel where
  | processed
  | confirmed
  | finalized
  deriving DecidableEq

/-- The text of a commitment level. -/
def CommitmentLevel.text : CommitmentLevel → String
  | .processed => "processed"
  | .confirmed => "confirmed"
  | .finalized => "finalized"

/-- The status of a signature. -/
structure SignatureStatus where
  slot : UInt64
  confirmations : Option UInt64
  /-- The on-chain error as JSON, null when there is none. -/
  err : Json
  level : CommitmentLevel

/-- A status under the keys of `SurfpoolSolanaProvider::get_signature_statuses`. -/
def SignatureStatus.toJson (st : SignatureStatus) : Json :=
  .obj [("slot", .posInt st.slot), ("confirmations", (st.confirmations.map Json.posInt).getD .null), ("err", st.err),
    ("confirmationStatus", .str st.level.text)]

/-- The balance of a token account; the amount for display is the bits of a float. -/
structure TokenBalance where
  amount : String
  decimals : UInt8
  uiAmount : UInt64

/-- A balance under the keys of `SurfpoolSolanaProvider::get_token_account_balance`. -/
def TokenBalance.toJson (b : TokenBalance) : Json :=
  .obj [("amount", .str b.amount), ("decimals", .posInt b.decimals.toUInt64), ("uiAmount", .float b.uiAmount)]

/-! ## What the handlers read -/

/-- The roles that may read. -/
def readRoles : List ServiceRole :=
  [.apiGateway, .tradingApi, .tradingMatcher, .aggregatorBridge, .iamService, .settlementService, .reportingService, .admin]

/-- `GetSignatureStatusResponse`. -/
structure GetSignatureStatusResponse where
  confirmed : Bool
  status : String
  error : String
  deriving DecidableEq

/-- `GetTokenAccountBalanceResponse`; `ui_amount` is the bits of a float. -/
structure GetTokenAccountBalanceResponse where
  amount : String
  decimals : Nat
  uiAmount : UInt64
  deriving DecidableEq

/-- `get_signature_status`; `valueToString` is `Value::to_string` of `serde_json`. -/
def getSignatureStatus (Γ : Ctx) (valueToString : Json → String) (env : DevEnv) (headers : HeaderMap) (signature : String) :
    Handler (Except ConnectError GetSignatureStatusResponse) := do
  match Γ.requireAny (extractRole Γ env headers) readRoles with
  | .error msg => return .error ⟨.permissionDenied, msg⟩
  | .ok () =>
  match Γ.signatureFromStr signature with
  | .error e => return .error ⟨.invalidArgument, "Invalid signature: " ++ e⟩
  | .ok sig =>
  match ← Prog.perform (Call.getSignatureStatuses sig) with
  | .error _ => return .error ⟨.internal, "Failed to fetch signature status"⟩
  | .ok (some status :: _) =>
    return .ok
      { confirmed := (status.field "confirmations").asU64.isSome || (status.field "err").isNull
        status := (status.field "confirmation_status").asStr.getD "Unknown"
        error := if (status.field "err").isNull then "" else valueToString (status.field "err") }
  | .ok _ => return .ok { confirmed := false, status := "NotFound", error := "" }

/-- `get_token_account_balance`. -/
def getTokenAccountBalance (Γ : Ctx) (env : DevEnv) (headers : HeaderMap) (pubkey : String) :
    Handler (Except ConnectError GetTokenAccountBalanceResponse) := do
  match Γ.requireAny (extractRole Γ env headers) readRoles with
  | .error msg => return .error ⟨.permissionDenied, msg⟩
  | .ok () =>
  match Γ.pubkeyFromStr pubkey with
  | .error e => return .error ⟨.invalidArgument, "Invalid pubkey: " ++ e⟩
  | .ok pubkey =>
  match ← Prog.perform (Call.getTokenAccountBalance pubkey) with
  | .error _ => return .error ⟨.internal, "Failed to fetch token balance"⟩
  | .ok balance =>
    return .ok
      { amount := (balance.field "amount").asStr.getD "0"
        decimals := ((balance.field "decimals").asU64.getD 0) % 2 ^ 32
        uiAmount := (balance.field "ui_amount").asF64.getD 0 }

/-! ## The poll in the words of the readers -/

/-- The poll sees an error where the other readers see one: a missing error is none. -/
theorem err_eq (v : Json) : ((v.get? "err").map fun e => !e.isNull).getD false = !(v.field "err").isNull := by
  unfold Json.field
  cases v.get? "err" with
  | none => rfl
  | some e => rfl

/-- The poll sees the slot that the NATS reader sees. -/
theorem slot_eq (v : Json) : (v.get? "slot").bind Json.asU64 = (v.field "slot").asU64 := by
  unfold Json.field
  cases v.get? "slot" with
  | none => rfl
  | some e => rfl

/-- One poll on a value, in the words of the other readers. -/
theorem pollVerdict_status (v : Json) (rest : List (Option Json)) : pollVerdict (.ok (some v :: rest)) =
    if (v.field "err").isNull then (v.field "slot").asU64.map .confirmed else some .errored := by
  simp only [pollVerdict, err_eq, slot_eq]
  cases (v.field "err").isNull <;> rfl

end ChainBridge
