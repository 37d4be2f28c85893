import ChainBridge.Auth
import ChainBridge.Service

/-!
# The gRPC request path

`harness.rs`, `middleware.rs` and the handlers of `api/service.rs`: the acceptor puts the peer certificates of the connection into
the extensions of each request, the middleware derives the identity of the leaf certificate and writes it into a header, and
the handler reads the header back. The router between them hands on the headers as they are.
-/

namespace ChainBridge

open Interleave

/-- `HeaderMap`: lower-case names with their values. -/
abbrev HeaderMap : Type := List (String × Bytes)

/-- `HeaderMap::get`: the first value of a name. -/
def HeaderMap.get (headers : HeaderMap) (name : String) : Option Bytes := List.lookup name headers

/-- `HeaderMap::insert`: the values the name had are removed. -/
def HeaderMap.insert (headers : HeaderMap) (name : String) (value : Bytes) : HeaderMap :=
  List.filter (fun h => h.1 ≠ name) headers ++ [(name, value)]

/-- A request: its headers, and the extensions the layers add. -/
structure Request where
  headers : HeaderMap
  peerCerts : Option (List Bytes)
  verifiedSpiffeUri : Option String
  spiffeIdentity : Option SpiffeIdentity

/-- A request as a client sends it. -/
def Request.new (headers : HeaderMap) : Request :=
  { headers, peerCerts := none, verifiedSpiffeUri := none, spiffeIdentity := none }

/-- `ConnectionService::call`: the certificates of the connection go into the extensions. -/
def connectionServiceCall (certs : List Bytes) (req : Request) : Request := { req with peerCerts := some certs }

/-- The header that carries the identity. -/
def spiffeIdHeader : String := "z-gridtokenx-spiffe-id"

/-- The identity of the leaf certificate. -/
def leafSpiffeId (Γ : Ctx) (certs : List Bytes) : Option String := certs.head?.bind (extractSpiffeId Γ)

/-- `PeerCertService::call`: where the leaf has a SPIFFE URI, it goes into the extensions, and into the header if it parses as a
header value. -/
def peerCertServiceCall (Γ : Ctx) (req : Request) : Request :=
  match req.peerCerts.bind (leafSpiffeId Γ) with
  | none => req
  | some spiffeId =>
    { req with
      verifiedSpiffeUri := some spiffeId
      headers := match Γ.headerFromStr spiffeId with
        | some hv => req.headers.insert spiffeIdHeader hv
        | none => req.headers
      spiffeIdentity := some ⟨spiffeId⟩ }

/-- The request as the handler gets it. -/
def receivedRequest (Γ : Ctx) (certs : List Bytes) (headers : HeaderMap) : Request :=
  peerCertServiceCall Γ (connectionServiceCall certs (.new headers))

/-- The value of the identity header, where it is text. -/
def headerSpiffeId (Γ : Ctx) (headers : HeaderMap) : Option String := (headers.get spiffeIdHeader).bind Γ.headerToStr

/-- The two environment variables of the dev modes. -/
structure DevEnv where
  chainBridgeInsecure : Option String
  chainBridgeAllowHeaderAuth : Option String

/-- `CHAIN_BRIDGE_INSECURE` is `true`, in any case. -/
def DevEnv.insecure (env : DevEnv) : Bool := (env.chainBridgeInsecure.map fun v => v.toLower == "true").getD false

/-- `CHAIN_BRIDGE_ALLOW_HEADER_AUTH` is set. -/
def DevEnv.headerAuth (env : DevEnv) : Bool := env.chainBridgeAllowHeaderAuth.isSome

/-- `role_from`. -/
def roleFrom (Γ : Ctx) (headers : HeaderMap) (insecure headerAuth : Bool) : ServiceRole :=
  match headerSpiffeId Γ headers with
  | some spiffeId => Γ.serviceRole ⟨spiffeId⟩
  | none =>
    if insecure then .admin
    else if headerAuth then Γ.roleFromHeaders headers
    else .unknown

/-- `extract_role`. -/
def extractRole (Γ : Ctx) (env : DevEnv) (headers : HeaderMap) : ServiceRole :=
  roleFrom Γ headers env.insecure env.headerAuth

/-- The codes of the errors of the handlers. -/
inductive ErrorCode where
  | invalidArgument
  | permissionDenied
  | failedPrecondition
  | unavailable
  | internal
  deriving DecidableEq

/-- `ConnectError`. -/
structure ConnectError where
  code : ErrorCode
  message : String

/-- `SubmitTransactionRequest`. -/
structure SubmitTransactionRequest where
  serializedTransaction : Bytes
  keyId : String

/-- `SubmitTransactionResponse`. -/
structure SubmitTransactionResponse where
  success : Bool
  signature : String
  errorMessage : String
  slot : Nat

/-- The roles that may submit. -/
def submitRoles : List ServiceRole :=
  [.tradingApi, .tradingMatcher, .aggregatorBridge, .iamService, .settlementService, .admin]

/-- The error of a failed stage. -/
def SignSubmitStage.connectError : SignSubmitStage → ConnectError
  | .invalidFormat _ => ⟨.invalidArgument, "Invalid transaction format"⟩
  | .policyRejected _ => ⟨.permissionDenied, "Policy Engine rejection"⟩
  | .keyNotAuthorized _ => ⟨.permissionDenied, "Key ID not authorized"⟩
  | .simulationRejected _ => ⟨.failedPrecondition, "Transaction would fail simulation"⟩
  | .blockhashRefreshFailed _ => ⟨.unavailable, "Transaction submission failed"⟩
  | .vaultSigningFailed _ => ⟨.unavailable, "Transaction submission failed"⟩
  | .submissionFailed _ => ⟨.unavailable, "Transaction submission failed"⟩

/-- The identity `submit_transaction` signs for. -/
def submitIdentity (Γ : Ctx) (headers : HeaderMap) : SpiffeIdentity := ⟨(headerSpiffeId Γ headers).getD "unknown"⟩

/-- `submit_transaction`. -/
def submitTransaction (Γ : Ctx) (env : DevEnv) (headers : HeaderMap) (request : SubmitTransactionRequest) :
    Handler (Except ConnectError SubmitTransactionResponse) := do
  match Γ.requireAny (extractRole Γ env headers) submitRoles with
  | .error msg => return .error ⟨.permissionDenied, msg⟩
  | .ok () =>
    match ← signAndSubmit Γ request.serializedTransaction request.keyId (submitIdentity Γ headers) "" with
    | .ok (sig, slot) =>
      return .ok { success := true, signature := Γ.signatureToString sig, errorMessage := "", slot }
    | .error stage => return .error stage.connectError

/-! ## The error of the signing path as `anyhow` carries it -/

/-- `anyhow::Error`: an error of some type, a stage of the signing path or anything else. -/
inductive AnyhowError where
  | stage (s : SignSubmitStage)
  | other (message : String)

/-- `downcast_ref::<SignSubmitStage>`. -/
def AnyhowError.downcastRef : AnyhowError → Option SignSubmitStage
  | .stage s => some s
  | .other _ => none

/-- The error `submit_transaction` answers with: `Internal` for an error that is no stage. -/
def AnyhowError.connectError (e : AnyhowError) : ConnectError :=
  match e.downcastRef with
  | some s => s.connectError
  | none => ⟨.internal, "Transaction submission failed"⟩

/-- `sign_and_submit` with the error its callers get: every exit converts a stage into an `anyhow::Error`. -/
def signAndSubmitAnyhow (Γ : Ctx) (serializedTx : Bytes) (keyId : String) (identity : SpiffeIdentity)
    (correlationId : String) : Handler (Except AnyhowError (Signature × Nat)) := do
  return (← signAndSubmit Γ serializedTx keyId identity correlationId).mapError .stage

/-- `submit_transaction` with the downcast that finds the code. -/
def submitTransactionDowncast (Γ : Ctx) (env : DevEnv) (headers : HeaderMap) (request : SubmitTransactionRequest) :
    Handler (Except ConnectError SubmitTransactionResponse) := do
  match Γ.requireAny (extractRole Γ env headers) submitRoles with
  | .error msg => return .error ⟨.permissionDenied, msg⟩
  | .ok () =>
    match ← signAndSubmitAnyhow Γ request.serializedTransaction request.keyId (submitIdentity Γ headers) "" with
    | .ok (sig, slot) =>
      return .ok { success := true, signature := Γ.signatureToString sig, errorMessage := "", slot }
    | .error e => return .error e.connectError

end ChainBridge
