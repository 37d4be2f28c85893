import ChainBridge.Context

/-!
# Envelope authentication

`nats_consumer/auth.rs` and the SPIFFE extraction of `middleware.rs`: the verification of one envelope, exit by exit, and the
decision that enforces it.
-/

namespace ChainBridge

/-- The SPIFFE URI among the names of one extension: the first URI that starts with `spiffe://`. -/
def ParsedExtension.spiffeUri : ParsedExtension → Option String
  | .subjectAlternativeName names => names.findSome? fun
    | .uri s => if "spiffe://".isPrefixOf s then some s else none
    | .other => none
  | .other => none

/-- `extract_spiffe_id`: the first SPIFFE URI of the certificate's subject alternative names, extension by extension. -/
def extractSpiffeId (Γ : Ctx) (certDer : Bytes) : Option String :=
  match Γ.x509FromDer certDer with
  | .error _ => none
  | .ok cert => cert.extensions.findSome? ParsedExtension.spiffeUri

/-- `NatsAuthPolicy::new`: enforcement is forced off when there is no CA. -/
def NatsAuthPolicy.new (requireSigned : Bool) (caDer : Option Bytes) : NatsAuthPolicy :=
  if requireSigned && caDer.isNone then { requireSigned := false, caDer := none } else { requireSigned, caDer }

/-- `AuthCheck`: the outcome of verifying one envelope. -/
inductive AuthCheck where
  | verified
  | unsigned
  | failed (reason : String)

/-- The steps of `check_envelope_auth` once an auth and a CA are at hand: `.error` is the reason of a failure. -/
def checkSignedEnvelope (Γ : Ctx) (caDer : Bytes) (auth : EnvelopeAuth) (claimedIdentity : String) (canonical : Bytes)
    (nowSecs : Int) : Except String Unit := do
  if auth.scheme ≠ Γ.envelopeAuthSchemeV1 then
    throw ("unknown auth scheme: " ++ auth.scheme)
  let leafDer ← (Γ.parseX509Pem auth.certPem).mapError ("cert_pem is not valid PEM: " ++ ·)
  let leaf ← (Γ.x509FromDer leafDer).mapError ("cert_pem is not a valid certificate: " ++ ·)
  let now := (Γ.asn1FromTimestamp nowSecs).getD Γ.asn1Now
  if ¬(leaf.notBefore ≤ now ∧ now ≤ leaf.notAfter) then
    throw "certificate outside validity window"
  let ca ← (Γ.x509FromDer caDer).mapError ("configured CA unparseable: " ++ ·)
  if Γ.verifyCertSignature leaf ca.publicKey = false then
    throw "certificate not signed by the trusted CA"
  match extractSpiffeId Γ leafDer with
  | some san =>
    if san ≠ claimedIdentity then
      throw ("cert SPIFFE SAN '" ++ san ++ "' does not match claimed identity '" ++ claimedIdentity ++ "'")
  | none => throw "certificate has no SPIFFE URI SAN"
  let sigDer ← (Γ.base64Decode auth.signature).mapError ("signature is not valid base64: " ++ ·)
  Γ.verifyP256Signature leaf.publicKey canonical sigDer

/-- `check_envelope_auth`: an envelope without an auth, or a bridge without a CA, is unsigned. -/
def checkEnvelopeAuth (Γ : Ctx) (caDer : Option Bytes) (auth : Option EnvelopeAuth) (claimedIdentity : String)
    (canonical : Bytes) (nowSecs : Int) : AuthCheck :=
  match auth, caDer with
  | none, _ => .unsigned
  | some _, none => .unsigned
  | some auth, some caDer =>
    match checkSignedEnvelope Γ caDer auth claimedIdentity canonical nowSecs with
    | .ok () => .verified
    | .error reason => .failed reason

/-- `auth_decision`: a failed or unsigned envelope is rejected only when signing is required. -/
def authDecision (check : AuthCheck) (requireSigned : Bool) : Except String Unit :=
  if requireSigned = false then .ok ()
  else match check with
    | .verified => .ok ()
    | .unsigned => .error "unsigned envelope (signing required)"
    | .failed reason => .error reason

/-- The decision of `evaluate_envelope_auth` at a clock reading in milliseconds: `force_signed` requires a signature whatever the
policy. -/
def envelopeDecision (Γ : Ctx) (auth : Option EnvelopeAuth) (claimedIdentity : String) (canonical : Bytes)
    (forceSigned : Bool) (nowMs : Nat) : Except String Unit :=
  authDecision (checkEnvelopeAuth Γ Γ.authPolicy.caDer auth claimedIdentity canonical (nowMs / 1000 : Nat))
    (Γ.authPolicy.requireSigned || forceSigned)

end ChainBridge
