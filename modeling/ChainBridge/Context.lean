import ChainBridge.Messages

/-!
# What the bridge relies on

`Ctx` holds the code the bridge calls and does not contain: `solana_sdk` and `bincode`, SHA-256 and `serde_json`, the header
values of `http`, X.509 parsing, the role table, policy engine and envelope schema of `gridtokenx_blockchain_core`; and the
configuration fixed at start. Nothing is assumed of these functions here; a statement that needs something of one of them says
so as a hypothesis.
-/

namespace ChainBridge

/-- A name of a subject alternative name extension. -/
inductive GeneralName where
  | uri (s : String)
  | other

/-- A certificate extension, parsed. -/
inductive ParsedExtension where
  | subjectAlternativeName (names : List GeneralName)
  | other

/-- A parsed X.509 certificate: its extensions, its validity window in seconds, its public key and what its issuer signed. -/
structure X509Certificate where
  extensions : List ParsedExtension
  notBefore : Int
  notAfter : Int
  publicKey : Bytes
  tbsAndSignature : Bytes

/-- `NatsAuthPolicy`: whether envelopes must be signed, and the DER of the CA certificate. -/
structure NatsAuthPolicy where
  requireSigned : Bool
  caDer : Option Bytes

/-- The external functions and the configuration. -/
structure Ctx where
  /-- `bincode::deserialize::<Transaction>`. -/
  deserialize : Bytes → Except String Transaction
  /-- `bincode::serialize` of a transaction. -/
  serialize : Transaction → Except String Bytes
  /-- `Transaction::message_data`: the serialized message. -/
  messageData : Message → Bytes
  /-- `Signature::to_string`. -/
  signatureToString : Signature → String
  /-- `Signature::from_str`. -/
  signatureFromStr : String → Except String Signature
  /-- `Pubkey::from_str`. -/
  pubkeyFromStr : String → Except String Pubkey
  /-- `Message::new` with a payer. -/
  messageNew : List Instruction → Pubkey → Message
  /-- `ComputeBudgetInstruction::set_compute_unit_limit`. -/
  setComputeUnitLimit : Nat → Instruction
  /-- SHA-256; `hashv` hashes the concatenation of its slices. -/
  sha256 : Bytes → Vector UInt8 32
  /-- `serde_json::to_string` of an audit outcome. -/
  outcomeJson : AuditOutcome → Except String String
  /-- `HeaderValue::from_str`. -/
  headerFromStr : String → Option Bytes
  /-- `HeaderValue::to_str`. -/
  headerToStr : Bytes → Option String
  /-- `X509Certificate::from_der`. -/
  x509FromDer : Bytes → Except String X509Certificate
  /-- `parse_x509_pem`: the contents of a PEM block. -/
  parseX509Pem : String → Except String Bytes
  /-- `X509Certificate::verify_signature` under a public key. -/
  verifyCertSignature : X509Certificate → Bytes → Bool
  /-- `ASN1Time::from_timestamp`. -/
  asn1FromTimestamp : Int → Option Int
  /-- `ASN1Time::now`. -/
  asn1Now : Int
  /-- Standard base64 decoding. -/
  base64Decode : String → Except String Bytes
  /-- `verify_p256_signature`: the public key point, the signed bytes and the signature. -/
  verifyP256Signature : Bytes → Bytes → Bytes → Except String Unit
  /-- `ENVELOPE_AUTH_SCHEME_V1`. -/
  envelopeAuthSchemeV1 : String
  canonicalSubmitBytes : TxSubmitMessage → Bytes
  canonicalCancelBytes : TxCancelMessage → Bytes
  canonicalMintBytes : MintEnergyMessage → Bytes
  canonicalStatusBytes : TxStatusMessage → Bytes
  /-- `ServiceRole::from` a SPIFFE identity. -/
  serviceRole : SpiffeIdentity → ServiceRole
  /-- `ServiceRole::from_headers`, the dev-only header role. -/
  roleFromHeaders : List (String × Bytes) → ServiceRole
  /-- `ServiceRole::require_any`: the message of the refusal. -/
  requireAny : ServiceRole → List ServiceRole → Except String Unit
  /-- `PolicyEngine::validate_transaction`. -/
  validateTransaction : SpiffeIdentity → Transaction → Except String Unit
  /-- `energy_kwh_to_base_units`, on the bits of the float. -/
  energyKwhToBaseUnits : UInt64 → Except String Nat
  /-- `InstructionBuilder::build_generation_mint_instructions`: payer, recipient, amount, meter and window. -/
  buildGenerationMintInstructions : Pubkey → Pubkey → Nat → Vector UInt8 16 → Int64 → Except String (List Instruction)
  /-- `CHAIN_BRIDGE_VAULT_KEY_NAME`. -/
  transitKeyName : String
  /-- `CHAIN_BRIDGE_PRESIGN_DISABLE` is `true`. -/
  presignDisabled : Bool
  /-- `INFO` logging is enabled: the arguments of an `info!` are evaluated only then. -/
  infoEnabled : Bool
  authPolicy : NatsAuthPolicy

end ChainBridge
