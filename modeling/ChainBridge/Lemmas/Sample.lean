import ChainBridge.History

/-!
# A concrete bridge

A context that computes, for the statements about fixed runs: `bincode` on transactions with short vectors, the identities of the
deployment, a policy that accepts everything, and one signature. A script is a list of steps the kernel runs.
-/

namespace ChainBridge

open Interleave

namespace SampleAux

/-- The length prefix of a short vector, below 128. -/
def compactLen (n : Nat) : Bytes := [UInt8.ofNat n]

/-- `bincode` of a compiled instruction. -/
def encodeInstruction (ix : CompiledInstruction) : Bytes :=
  ix.programIdIndex :: compactLen ix.accounts.length ++ ix.accounts ++ compactLen ix.data.length ++ ix.data

/-- `bincode` of a message. -/
def encodeMessage (m : Message) : Bytes :=
  [m.header.numRequiredSignatures, m.header.numReadonlySignedAccounts, m.header.numReadonlyUnsignedAccounts] ++
    compactLen m.accountKeys.length ++ m.accountKeys.flatMap (·.bytes.toList) ++ m.recentBlockhash.bytes.toList ++
    compactLen m.instructions.length ++ m.instructions.flatMap encodeInstruction

/-- `bincode` of a transaction. -/
def encodeTransaction (tx : Transaction) : Bytes :=
  compactLen tx.signatures.length ++ tx.signatures.flatMap (·.bytes.toList) ++ encodeMessage tx.message

/-- A hash, a key and a signature of one repeated byte. -/
def hashOf (b : UInt8) : Hash := ⟨Vector.replicate 32 b⟩

/-- The payer. -/
def payer : Pubkey := ⟨Vector.replicate 32 1⟩

/-- The signature Vault and the cluster answer with. -/
def sig : Signature := ⟨Vector.replicate 64 1⟩

/-- A transaction with one unsigned slot, as a client sends it. -/
def unsignedTx (blockhash : Hash) : Transaction :=
  { signatures := [Signature.default]
    message := { header := ⟨1, 0, 0⟩, accountKeys := [payer], recentBlockhash := blockhash, instructions := [] } }

/-- A transaction that brings its own blockhash. -/
def datedTx : Transaction := unsignedTx (hashOf 5)

/-- A transaction that leaves its blockhash to the bridge. -/
def undatedTx : Transaction := unsignedTx .default

/-- The identities of the deployment. -/
def roleOf (identity : SpiffeIdentity) : ServiceRole :=
  if identity.uri = "spiffe://gridtokenx.th/prod/trading-service/matcher" then .tradingMatcher
  else if identity.uri = "spiffe://gridtokenx.th/prod/iam-service" then .iamService
  else if identity.uri = "spiffe://gridtokenx.th/prod/admin" then .admin
  else .unknown

/-- The context, with the transactions it decodes. -/
def ctx (txs : List Transaction) : Ctx where
  deserialize := fun b => match txs.find? (fun tx => encodeTransaction tx = b) with
    | some tx => .ok tx
    | none => .error "io error: unexpected end of file"
  serialize := fun tx => .ok (encodeTransaction tx)
  messageData := encodeMessage
  signatureToString := fun s =>
    if s = sig then "2AXDGYSE4f2sz7tvMMzyHvUfcoJmxudvdhBcmiUSo6ijwfYmfZYsKRxboQMPh3R4kUhXRVdtSXFXMheka4Rc4P2" else ""
  signatureFromStr := fun _ => .error "failed to decode base58"
  pubkeyFromStr := fun _ => .error "Invalid"
  messageNew := fun _ payer => { header := ⟨1, 0, 0⟩, accountKeys := [payer], recentBlockhash := .default, instructions := [] }
  setComputeUnitLimit := fun _ => { programId := payer, accounts := [], data := [] }
  sha256 := fun _ => Vector.replicate 32 0
  outcomeJson := fun _ => .error "key must be a string"
  headerFromStr := fun _ => none
  headerToStr := fun _ => none
  x509FromDer := fun _ => .error "Nom"
  parseX509Pem := fun _ => .error "MissingHeader"
  verifyCertSignature := fun _ _ => false
  asn1FromTimestamp := some
  asn1Now := 0
  base64Decode := fun _ => .error "InvalidLength"
  verifyP256Signature := fun _ _ _ => .error "signature error"
  envelopeAuthSchemeV1 := "spiffe-p256-v1"
  canonicalSubmitBytes := fun _ => []
  canonicalCancelBytes := fun _ => []
  canonicalMintBytes := fun _ => []
  canonicalStatusBytes := fun _ => []
  serviceRole := roleOf
  roleFromHeaders := fun _ => .unknown
  requireAny := fun role roles => if role ∈ roles then .ok () else .error "role not permitted"
  validateTransaction := fun _ _ => .ok ()
  energyKwhToBaseUnits := fun _ => .error "energy out of range"
  buildGenerationMintInstructions := fun _ _ _ _ _ => .error "no signer"
  transitKeyName := "gridtokenx-bridge"
  presignDisabled := false
  infoEnabled := true
  authPolicy := { requireSigned := false, caDer := none }

/-- A submit of a transaction under an idempotency key. -/
def submitOf (tx : Transaction) (correlationId idempotencyKey : String) : TxSubmitMessage :=
  { correlationId, idempotencyKey, replySubject := "chain.tx.result", serializedTx := encodeTransaction tx,
    keyId := platformAdmin, serviceIdentity := "spiffe://gridtokenx.th/prod/trading-service/matcher", createdAtMs := 1000,
    auth := none }

/-! ## Audit entries -/

/-- The identity of the matcher. -/
def matcher : String := "spiffe://gridtokenx.th/prod/trading-service/matcher"

/-- The entry of a transaction that was submitted. -/
def submitted (correlationId identity : String) : AuditEntry :=
  .new correlationId identity "submit" (.submitted "sig" 7) 1700000000000

/-- The first of two entries that differ in the correlation id. -/
def first : AuditEntry := submitted "corr-1" matcher

/-- The second of them. -/
def second : AuditEntry := submitted "corr-2" matcher

/-- The first of two entries with the same bytes. -/
def early : AuditEntry := submitted "order-1" "0/matcher"

/-- The same bytes, the correlation id one byte longer. -/
def late : AuditEntry := submitted "order-10" "/matcher"

/-- The text of their outcome. -/
def submittedJson : String := "\x7b\"Submitted\":\x7b\"signature\":\"sig\",\"slot\":7\x7d\x7d"

/-- The bytes of a digest written as a number. -/
def digestOf (n : Nat) : Vector UInt8 32 := Vector.ofFn fun i => UInt8.ofNat (n / 256 ^ (31 - i.val))

/-- The bytes hashed for such an entry behind a link. -/
def hashedFor (prev : Option AuditHash) (correlationId identity : String) : Bytes :=
  prevBytes prev ++ strBytes correlationId ++ strBytes identity ++ strBytes "submit" ++ strBytes submittedJson ++
    leBytes 1700000000000

/-- The digest of the first entry, at the start of the chain. -/
def firstDigest : Vector UInt8 32 := digestOf 0xfc4691e578f4078e9f8f94fdd00ccd4c2f9f55329c709c31d3b1690e5eb4af2a

/-- The digest of the second entry, at the start of the chain. -/
def secondDigest : Vector UInt8 32 := digestOf 0x625400dcbdbc5228c5ef740639c473e2ae7294882ba6a9d978a80a5ca339cb57

/-- The context with the text of the outcome and the digests of what is hashed for the entries. -/
def auditCtx : Ctx :=
  { ctx [] with
    outcomeJson := fun o => if o = .submitted "sig" 7 then .ok submittedJson else .error "key must be a string"
    sha256 := fun b =>
      if b = hashedFor none "corr-1" matcher then firstDigest
      else if b = hashedFor none "corr-2" matcher then secondDigest
      else if b = hashedFor (some ⟨firstDigest⟩) "corr-2" matcher then
        digestOf 0xb896ab458d2093ddbfd37f5be2f1ea6211d18d3250194cfe866563e51e325110
      else if b = hashedFor (some ⟨secondDigest⟩) "corr-1" matcher then
        digestOf 0x6c8aca56598bb5a8cc8dc7ef5aaa804305dfa9fbcffebba980496d18471c95e8
      else if b = hashedFor none "order-1" "0/matcher" then
        digestOf 0xf7f721ed53d023b02851cc19497f88f3230d107ad923b6b934642184cf6c61c6
      else digestOf 0 }

/-! ## A signed mint -/

/-- Bytes written as a number, the first one highest. -/
def bytesOf (length n : Nat) : Bytes := (List.range length).map fun i => UInt8.ofNat (n / 256 ^ (length - 1 - i))

/-- The DER of the CA certificate. -/
def caCert : Bytes :=
  bytesOf 48 0x3082016d30820113a00302010202146048700b1f4e2c91afce1aec80277264a74e6dd8300a06082a8648ce3d04030230 ++
  bytesOf 48 0x0c310a300806035504030c0163301e170d3236313131383034333230385a170d3336313131353034333230385a300c31 ++
  bytesOf 48 0x0a300806035504030c01633059301306072a8648ce3d020106082a8648ce3d030107034200046eee64fd7ff9ec323faa ++
  bytesOf 48 0x7c7fde62004c82e12d837942e9c6c7777e71c7e4f57cd837110f1d5528ac62f5d699915cf018f3b8346016aa17b7e8c1 ++
  bytesOf 48 0x85fc340887b5a3533051301d0603551d0e04160414daf7d85db460eabe3f6d782691ad925c7ffed5a8301f0603551d23 ++
  bytesOf 48 0x041830168014daf7d85db460eabe3f6d782691ad925c7ffed5a8300f0603551d130101ff040530030101ff300a06082a ++
  bytesOf 48 0x8648ce3d04030203480030450221008b9a1c341f6351b8ca3db31981a1c8e4e0679918103fd08d85f4fd2a17a6c5a102 ++
  bytesOf 33 0x2078b63730317c9de9c8f19e32a2bce65627e2d4a882fd8505308f36c6f47dd892

/-- The DER of a certificate for `spiffe://gridtokenx.th/prod/meter-service`, signed by the CA. -/
def meterCert : Bytes :=
  bytesOf 48 0x3082017e30820125a003020102020102300a06082a8648ce3d040302300c310a300806035504030c0163301e170d3236 ++
  bytesOf 48 0x313131383034333230385a170d3237313131383034333230385a300c310a300806035504030c016d3059301306072a86 ++
  bytesOf 48 0x48ce3d020106082a8648ce3d03010703420004cec43641defebc1c286f26e812eb38a373d986ec954db214a7069fdb22 ++
  bytesOf 48 0x72091b88bd83c8353737d491db07c12145c5e06246d379ff1d970338dbb0b63c53d4a9a378307630340603551d11042d ++
  bytesOf 48 0x302b86297370696666653a2f2f67726964746f6b656e782e74682f70726f642f6d657465722d73657276696365301d06 ++
  bytesOf 48 0x03551d0e0416041473c4813c847efb224aef7f906278194c82041a66301f0603551d23041830168014daf7d85db460ea ++
  bytesOf 48 0xbe3f6d782691ad925c7ffed5a8300a06082a8648ce3d04030203470030440220049506c4703c8231acd96f7596d20877 ++
  bytesOf 48 0x74fd2862eecea94ccb75aac3d4d1d95802202fb6aeab53a645d4f64b31f0f85224bdb92a79e05d23a5f0b42c13c268e9 ++
  bytesOf 2 0x6e6b

/-- The certificate of the meter service as PEM text. -/
def meterPem : String :=
  "-----BEGIN CERTIFICATE-----\n" ++
  "MIIBfjCCASWgAwIBAgIBAjAKBggqhkjOPQQDAjAMMQowCAYDVQQDDAFjMB4XDTI2\n" ++
  "MTExODA0MzIwOFoXDTI3MTExODA0MzIwOFowDDEKMAgGA1UEAwwBbTBZMBMGByqG\n" ++
  "SM49AgEGCCqGSM49AwEHA0IABM7ENkHe/rwcKG8m6BLrOKNz2YbslU2yFKcGn9si\n" ++
  "cgkbiL2DyDU3N9SR2wfBIUXF4GJG03n/HZcDONuwtjxT1KmjeDB2MDQGA1UdEQQt\n" ++
  "MCuGKXNwaWZmZTovL2dyaWR0b2tlbngudGgvcHJvZC9tZXRlci1zZXJ2aWNlMB0G\n" ++
  "A1UdDgQWBBRzxIE8hH77Ikrvf5BieBlMggQaZjAfBgNVHSMEGDAWgBTa99hdtGDq\n" ++
  "vj9teCaRrZJcf/7VqDAKBggqhkjOPQQDAgNHADBEAiAElQbEcDyCMazZb3WW0gh3\n" ++
  "dP0oYu7OqUzLdarD1NHZWAIgL7auq1OmRdT2SzHw+FIkvbkqeeBdI6XwtCwTwmjp\n" ++
  "bms=\n" ++
  "-----END CERTIFICATE-----\n"

/-- The public key of the CA, an uncompressed point. -/
def caPoint : Bytes := (caCert.drop 133).take 65

/-- The public key of the meter service. -/
def meterPoint : Bytes := (meterCert.drop 114).take 65

/-- The certificates, parsed. -/
def parseCert (der : Bytes) : Except String X509Certificate :=
  if der = caCert then
    .ok { extensions := [.other, .other, .other], notBefore := 1794976328, notAfter := 2110336328, publicKey := caPoint
          tbsAndSignature := der }
  else if der = meterCert then
    .ok { extensions := [.subjectAlternativeName [.uri "spiffe://gridtokenx.th/prod/meter-service"], .other, .other]
          notBefore := 1794976328, notAfter := 1826512328, publicKey := meterPoint, tbsAndSignature := der }
  else .error "Nom"

/-- The bytes of an envelope that are signed, line by line. -/
def canonicalMint (envelope : MintEnergyMessage) : Bytes :=
  strBytes (envelope.correlationId ++ "\n" ++ envelope.idempotencyKey ++ "\n" ++ envelope.replySubject ++ "\n" ++
    envelope.recipientWallet ++ "\n" ++ envelope.serviceIdentity)

/-- A signature of the meter service. -/
def meterSignature : Bytes :=
  bytesOf 48 0x304502210089cc66892759a9340cfac12a70c0b11defb28e5995e1e556a5a60fe3912432f7022071f2dd4937bb69138b ++
  bytesOf 23 0xeeaf3549adc6192a9e676c487e393580a9d083609ef0f9

/-- Its base64 text. -/
def meterSignatureText : String :=
  "MEUCIQCJzGaJJ1mpNAz6wSpwwLEd77KOWZXh5Valpg/jkSQy9wIgcfLdSTe7aROL7q81Sa3GGSqeZ2xIfjk1gKnQg2Ce8Pk="

/-- A mint of 1.5 kWh, signed by the meter service. -/
def signedMint : MintEnergyMessage :=
  { correlationId := "mint-1", idempotencyKey := "gm:meter-7:0", replySubject := "chain.tx.mint.result"
    recipientWallet := "8qbHbw2BbbTHBW1sbeqakYXVKRQM8Ne7pLK7m6CVfeR", energyKwh := 0x3FF8000000000000
    meterId := Vector.replicate 16 7, windowStartMs := 1799999100000
    serviceIdentity := "spiffe://gridtokenx.th/prod/meter-service", createdAtMs := 1800000000000
    auth := some { scheme := "spiffe-p256-v1", certPem := meterPem, signature := meterSignatureText } }

/-- The message of instructions that name no account: the payer, then the programs. -/
def compile (instructions : List Instruction) (payer : Pubkey) : Message :=
  let programs := (instructions.map (·.programId)).eraseDups
  { header := ⟨1, 0, UInt8.ofNat programs.length⟩, accountKeys := payer :: programs, recentBlockhash := .default
    instructions := instructions.map fun ix => ⟨UInt8.ofNat (programs.idxOf ix.programId + 1), [], ix.data⟩ }

/-- The instruction that sets a limit of compute units. -/
def computeLimit (units : Nat) : Instruction :=
  { programId := ⟨Vector.ofFn fun i => (bytesOf 32 0x0306466fe5211732ffecadba72c39be7bc8ce5bbc5f7126b2c439b3a40000000).getD i 0⟩
    accounts := [], data := 2 :: (bytesOf 4 units).reverse }

/-- The instruction that mints an amount. -/
def mintInstruction (amount : Nat) : Instruction :=
  { programId := ⟨Vector.replicate 32 4⟩, accounts := [], data := (bytesOf 8 amount).reverse }

/-- The transaction of the mint of 1.5 kWh. -/
def mintTx : Transaction := .newUnsigned (compile [computeLimit 400000, mintInstruction 1500000000] payer)

/-- The context of a bridge with the CA configured, in the rollout in which other envelopes need not be signed. -/
def mintCtx : Ctx :=
  { ctx [mintTx] with
    pubkeyFromStr := fun s =>
      if s = "8qbHbw2BbbTHBW1sbeqakYXVKRQM8Ne7pLK7m6CVfeR" then .ok ⟨Vector.replicate 32 2⟩ else .error "Invalid"
    messageNew := compile
    setComputeUnitLimit := computeLimit
    x509FromDer := parseCert
    parseX509Pem := fun s => if s = meterPem then .ok meterCert else .error "MissingHeader"
    verifyCertSignature := fun cert key => decide (cert.tbsAndSignature = meterCert ∧ key = caPoint)
    base64Decode := fun s => if s = meterSignatureText then .ok meterSignature else .error "InvalidLength"
    verifyP256Signature := fun key message signature =>
      if key = meterPoint ∧ message = canonicalMint signedMint ∧ signature = meterSignature then .ok ()
      else .error "signature error"
    canonicalMintBytes := canonicalMint
    serviceRole := fun identity =>
      if identity.uri = "spiffe://gridtokenx.th/prod/meter-service" then .meterService else roleOf identity
    energyKwhToBaseUnits := fun bits => if bits = 0x3FF8000000000000 then .ok 1500000000 else .error "energy out of range"
    buildGenerationMintInstructions := fun _ _ amount _ _ => .ok [mintInstruction amount]
    authPolicy := { requireSigned := false, caDer := some caCert } }

/-! ## Scripts -/

/-- The answers of an environment in which everything succeeds. -/
def answer : (c : Call) → Option c.Answer
  | .now => some 0
  | .cacheContains _ => some false
  | .cacheInsert _ _ => some ()
  | .claim _ _ _ => some none
  | .dedupInsert _ _ => some ()
  | .dedupRemove _ => some ()
  | .blockhashGet => some none
  | .getLatestBlockhash => some (.ok (hashOf 7, 100))
  | .simulateTransaction _ => some (.ok { err := none, unitsConsumed := some 450 })
  | .signMessage _ _ => some (.ok sig)
  | .getPublicKey _ => some (.ok payer)
  | .sendTransaction _ => some (.ok sig)
  | .getSignatureStatuses _ => some (.ok [none])
  | .getTokenAccountBalance _ => some (.ok .null)
  | .auditAppend _ => some (.ok 1)
  | .publish _ _ => some ()
  | .ack _ => some ()
  | .panic => none

/-- The status of a transaction that landed without an error, at a commitment level. -/
def landedAt (level : String) : Json :=
  .obj [("slot", .posInt 99), ("confirmations", .posInt 1), ("err", .null), ("confirmationStatus", .str level)]

/-- The same at a clock reading, with a status for every signature. -/
def answerAt (nowMs : Nat) (status : Json) : (c : Call) → Option c.Answer
  | .now => some nowMs
  | .getSignatureStatuses _ => some (.ok [some status])
  | c => answer c

/-- Steps of the bridge asked for. -/
abbrev Script : Type := List (Pool.Action Call Call.Answer Delivery Move)

/-- Let a handler make its next calls. -/
def calls (t n : Nat) : Script := List.replicate n (.call t answer)

/-- A test for the steps of one session. -/
def sessionStep : BridgeLabel → Bool
  | .env .reconnect => false
  | _ => true

theorem inSession_of_sessionStep {l : BridgeLabel} (h : sessionStep l = true) : InSession l := by
  unfold InSession
  split
  · cases h
  · trivial

/-- A delivery of the repeated submit, or no delivery. -/
def isRepeated : BridgeLabel → Bool
  | .deliver _ (.submit (.ok envelope)) => decide (envelope = submitOf datedTx "c" "k")
  | .deliver _ _ => false
  | _ => true

theorem eq_of_isRepeated {t : Nat} {d : Delivery} (h : isRepeated (.deliver t d) = true) :
    d = .submit (.ok (submitOf datedTx "c" "k")) := by
  unfold isRepeated at h
  split at h
  · rename_i heq
    cases heq
    rw [of_decide_eq_true h]
  · cases h
  · rename_i hne
    exact (hne t d rfl).elim

end SampleAux

end ChainBridge
