import ChainBridge.Grpc
import ChainBridge.Lemmas.Sample

/-!
# Whose identity a gRPC request carries

The handler reads the identity from a header that the middleware writes from the leaf certificate. The middleware writes it only
when the leaf has a SPIFFE URI that parses as a header value, and never removes the header of the client: without such a URI
the identity is the client's to choose.
-/

namespace ChainBridge

/-- The role of the leaf certificate. -/
def certRole (Γ : Ctx) (certs : List Bytes) : ServiceRole :=
  match leafSpiffeId Γ certs with
  | some spiffeId => Γ.serviceRole ⟨spiffeId⟩
  | none => .unknown

/-- The identity `submit_transaction` hands to `sign_and_submit`, when the role may submit. -/
def handedIdentity (Γ : Ctx) (env : DevEnv) (headers : HeaderMap) : Option SpiffeIdentity :=
  match Γ.requireAny (extractRole Γ env headers) submitRoles with
  | .ok () => some (submitIdentity Γ headers)
  | .error _ => none

/-- On a connection with these certificates, the role and the identity of a request do not depend on the headers the client
sends: they are those of the leaf certificate, and `Unknown` and none without a SPIFFE URI in it. -/
structure IdentityFromCert (Γ : Ctx) (env : DevEnv) (certs : List Bytes) : Prop where
  sameRole : ∀ headers headers', extractRole Γ env (receivedRequest Γ certs headers).headers =
    extractRole Γ env (receivedRequest Γ certs headers').headers
  sameIdentity : ∀ headers headers', handedIdentity Γ env (receivedRequest Γ certs headers).headers =
    handedIdentity Γ env (receivedRequest Γ certs headers').headers
  role : ∀ headers, extractRole Γ env (receivedRequest Γ certs headers).headers = certRole Γ certs
  identity : ∀ headers id, handedIdentity Γ env (receivedRequest Γ certs headers).headers = some id →
    leafSpiffeId Γ certs = some id.uri

/-- Some header value is the text of an identity with a role. -/
def Forgeable (Γ : Ctx) : Prop := ∃ v spiffeId, Γ.headerToStr v = some spiffeId ∧ Γ.serviceRole ⟨spiffeId⟩ ≠ .unknown

/-- The leaf has a SPIFFE URI, and the header carries it to the handler; or there is nothing to gain: the certificate has no role
and, where the header of the client gets through, no header value has one. -/
def HeaderBound (Γ : Ctx) (certs : List Bytes) : Prop :=
  match leafSpiffeId Γ certs with
  | none => ¬Forgeable Γ
  | some spiffeId =>
    match Γ.headerFromStr spiffeId with
    | none => Γ.serviceRole ⟨spiffeId⟩ = .unknown ∧ ¬Forgeable Γ
    | some v => Γ.headerToStr v = some spiffeId ∨ Γ.serviceRole ⟨spiffeId⟩ = .unknown

namespace IdentityAux

variable {Γ : Ctx} {env : DevEnv} {certs : List Bytes}

/-! ## The header -/

theorem get_insert (headers : HeaderMap) (name : String) (v : Bytes) : (headers.insert name v).get name = some v := by
  unfold HeaderMap.insert HeaderMap.get
  induction headers with
  | nil => simp
  | cons h headers ih =>
    by_cases hname : h.1 = name
    · rw [List.filter_cons_of_neg (by simpa using hname)]
      exact ih
    · rw [List.filter_cons_of_pos (by simpa using hname), List.cons_append, List.lookup_cons]
      have hne : (name == h.1) = false := by simpa using fun he => hname he.symm
      simp only [hne]
      exact ih

/-- The header the handler reads is the one written for the leaf, or the client's where none is written. -/
theorem headerSpiffeId_received (headers : HeaderMap) :
    headerSpiffeId Γ (receivedRequest Γ certs headers).headers =
      match (leafSpiffeId Γ certs).bind Γ.headerFromStr with
      | some v => Γ.headerToStr v
      | none => headerSpiffeId Γ headers := by
  unfold receivedRequest peerCertServiceCall connectionServiceCall Request.new
  simp only [Option.bind_some]
  cases leafSpiffeId Γ certs with
  | none => rfl
  | some spiffeId =>
    cases hv : Γ.headerFromStr spiffeId with
    | none => simp only [hv, Option.bind_some]
    | some v => simp only [hv, Option.bind_some, headerSpiffeId, get_insert]

/-- The header of a client that sends one value for it. -/
theorem headerSpiffeId_single (v : Bytes) : headerSpiffeId Γ [(spiffeIdHeader, v)] = Γ.headerToStr v := rfl

/-! ## With both dev modes off -/

section Production

variable (hinsecure : env.insecure = false) (hheader : env.headerAuth = false)
include hinsecure hheader

theorem extractRole_eq (headers : HeaderMap) : extractRole Γ env headers =
    match headerSpiffeId Γ headers with
    | some spiffeId => Γ.serviceRole ⟨spiffeId⟩
    | none => .unknown := by
  unfold extractRole roleFrom
  rw [hinsecure, hheader]
  rfl

/-- Where no header value has a role, no request has one. -/
theorem extractRole_of_not_forgeable (h : ¬Forgeable Γ) (headers : HeaderMap) : extractRole Γ env headers = .unknown := by
  rw [extractRole_eq hinsecure hheader]
  cases hs : headerSpiffeId Γ headers with
  | none => rfl
  | some spiffeId =>
    obtain ⟨v, -, hv⟩ := Option.bind_eq_some_iff.mp hs
    exact Classical.byContradiction fun hrole => h ⟨v, spiffeId, hv, hrole⟩

/-- A client that can forge a role where its header gets through. -/
theorem exists_role_ne_unknown (hwritten : (leafSpiffeId Γ certs).bind Γ.headerFromStr = none) (h : Forgeable Γ) :
    ∃ headers, extractRole Γ env (receivedRequest Γ certs headers).headers ≠ .unknown := by
  obtain ⟨v, spiffeId, hv, hrole⟩ := h
  refine ⟨[(spiffeIdHeader, v)], ?_⟩
  rw [extractRole_eq hinsecure hheader, headerSpiffeId_received, hwritten]
  simp only [headerSpiffeId_single, hv]
  exact hrole

/-- A connection whose identity header reaches the handler. -/
theorem identityFromCert_of_read {spiffeId : String} (hleaf : leafSpiffeId Γ certs = some spiffeId) {v : Bytes}
    (hwritten : (leafSpiffeId Γ certs).bind Γ.headerFromStr = some v) (hread : Γ.headerToStr v = some spiffeId) :
    IdentityFromCert Γ env certs := by
  have hid : ∀ headers, headerSpiffeId Γ (receivedRequest Γ certs headers).headers = some spiffeId := by
    intro headers
    rw [headerSpiffeId_received, hwritten]
    exact hread
  have hrole : ∀ headers, extractRole Γ env (receivedRequest Γ certs headers).headers = Γ.serviceRole ⟨spiffeId⟩ := by
    intro headers
    rw [extractRole_eq hinsecure hheader, hid headers]
  refine ⟨fun headers headers' => ?_, fun headers headers' => ?_, fun headers => ?_, fun headers id hhanded => ?_⟩
  · rw [hrole headers, hrole headers']
  · unfold handedIdentity submitIdentity
    rw [hrole headers, hrole headers', hid headers, hid headers']
  · rw [hrole headers, certRole, hleaf]
  · unfold handedIdentity submitIdentity at hhanded
    rw [hrole headers, hid headers] at hhanded
    split at hhanded
    · cases hhanded
      exact hleaf
    · cases hhanded

end Production

variable (hrequire : ∀ role roles, Γ.requireAny role roles = .ok () → role ∈ roles)
include hrequire

/-- An unknown role submits nothing. -/
theorem handedIdentity_of_unknown {headers : HeaderMap} (h : extractRole Γ env headers = .unknown) :
    handedIdentity Γ env headers = none := by
  unfold handedIdentity
  rw [h]
  cases hr : Γ.requireAny .unknown submitRoles with
  | error e => rfl
  | ok u => exact absurd (hrequire _ _ hr) (by decide)

/-- A connection on which no request has a role. -/
theorem identityFromCert_of_unknown (hcert : certRole Γ certs = .unknown)
    (h : ∀ headers, extractRole Γ env (receivedRequest Γ certs headers).headers = .unknown) :
    IdentityFromCert Γ env certs where
  sameRole := fun headers headers' => (h headers).trans (h headers').symm
  sameIdentity := fun headers headers' =>
    (handedIdentity_of_unknown hrequire (h headers)).trans (handedIdentity_of_unknown hrequire (h headers')).symm
  role := fun headers => (h headers).trans hcert.symm
  identity := fun headers id hid => by
    rw [handedIdentity_of_unknown hrequire (h headers)] at hid
    cases hid

end IdentityAux

open IdentityAux

/-- `submit_transaction` signs for the identity it hands on, and makes no call when it hands on none. -/
theorem submitTransaction_eq (Γ : Ctx) (env : DevEnv) (headers : HeaderMap) (request : SubmitTransactionRequest) :
    (∃ msg, handedIdentity Γ env headers = none ∧
      submitTransaction Γ env headers request = pure (.error ⟨.permissionDenied, msg⟩)) ∨
    ∃ id, handedIdentity Γ env headers = some id ∧ submitTransaction Γ env headers request = (do
      match ← signAndSubmit Γ request.serializedTransaction request.keyId id "" with
      | .ok (sig, slot) =>
        return .ok { success := true, signature := Γ.signatureToString sig, errorMessage := "", slot }
      | .error stage => return .error stage.connectError) := by
  unfold handedIdentity submitTransaction
  cases Γ.requireAny (extractRole Γ env headers) submitRoles with
  | error msg => exact Or.inl ⟨msg, rfl, rfl⟩
  | ok u => exact Or.inr ⟨submitIdentity Γ headers, rfl, rfl⟩

/-- With both dev modes off, the identity of a request is that of the leaf certificate, whatever headers the client sends, exactly
when the middleware overwrites the header with a value the handler can read, or no role is at stake. -/
theorem identityFromCert_iff (Γ : Ctx) (env : DevEnv) (certs : List Bytes) (hinsecure : env.insecure = false)
    (hheader : env.headerAuth = false)
    (hvalue : ∀ s v, Γ.headerFromStr s = some v → Γ.headerToStr v = some s ∨ Γ.headerToStr v = none)
    (hrequire : ∀ role roles, Γ.requireAny role roles = .ok () → role ∈ roles) :
    IdentityFromCert Γ env certs ↔ HeaderBound Γ certs := by
  have hrole := fun headers => extractRole_eq (Γ := Γ) hinsecure hheader (receivedRequest Γ certs headers).headers
  simp only [headerSpiffeId_received] at hrole
  unfold HeaderBound
  cases hleaf : leafSpiffeId Γ certs with
  | none =>
    have hcert : certRole Γ certs = .unknown := by rw [certRole, hleaf]
    have hwritten : (leafSpiffeId Γ certs).bind Γ.headerFromStr = none := by rw [hleaf, Option.bind_none]
    constructor
    · intro h hforge
      obtain ⟨headers, hne⟩ := exists_role_ne_unknown hinsecure hheader hwritten hforge
      exact hne ((h.role headers).trans hcert)
    · intro h
      exact identityFromCert_of_unknown hrequire hcert fun headers => extractRole_of_not_forgeable hinsecure hheader h _
  | some spiffeId =>
    have hcert : certRole Γ certs = Γ.serviceRole ⟨spiffeId⟩ := by rw [certRole, hleaf]
    have hwritten : (leafSpiffeId Γ certs).bind Γ.headerFromStr = Γ.headerFromStr spiffeId := by
      rw [hleaf, Option.bind_some]
    rw [hwritten] at hrole
    cases hv : Γ.headerFromStr spiffeId with
    | none =>
      simp only [hv] at hrole ⊢
      constructor
      · intro h
        -- a request without the header has no role
        have hunknown : Γ.serviceRole ⟨spiffeId⟩ = .unknown := by
          rw [← hcert, ← h.role [], hrole]
          rfl
        refine ⟨hunknown, fun hforge => ?_⟩
        obtain ⟨headers, hne⟩ := exists_role_ne_unknown hinsecure hheader (hwritten.trans hv) hforge
        exact hne ((h.role headers).trans (hcert.trans hunknown))
      · rintro ⟨hunknown, h⟩
        exact identityFromCert_of_unknown hrequire (hcert.trans hunknown)
          fun headers => extractRole_of_not_forgeable hinsecure hheader h _
    | some v =>
      simp only [hv] at hrole ⊢
      rcases hvalue spiffeId v hv with hread | hread
      · refine iff_of_true ?_ (Or.inl hread)
        exact identityFromCert_of_read hinsecure hheader hleaf (hwritten.trans hv) hread
      · simp only [hread] at hrole
        constructor
        · intro h
          exact Or.inr (by rw [← hcert, ← h.role [], hrole])
        · rintro (hsome | hunknown)
          · rw [hread] at hsome
            cases hsome
          · exact identityFromCert_of_unknown hrequire (hcert.trans hunknown) hrole

namespace IdentityAux

open SampleAux

/-! ## Two connections -/

/-- The DER of a client certificate whose only name is `DNS:gateway`. -/
def gatewayCert : Bytes :=
  bytesOf 48 0x3081dc30818fa003020102020101300506032b6570300c310a300806035504030c0163301e170d323631313138303333 ++
  bytesOf 48 0x3032345a170d3237313131383033333032345a300c310a300806035504030c0174302a300506032b6570032100274aa2 ++
  bytesOf 48 0xdaabfa0df7cd751621f347083a308b6e910a9343845fd04e0996f30e8ca316301430120603551d11040b300982076761 ++
  bytesOf 48 0x7465776179300506032b6570034100819db89a1b98979d73656575bbc1c8b87eb2b6551c40ac5e1d81646f5901b98e29 ++
  bytesOf 31 0xb81c391332846dde162cd3886d596ce4220c4a33e9ab0b0cd0ede7e4be0f09

/-- The DER of a client certificate for `spiffe://gridtokenx.th/prod/iam-service`. -/
def iamCert : Bytes :=
  bytesOf 48 0x3081fc3081afa003020102020102300506032b6570300c310a300806035504030c0163301e170d323631313138303333 ++
  bytesOf 48 0x3032345a170d3237313131383033333032345a300c310a300806035504030c0174302a300506032b6570032100274aa2 ++
  bytesOf 48 0xdaabfa0df7cd751621f347083a308b6e910a9343845fd04e0996f30e8ca336303430320603551d11042b302986277370 ++
  bytesOf 48 0x696666653a2f2f67726964746f6b656e782e74682f70726f642f69616d2d73657276696365300506032b657003410042 ++
  bytesOf 48 0xf362741f125de4cf3a73bd6decf39c717706cdb2eaf0fca25b4e5df1ea65a02ca9f94167fcce079a559284740fcd25f1 ++
  bytesOf 15 0xbd6af49406f7a0f18f546736c71c0b

/-- The certificate with a subject alternative name, parsed. -/
def parsedCert (der : Bytes) (name : GeneralName) : X509Certificate :=
  { extensions := [.subjectAlternativeName [name]]
    notBefore := 1794972624
    notAfter := 1826508624
    publicKey := (der.drop 93).take 32
    tbsAndSignature := der }

/-- Header values as `http` has them: text without control characters, read back where it is ASCII. -/
def identityCtx : Ctx :=
  { SampleAux.ctx [] with
    headerFromStr := fun s => if (strBytes s).all (fun b => b = 9 ∨ 32 ≤ b ∧ b ≠ 127) then some (strBytes s) else none
    headerToStr := fun v => if v.all (fun b => b = 9 ∨ 32 ≤ b ∧ b < 127) then String.fromUTF8? ⟨v.toArray⟩ else none
    x509FromDer := fun der =>
      if der = gatewayCert then .ok (parsedCert der .other)
      else if der = iamCert then .ok (parsedCert der (.uri "spiffe://gridtokenx.th/prod/iam-service"))
      else .error "Nom" }

/-- The environment of a deployment. -/
def production : DevEnv := { chainBridgeInsecure := none, chainBridgeAllowHeaderAuth := none }

theorem fromUTF8_strBytes (s : String) : String.fromUTF8? ⟨(strBytes s).toArray⟩ = some s := by
  have hbytes : (⟨(strBytes s).toArray⟩ : ByteArray) = s.toByteArray := by
    simp [strBytes]
  rw [hbytes, String.fromUTF8?, dif_pos s.isValidUTF8]
  rfl

theorem headerToStr_of_headerFromStr (s : String) (v : Bytes) (h : identityCtx.headerFromStr s = some v) :
    identityCtx.headerToStr v = some s ∨ identityCtx.headerToStr v = none := by
  simp only [identityCtx] at h ⊢
  split at h
  · cases h
    split
    · exact Or.inl (fromUTF8_strBytes s)
    · exact Or.inr rfl
  · cases h

theorem mem_of_requireAny (role : ServiceRole) (roles : List ServiceRole) (h : identityCtx.requireAny role roles = .ok ()) :
    role ∈ roles := by
  have hif : (if role ∈ roles then Except.ok () else Except.error "role not permitted") = .ok () := h
  split at hif
  · assumption
  · cases hif

/-- The header of a client that claims to be the admin. -/
def adminHeader : HeaderMap := [(spiffeIdHeader, strBytes "spiffe://gridtokenx.th/prod/admin")]

end IdentityAux

/-- On a connection of the IAM service the header of a client that claims to be the admin is overwritten. -/
theorem identityFromCert_of_iam : IdentityFromCert identityCtx production [iamCert] ∧
    extractRole identityCtx production (receivedRequest identityCtx [iamCert] adminHeader).headers = .iamService := by
  refine ⟨(identityFromCert_iff identityCtx production [iamCert] rfl rfl headerToStr_of_headerFromStr mem_of_requireAny).mpr ?_,
    by decide +kernel⟩
  have hleaf : leafSpiffeId identityCtx [iamCert] = some "spiffe://gridtokenx.th/prod/iam-service" := by decide +kernel
  have hwrite : identityCtx.headerFromStr "spiffe://gridtokenx.th/prod/iam-service" =
      some (strBytes "spiffe://gridtokenx.th/prod/iam-service") := by decide +kernel
  rw [HeaderBound, hleaf]
  simp only [hwrite]
  exact Or.inl (by decide +kernel)

/-- On a connection whose certificate has no SPIFFE URI, the header of the client makes it the admin, and is handed on. -/
theorem header_chooses_identity :
    (∀ s v, identityCtx.headerFromStr s = some v → identityCtx.headerToStr v = some s ∨ identityCtx.headerToStr v = none) ∧
    (∀ role roles, identityCtx.requireAny role roles = .ok () → role ∈ roles) ∧
    leafSpiffeId identityCtx [gatewayCert] = none ∧
    extractRole identityCtx production (receivedRequest identityCtx [gatewayCert] adminHeader).headers = .admin ∧
    handedIdentity identityCtx production (receivedRequest identityCtx [gatewayCert] adminHeader).headers =
      some ⟨"spiffe://gridtokenx.th/prod/admin"⟩ ∧
    ¬IdentityFromCert identityCtx production [gatewayCert] := by
  have hrole : extractRole identityCtx production (receivedRequest identityCtx [gatewayCert] adminHeader).headers = .admin := by
    decide +kernel
  have hleaf : leafSpiffeId identityCtx [gatewayCert] = none := by decide +kernel
  refine ⟨headerToStr_of_headerFromStr, mem_of_requireAny, hleaf, hrole, by decide +kernel, fun h => ?_⟩
  have hcert := h.role adminHeader
  rw [hrole, certRole, hleaf] at hcert
  cases hcert

end ChainBridge
