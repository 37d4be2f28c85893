import ChainBridge.Lemmas.Handlers
import ChainBridge.Lemmas.Sample

/-!
# A mint is authenticated whatever the policy

`handle_mint` forces the verification of the envelope. The theorem reads the nine exits of the verification back from a handler
that touched one of the shared maps or made any call beyond its gates: every check of the certificate and of the signature passed, for
the identity that the policy sees and the audit trail records.
-/

namespace ChainBridge

open Interleave

/-- What an envelope brings along and what was verified of it at a clock reading, when the check of its auth succeeds. -/
structure Authentic (Γ : Ctx) (envelope : MintEnergyMessage) (nowMs : Nat) where
  auth : EnvelopeAuth
  caDer : Bytes
  leafDer : Bytes
  leaf : X509Certificate
  ca : X509Certificate
  sigDer : Bytes
  attached : envelope.auth = some auth
  configured : Γ.authPolicy.caDer = some caDer
  scheme : auth.scheme = Γ.envelopeAuthSchemeV1
  pem : Γ.parseX509Pem auth.certPem = .ok leafDer
  parsed : Γ.x509FromDer leafDer = .ok leaf
  valid : leaf.notBefore ≤ (Γ.asn1FromTimestamp (nowMs / 1000 : Nat)).getD Γ.asn1Now ∧
    (Γ.asn1FromTimestamp (nowMs / 1000 : Nat)).getD Γ.asn1Now ≤ leaf.notAfter
  caParsed : Γ.x509FromDer caDer = .ok ca
  trusted : Γ.verifyCertSignature leaf ca.publicKey = true
  identity : extractSpiffeId Γ leafDer = some envelope.serviceIdentity
  decoded : Γ.base64Decode auth.signature = .ok sigDer
  signed : Γ.verifyP256Signature leaf.publicKey (Γ.canonicalMintBytes envelope) sigDer = .ok ()

/-- The call changes one of the two shared maps, in some state of the session that answers it so. -/
def ChangesMaps (e : CallEvent) : Prop :=
  ∃ (s : Session) (a : e.1.Answer), (s.serve e.1 a).1 = e.2 ∧
    ((s.serve e.1 a).2.dedupStore ≠ s.dedupStore ∨ (s.serve e.1 a).2.idempotencyCache ≠ s.idempotencyCache)

/-- A mint that has changed one of the maps, or has made any call that is none of the gates'. The claim is such a call, and so is
everything that `build_and_submit_generation_mint` asks of Vault and of the chain: the key, the blockhash, the simulation, the
signature, the submission and the polls. -/
def MintActs (t : List CallEvent) : Prop := (∃ e ∈ t, ChangesMaps e) ∨ ∃ e ∈ t, e.1.isGate = false

/-- The calls made in the name of an identity: an audit entry is under it, and what is signed or submitted was accepted for it by
the policy. -/
def InNameOf (Γ : Ctx) (identity : SpiffeIdentity) : Call → Prop
  | .auditAppend entry => entry.identity = identity.uri
  | .signMessage _ msg => ∃ tx tx', Γ.validateTransaction identity tx = .ok () ∧ Redated tx tx' ∧
    msg = Γ.messageData tx'.message
  | .sendTransaction sent => ∃ tx tx', Γ.validateTransaction identity tx = .ok () ∧ Redated tx tx' ∧
    sent.message = tx'.message
  | _ => True

namespace MintAuthAux

open SilentAux HandlersAux

variable {Γ : Ctx}

/-- The maps are as they were after a call of the gates. -/
theorem serve_gate (s : Session) {c : Call} (hc : c.isGate = true) (a : c.Answer) :
    (s.serve c a).2.dedupStore = s.dedupStore ∧ (s.serve c a).2.idempotencyCache = s.idempotencyCache := by
  cases c <;> first | exact ⟨rfl, rfl⟩ | cases hc

/-- A mint that acts has made a call that is none of the gates'. -/
theorem not_gate_of_acts {t : List CallEvent} (h : MintActs t) : ∃ e ∈ t, e.1.isGate = false := by
  rcases h with ⟨e, he, s, a, -, hne⟩ | hcall
  · refine ⟨e, he, Bool.eq_false_iff.mpr fun hgate => ?_⟩
    obtain ⟨hstore, hcache⟩ := serve_gate s hgate a
    exact hne.elim (fun h => h hstore) (fun h => h hcache)
  · exact hcall

/-! ## The checks of an envelope that is accepted -/

/-- A signed envelope is accepted only after every check. -/
theorem authentic_of_checked {envelope : MintEnergyMessage} {nowMs : Nat} {auth : EnvelopeAuth} {caDer : Bytes}
    (hauth : envelope.auth = some auth) (hca : Γ.authPolicy.caDer = some caDer)
    (h : checkSignedEnvelope Γ caDer auth envelope.serviceIdentity (Γ.canonicalMintBytes envelope) (nowMs / 1000 : Nat) =
      .ok ()) : Nonempty (Authentic Γ envelope nowMs) := by
  unfold checkSignedEnvelope at h
  split at h
  · cases h
  rename_i hscheme
  obtain ⟨leafDer, hpem, h₁⟩ := ok_bind h
  obtain ⟨leaf, hleaf, h₂⟩ := ok_bind h₁
  simp only at h₂
  split at h₂
  · cases h₂
  rename_i hvalid
  obtain ⟨ca, hcaParsed, h₃⟩ := ok_bind h₂
  split at h₃
  · cases h₃
  rename_i htrusted
  split at h₃
  · rename_i san hsan
    split at h₃
    · cases h₃
    rename_i hclaimed
    obtain ⟨sigDer, hdecoded, hsigned⟩ := ok_bind h₃
    have hidentity : extractSpiffeId Γ leafDer = some envelope.serviceIdentity := by
      rw [hsan, Decidable.not_not.mp hclaimed]
    exact ⟨{ auth, caDer, leafDer, leaf, ca, sigDer, attached := hauth, configured := hca
             scheme := Decidable.not_not.mp hscheme, pem := ok_of_mapError hpem, parsed := ok_of_mapError hleaf
             valid := Decidable.not_not.mp hvalid, caParsed := ok_of_mapError hcaParsed
             trusted := eq_true_of_ne_false htrusted, identity := hidentity
             decoded := ok_of_mapError hdecoded, signed := hsigned }⟩
  · cases h₃

/-- The decision that forces a signature accepts only an authentic envelope, whatever the policy. -/
theorem authentic_of_decision {envelope : MintEnergyMessage} {nowMs : Nat}
    (h : envelopeDecision Γ envelope.auth envelope.serviceIdentity (Γ.canonicalMintBytes envelope) true nowMs = .ok ()) :
    Nonempty (Authentic Γ envelope nowMs) := by
  unfold envelopeDecision at h
  rw [Bool.or_true] at h
  cases hauth : envelope.auth with
  | none =>
    rw [hauth] at h
    cases h
  | some auth =>
    cases hca : Γ.authPolicy.caDer with
    | none =>
      rw [hauth, hca] at h
      cases h
    | some caDer =>
      rw [hauth, hca] at h
      simp only [checkEnvelopeAuth, authDecision] at h
      cases hcheck : checkSignedEnvelope Γ caDer auth envelope.serviceIdentity (Γ.canonicalMintBytes envelope)
          (nowMs / 1000 : Nat) with
      | error reason =>
        rw [hcheck] at h
        cases h
      | ok u => exact authentic_of_checked hauth hca hcheck

/-! ## The identity a mint is carried out for -/

abbrev Named (Γ : Ctx) (identity : SpiffeIdentity) {α : Type} (p : Handler α) (R : α → Prop) : Prop :=
  p.Only (InNameOf Γ identity) R

variable {identity : SpiffeIdentity}

theorem named_of_checked {α : Type} {p : Handler α} {R : α → Prop} (hp : Checked p R) : Named Γ identity p R :=
  Prog.only_mono hp (fun c hc => by rw [hc]; trivial) fun _ h => h

theorem named_recordAudit (correlationId action : String) (outcome : AuditOutcome) :
    Named Γ identity (recordAudit correlationId identity action outcome) (fun _ => True) :=
  ⟨trivial, fun _ => ⟨rfl, fun _ => trivial⟩⟩

theorem named_selectBlockhash (tx : Transaction) :
    Named Γ identity (selectBlockhash tx) (fun r => ∀ tx', r = .ok tx' → Redated tx tx') := by
  have hcalls : (selectBlockhash tx).Only (fun c => c = .blockhashGet ∨ c = .getLatestBlockhash) (fun _ => True) := by
    unfold selectBlockhash
    split
    · refine Prog.only_perform.mpr ⟨Or.inl rfl, fun cached => ?_⟩
      cases cached with
      | some entry => trivial
      | none =>
        refine Prog.only_perform.mpr ⟨Or.inr rfl, fun answer => ?_⟩
        cases answer <;> trivial
    · trivial
  refine Prog.only_mono (Prog.only_and hcalls (reading_selectBlockhash tx)) (fun c hc => ?_) fun _ h => h.2
  rcases hc.1 with rfl | rfl <;> trivial

theorem named_presignSimulate (correlationId : String) (tx : Transaction) :
    Named Γ identity (presignSimulate Γ identity correlationId tx) (fun _ => True) := by
  unfold presignSimulate
  split
  · trivial
  · refine Prog.only_perform.mpr ⟨trivial, fun answer => ?_⟩
    rcases answer with e | ⟨_ | e, units⟩
    · trivial
    · trivial
    · exact Prog.only_bind (named_recordAudit ..) fun _ _ => trivial

theorem named_vaultSign {tx tx' : Transaction} (hv : Γ.validateTransaction identity tx = .ok ()) (hre : Redated tx tx') :
    Named Γ identity (vaultSign Γ tx') (fun r => ∀ sent, r = .ok sent → sent.message = tx'.message) := by
  refine Prog.only_bind (named_of_checked (checked_logPayer tx')) fun _ _ =>
    Prog.only_perform.mpr ⟨⟨tx, tx', hv, hre, rfl⟩, fun answer => ?_⟩
  cases answer with
  | error e =>
    intro sent h
    cases h
  | ok sig =>
    refine Prog.only_bind (named_of_checked (checked_attachSignature tx' sig)) fun attached hattached sent h => ?_
    cases h
    rw [hattached.2]
    rfl

theorem named_sendSigned (correlationId : String) {tx tx' sent : Transaction}
    (hv : Γ.validateTransaction identity tx = .ok ()) (hre : Redated tx tx') (hsent : sent.message = tx'.message) :
    Named Γ identity (sendSigned Γ identity correlationId sent) (fun _ => True) := by
  unfold sendSigned
  refine Prog.only_perform.mpr ⟨⟨tx, tx', hv, hre, hsent⟩, fun answer => ?_⟩
  cases answer with
  | ok sig => exact Prog.only_bind (named_recordAudit ..) fun _ _ => trivial
  | error e => exact Prog.only_bind (named_recordAudit ..) fun _ _ => trivial

theorem named_signPlatformAdmin (correlationId : String) {tx : Transaction}
    (hv : Γ.validateTransaction identity tx = .ok ()) :
    Named Γ identity (signPlatformAdmin Γ identity correlationId tx)
      (fun r => ∀ sent, r = .ok sent → ∃ tx', Redated tx tx' ∧ sent.message = tx'.message) := by
  refine Prog.only_bind (named_selectBlockhash tx) fun r hr => ?_
  cases r with
  | error stage =>
    intro sent h
    cases h
  | ok tx' =>
    refine Prog.only_bind (named_presignSimulate correlationId tx') fun r _ => ?_
    cases r with
    | error stage =>
      intro sent h
      cases h
    | ok u =>
      exact Prog.only_mono (named_vaultSign hv (hr tx' rfl)) (fun _ h => h) fun r h sent hsent =>
        ⟨tx', hr tx' rfl, h sent hsent⟩

theorem named_signAndSubmit (serializedTx : Bytes) (keyId correlationId : String) :
    Named Γ identity (signAndSubmit Γ serializedTx keyId identity correlationId) (fun _ => True) := by
  unfold signAndSubmit
  split
  · trivial
  · rename_i tx _
    split
    · exact Prog.only_bind (named_recordAudit ..) fun _ _ => trivial
    · rename_i hv
      split
      · refine Prog.only_bind (named_signPlatformAdmin correlationId hv) fun r hr => ?_
        cases r with
        | error stage => trivial
        | ok sent =>
          obtain ⟨tx', hre, hsent⟩ := hr sent rfl
          exact named_sendSigned correlationId hv hre hsent
      · split
        · exact Prog.only_bind (named_recordAudit ..) fun _ _ => trivial
        · exact named_sendSigned correlationId hv (Or.inl rfl) rfl

theorem named_refuse {claimedIdentity : String} (reply : Reply) (correlationId action stage reason subject : String)
    (kind : AckKind) :
    Named Γ ⟨claimedIdentity⟩ (refuse correlationId claimedIdentity action stage reason subject reply kind) (fun _ => True) :=
  ⟨trivial, fun _ => ⟨rfl, fun _ => ⟨trivial, fun _ => ⟨trivial, fun _ => trivial⟩⟩⟩⟩

theorem named_mintFinish (envelope : MintEnergyMessage) (key : Option String) (nowMs : Nat)
    (r : Except String (Signature × Nat)) : Named Γ identity (mintFinish Γ envelope key nowMs r) (fun _ => True) := by
  cases r with
  | ok out =>
    refine Prog.only_perform.mpr ⟨trivial, fun _ => ?_⟩
    cases key with
    | none => exact ⟨trivial, fun _ => ⟨trivial, fun _ => trivial⟩⟩
    | some key => exact ⟨trivial, fun _ => ⟨trivial, fun _ => ⟨trivial, fun _ => trivial⟩⟩⟩
  | error e =>
    cases key with
    | none => exact ⟨trivial, fun _ => ⟨trivial, fun _ => trivial⟩⟩
    | some key => exact ⟨trivial, fun _ => ⟨trivial, fun _ => ⟨trivial, fun _ => trivial⟩⟩⟩

theorem named_mintEffect (envelope : MintEnergyMessage) (key : Option String) (nowMs : Nat) :
    Named Γ ⟨envelope.serviceIdentity⟩ (mintEffect Γ envelope key nowMs) (fun _ => True) := by
  rw [mintEffect_eq]
  exact Prog.only_bind (only_buildAndSubmitGenerationMint trivial (fun _ _ _ _ _ _ _ => named_signAndSubmit ..)
    (fun sig => only_resolveConfirmation trivial 24)) fun r _ => named_mintFinish envelope key nowMs r

theorem named_handleMint (envelope : MintEnergyMessage) :
    Named Γ ⟨envelope.serviceIdentity⟩ (handleMint Γ (.ok envelope)) (fun _ => True) := by
  rw [handleMint_eq]
  refine Gates.only_run trivial trivial trivial (fun _ => named_refuse ..) (named_refuse ..) (fun _ => named_refuse ..)
    fun nowMs => ?_
  refine Prog.only_perform.mpr ⟨trivial, fun a => ?_⟩
  cases a with
  | some prior => exact ⟨trivial, fun _ => ⟨trivial, fun _ => trivial⟩⟩
  | none => exact named_mintEffect ..

end MintAuthAux

open MintAuthAux HandlersAux in
/-- A mint that changes one of the shared maps, or makes any call but those of the gates, was authenticated at its first clock
reading: whatever the policy, every check of the envelope's certificate and signature passed, and all it signs, submits and audits
is in the name of the identity that the certificate carries. -/
theorem mint_authenticated {Γ : Ctx} {payload : Except String MintEnergyMessage} {t : List CallEvent} {q : Handler Unit}
    (h : Prog.Steps (handleMint Γ payload) t q) (hacts : MintActs t) :
    ∃ envelope authMs t', payload = .ok envelope ∧ t = ⟨.now, authMs⟩ :: t' ∧ Nonempty (Authentic Γ envelope authMs) ∧
      ∀ e ∈ t, InNameOf Γ ⟨envelope.serviceIdentity⟩ e.1 := by
  obtain ⟨e, he, hgate⟩ := not_gate_of_acts hacts
  rcases steps_handleMint h with hgates | ⟨envelope, authMs, nowMs, a, t', rfl, hpasses, rfl, -⟩
  · rw [hgates e he] at hgate
    cases hgate
  · have hauthentic := authentic_of_decision hpasses.authenticated
    have hnamed := (Prog.only_steps (named_handleMint envelope) h).1
    exact ⟨envelope, authMs, _, rfl, rfl, hauthentic, hnamed⟩

open MintAuthAux HandlersAux in
/-- Without a CA the constructor of the policy forces enforcement off: every envelope then passes where no signature is forced, and
no mint gets past its gates. -/
theorem mint_gated_without_ca {Γ : Ctx} {requireSigned : Bool} (hpolicy : Γ.authPolicy = .new requireSigned none) :
    (∀ auth claimedIdentity canonical nowMs, envelopeDecision Γ auth claimedIdentity canonical false nowMs = .ok ()) ∧
      ∀ {payload : Except String MintEnergyMessage} {t : List CallEvent} {q : Handler Unit},
        Prog.Steps (handleMint Γ payload) t q → ∀ e ∈ t, e.1.isGate = true := by
  have hbuilt : Γ.authPolicy = { requireSigned := false, caDer := none } := by
    rw [hpolicy]
    cases requireSigned <;> rfl
  constructor
  · intro auth claimedIdentity canonical nowMs
    simp [envelopeDecision, hbuilt, authDecision]
  · intro payload t q h
    rcases steps_handleMint h with hgates | ⟨envelope, authMs, nowMs, a, t', rfl, hpasses, rfl, -⟩
    · exact hgates
    · obtain ⟨hauthentic⟩ := authentic_of_decision hpasses.authenticated
      have hconfigured := hauthentic.configured
      rw [hbuilt] at hconfigured
      cases hconfigured

namespace MintAuthAux

theorem acts_of_effect {t : List CallEvent} {e : CallEvent} (he : e ∈ t) (heffect : e.1.isEffect = true) : MintActs t := by
  obtain ⟨c, a⟩ := e
  refine Or.inr ⟨⟨c, a⟩, he, ?_⟩
  cases c <;> first | rfl | cases heffect

end MintAuthAux

open MintAuthAux SampleAux in
/-- A mint of the meter service, signed under its certificate, is carried out where nothing else need be signed. -/
theorem signedMint_authenticated : ∃ t, Prog.Exec (handleMint mintCtx (.ok signedMint)) t () ∧
    (∃ e ∈ t, e.1.isEffect = true) ∧ MintActs t ∧ ∃ authMs, Nonempty (Authentic mintCtx signedMint authMs) := by
  have hrun : ((handleMint mintCtx (.ok signedMint)).runWith (answerAt 1800000001000 (landedAt "confirmed"))).any
      (fun out => out.1.any fun e => e.1.isEffect) = true := by decide +kernel
  obtain ⟨t, u, hexec, hsigned⟩ := Prog.exists_exec_of_runWith hrun
  obtain ⟨e, he, heffect⟩ := List.any_eq_true.mp hsigned
  have hacts := acts_of_effect he heffect
  obtain ⟨envelope, authMs, t', henv, -, hauthentic, -⟩ := mint_authenticated hexec hacts
  cases henv
  exact ⟨t, hexec, ⟨e, he, heffect⟩, hacts, authMs, hauthentic⟩

end ChainBridge
