import ChainBridge.Grpc
import ChainBridge.Lemmas.Handlers
import ChainBridge.Lemmas.Sample

/-!
# What a status code says

A caller of `submit_transaction` sees a status code and has to decide whether to repeat its request. Each stage of the signing
path that refuses does so before the first call that signs or submits, each later stage fails before a submission is accepted,
and the code of an answer is read off the stage.
-/

namespace ChainBridge

open Interleave

/-- The stages that refuse before anything is signed or submitted. -/
def SignSubmitStage.isRefusal : SignSubmitStage → Bool
  | .invalidFormat _ => true
  | .policyRejected _ => true
  | .keyNotAuthorized _ => true
  | .simulationRejected _ => true
  | _ => false

/-- The codes of a refusal. -/
def ErrorCode.isRefusal : ErrorCode → Bool
  | .invalidArgument => true
  | .permissionDenied => true
  | .failedPrecondition => true
  | _ => false

/-- What the answer of a request says about the calls `t` made for it. -/
structure CodesTell (Γ : Ctx) (t : List CallEvent) (answer : Except ConnectError SubmitTransactionResponse) : Prop where
  /-- A refusal: Vault was not asked for a signature, and nothing was submitted. -/
  refused : ∀ e, answer = .error e → e.code.isRefusal = true → ∀ c ∈ t, c.1.isEffect = false
  /-- `Unavailable`: no submission was accepted. -/
  unavailable : ∀ e, answer = .error e → e.code = .unavailable → ∀ sig, ¬Accepted t sig
  /-- `Internal` is not answered. -/
  notInternal : ∀ e, answer = .error e → e.code ≠ .internal
  /-- A success names the signature of an accepted submission, and every accepted submission is answered so. -/
  success : ∀ s, (∃ response, answer = .ok response ∧ response.success = true ∧ response.signature = s) ↔
    ∃ sig, Accepted t sig ∧ Γ.signatureToString sig = s

namespace StatusCodesAux

open SilentAux SigningAux HandlersAux

variable {Γ : Ctx} {t : List CallEvent}

/-! ## The stages -/

/-- The code of a refusing stage is one of a refusal, and no other stage has such a code. -/
theorem isRefusal_connectError (stage : SignSubmitStage) : stage.connectError.code.isRefusal = stage.isRefusal := by
  cases stage <;> rfl

theorem connectError_ne_internal (stage : SignSubmitStage) : stage.connectError.code ≠ .internal := by
  cases stage <;> exact fun h => (by cases h)

/-- Where the result is a refusal, nothing was signed or submitted. -/
def RefusedQuietly {α : Type} (t : List CallEvent) (r : Except SignSubmitStage α) : Prop :=
  ∀ stage, r = .error stage → stage.isRefusal = true → Quiet t

theorem refusedQuietly_of_quiet {α : Type} {r : Except SignSubmitStage α} (h : Quiet t) : RefusedQuietly t r :=
  fun _ _ _ => h

theorem refusedQuietly_ok {α : Type} (a : α) : RefusedQuietly t (.ok a) := by
  intro stage h
  cases h

/-- A stage that is no refusal says nothing. -/
theorem refusedQuietly_late {α : Type} {stage : SignSubmitStage} (h : stage.isRefusal = false) :
    RefusedQuietly t (.error stage : Except _ α) := by
  intro stage' heq hrefusal
  cases heq
  rw [h] at hrefusal
  cases hrefusal

/-- What comes before and is quiet does not matter. -/
theorem RefusedQuietly.prepend {α : Type} {u : List CallEvent} {r : Except SignSubmitStage α} (h : RefusedQuietly u r)
    (ht : Quiet t) : RefusedQuietly (t ++ u) r := by
  intro stage heq hrefusal
  exact List.forall_mem_append.mpr ⟨ht, h stage heq hrefusal⟩

/-- The calls of a part that only reads are quiet. -/
theorem quiet_of_reading {α : Type} {p : Handler α} {R : α → Prop} {a : α} (hp : Reading p R) (h : Prog.Exec p t a) : Quiet t :=
  (Prog.only_steps (calm_of_silent (silent_of_reading hp)) h).1

/-- An audit entry and a result: nothing was signed or submitted. -/
theorem refusedQuietly_auditThen {identity : SpiffeIdentity} {correlationId action : String} {outcome : AuditOutcome} {α : Type}
    {a r : Except SignSubmitStage α} (h : Prog.Exec (do recordAudit correlationId identity action outcome; return a) t r) :
    RefusedQuietly t r := by
  have hreading : Reading (do recordAudit correlationId identity action outcome; return a) (fun _ => True) :=
    Prog.only_bind (reading_recordAudit ..) fun _ _ => trivial
  exact refusedQuietly_of_quiet (quiet_of_reading hreading h)

theorem refusedQuietly_vaultSign {tx : Transaction} {r : Except SignSubmitStage Transaction}
    (h : Prog.Exec (vaultSign Γ tx) t r) : RefusedQuietly t r := by
  obtain ⟨t₁, t₂, u, rfl, -, h'⟩ := Prog.exec_bind.mp h
  obtain ⟨answer, t₃, rfl, h''⟩ := Prog.exec_perform.mp h'
  cases answer with
  | error e =>
    obtain ⟨rfl, rfl⟩ := Prog.exec_ret.mp h''
    exact refusedQuietly_late rfl
  | ok sig =>
    obtain ⟨t₄, t₅, tx', rfl, -, hret⟩ := Prog.exec_bind.mp h''
    obtain ⟨rfl, rfl⟩ := Prog.exec_ret.mp hret
    exact refusedQuietly_ok _

theorem refusedQuietly_sendSigned {identity : SpiffeIdentity} {correlationId : String} {tx : Transaction}
    {r : Except SignSubmitStage (Signature × Nat)} (h : Prog.Exec (sendSigned Γ identity correlationId tx) t r) :
    RefusedQuietly t r := by
  obtain ⟨answer, t', rfl, h'⟩ := Prog.exec_perform.mp h
  cases answer with
  | ok sig =>
    obtain ⟨rfl, -⟩ := exec_auditThen h'
    exact refusedQuietly_ok _
  | error e =>
    obtain ⟨rfl, -⟩ := exec_auditThen h'
    exact refusedQuietly_late rfl

/-- The `platform_admin` branch refuses only at the simulation, before Vault is asked. -/
theorem refusedQuietly_signPlatformAdmin {identity : SpiffeIdentity} {correlationId : String} {tx : Transaction}
    {r : Except SignSubmitStage Transaction} (h : Prog.Exec (signPlatformAdmin Γ identity correlationId tx) t r) :
    RefusedQuietly t r := by
  obtain ⟨t₁, t₂, selected, rfl, hselect, h'⟩ := Prog.exec_bind.mp h
  have hquiet₁ := quiet_of_reading (reading_selectBlockhash tx) hselect
  cases selected with
  | error stage =>
    obtain ⟨rfl, rfl⟩ := Prog.exec_ret.mp h'
    rw [List.append_nil]
    exact refusedQuietly_of_quiet hquiet₁
  | ok tx' =>
    obtain ⟨t₃, t₄, simulated, rfl, hsimulate, h''⟩ := Prog.exec_bind.mp h'
    have hquiet₂ := quiet_of_reading (reading_presignSimulate identity correlationId tx') hsimulate
    refine RefusedQuietly.prepend ?_ hquiet₁
    cases simulated with
    | error stage =>
      obtain ⟨rfl, rfl⟩ := Prog.exec_ret.mp h''
      rw [List.append_nil]
      exact refusedQuietly_of_quiet hquiet₂
    | ok u => exact (refusedQuietly_vaultSign h'').prepend hquiet₂

/-- A refusal of the signing path comes before the first signature and the first submission. -/
theorem refusedQuietly_signAndSubmit {serializedTx : Bytes} {keyId : String} {identity : SpiffeIdentity} {correlationId : String}
    {r : Except SignSubmitStage (Signature × Nat)}
    (h : Prog.Exec (signAndSubmit Γ serializedTx keyId identity correlationId) t r) : RefusedQuietly t r := by
  unfold signAndSubmit at h
  split at h
  · obtain ⟨rfl, rfl⟩ := Prog.exec_ret.mp h
    exact refusedQuietly_of_quiet fun e he => by cases he
  split at h
  · exact refusedQuietly_auditThen h
  split at h
  · obtain ⟨t₁, t₂, signed, rfl, hsign, h'⟩ := Prog.exec_bind.mp h
    have hsigned := refusedQuietly_signPlatformAdmin hsign
    cases signed with
    | error stage =>
      obtain ⟨rfl, rfl⟩ := Prog.exec_ret.mp h'
      rw [List.append_nil]
      intro stage' heq
      cases heq
      exact hsigned stage rfl
    | ok tx =>
      -- a submission that fails is no refusal, so what was signed before it does not matter
      intro stage heq hrefusal
      have hlate := refusedQuietly_sendSigned h' stage heq hrefusal
      obtain ⟨answer, t', rfl, -⟩ := Prog.exec_perform.mp h'
      cases hlate _ List.mem_cons_self
  split at h
  · exact refusedQuietly_auditThen h
  · exact refusedQuietly_sendSigned h

/-! ## The answer of a request -/

/-- The downcast always finds the stage. -/
theorem submitTransactionDowncast_eq (env : DevEnv) (headers : HeaderMap) (request : SubmitTransactionRequest) :
    submitTransactionDowncast Γ env headers request = submitTransaction Γ env headers request := by
  unfold submitTransactionDowncast submitTransaction signAndSubmitAnyhow
  split
  · rfl
  · generalize signAndSubmit Γ request.serializedTransaction request.keyId (submitIdentity Γ headers) "" = p
    induction p with
    | ret r =>
      cases r with
      | ok out => rfl
      | error stage => rfl
    | call c k ih => exact congrArg (Prog.call c) (funext ih)

/-- A request refused before the signing path. -/
theorem codesTell_unsigned {e : ConnectError} (h : e.code = .permissionDenied) : CodesTell Γ [] (.error e) where
  refused := fun _ _ _ c hc => by cases hc
  unavailable := fun _ _ _ sig => not_accepted_of_unsent (fun c hc => by cases hc) sig
  notInternal := fun e' heq => by
    cases heq
    rw [h]
    exact fun hcode => by cases hcode
  success := fun s => by
    constructor
    · rintro ⟨response, heq, -⟩
      cases heq
    · rintro ⟨sig, ⟨tx, hmem⟩, -⟩
      cases hmem

/-- A request the signing path fails. -/
theorem codesTell_error {stage : SignSubmitStage} (hquiet : RefusedQuietly t (.error stage : Except _ (Signature × Nat)))
    (haccepted : ResultAccepted t (.error stage : Except _ (Signature × Nat))) : CodesTell Γ t (.error stage.connectError) := by
  have hnone : ∀ sig, ¬Accepted t sig := by
    intro sig ha
    obtain ⟨n, hn⟩ := (haccepted sig).mp ha
    cases hn
  refine ⟨?_, ?_, ?_, ?_⟩
  · intro e heq hcode
    cases heq
    rw [isRefusal_connectError] at hcode
    exact hquiet stage rfl hcode
  · intro e _ _
    exact hnone
  · intro e heq
    cases heq
    exact connectError_ne_internal stage
  · intro s
    constructor
    · rintro ⟨response, heq, -⟩
      cases heq
    · rintro ⟨sig, ha, -⟩
      exact (hnone sig ha).elim

/-- A request the signing path submits. -/
theorem codesTell_ok {sig : Signature} {slot : Nat}
    (haccepted : ResultAccepted t (.ok (sig, slot) : Except SignSubmitStage (Signature × Nat))) :
    CodesTell Γ t (.ok { success := true, signature := Γ.signatureToString sig, errorMessage := "", slot }) where
  refused := fun e heq => by cases heq
  unavailable := fun e heq => by cases heq
  notInternal := fun e heq => by cases heq
  success := fun s => by
    constructor
    · rintro ⟨response, heq, -, rfl⟩
      cases heq
      exact ⟨sig, (haccepted sig).mpr ⟨slot, rfl⟩, rfl⟩
    · rintro ⟨sig', ha, rfl⟩
      obtain ⟨n, hn⟩ := (haccepted sig').mp ha
      cases hn
      exact ⟨_, rfl, rfl, rfl⟩

end StatusCodesAux

open StatusCodesAux

/-- The status code of `submit_transaction` tells whether an effect is possible: a refusal comes before any signature or
submission, `Unavailable` when no submission was accepted, `Internal` never, and a success exactly with the signature of the
submission that was accepted. -/
theorem status_codes_tell (Γ : Ctx) (env : DevEnv) (headers : HeaderMap) (request : SubmitTransactionRequest) (t : List CallEvent)
    (answer : Except ConnectError SubmitTransactionResponse)
    (h : Prog.Exec (submitTransactionDowncast Γ env headers request) t answer) : CodesTell Γ t answer := by
  rw [submitTransactionDowncast_eq] at h
  unfold submitTransaction at h
  split at h
  · obtain ⟨rfl, rfl⟩ := Prog.exec_ret.mp h
    exact codesTell_unsigned rfl
  · obtain ⟨t₁, t₂, r, rfl, hsign, h'⟩ := Prog.exec_bind.mp h
    have haccepted := HandlersAux.exec_signAndSubmit hsign
    have hquiet := refusedQuietly_signAndSubmit hsign
    cases r with
    | ok out =>
      obtain ⟨rfl, rfl⟩ := Prog.exec_ret.mp h'
      rw [List.append_nil]
      exact codesTell_ok haccepted
    | error stage =>
      obtain ⟨rfl, rfl⟩ := Prog.exec_ret.mp h'
      rw [List.append_nil]
      exact codesTell_error hquiet haccepted

namespace StatusCodesAux

open SampleAux

/-- A request of the dev mode that is granted the admin role. -/
def sampleRequest : Handler (Except ConnectError SubmitTransactionResponse) :=
  submitTransactionDowncast (ctx [datedTx]) { chainBridgeInsecure := some "true", chainBridgeAllowHeaderAuth := none } []
    { serializedTransaction := encodeTransaction datedTx, keyId := platformAdmin }

end StatusCodesAux

open SampleAux in
/-- A request that is answered with a success. -/
theorem status_codes_tell_run : ∃ t response, Prog.Exec sampleRequest t (.ok response) ∧ CodesTell (ctx [datedTx]) t (.ok response) := by
  have hrun : (sampleRequest.runWith answer).any (fun out => out.2.isOk) = true := by decide +kernel
  obtain ⟨t, r, hexec, htest⟩ := Prog.exists_exec_of_runWith hrun
  cases r with
  | error e => cases htest
  | ok response => exact ⟨t, response, hexec, status_codes_tell _ _ _ _ t _ hexec⟩

end ChainBridge
