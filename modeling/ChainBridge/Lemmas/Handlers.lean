import ChainBridge.Lemmas.Signing

/-!
# What each handler does

A handler first passes its gates, which read, audit and refuse, and then makes the calls it is for. For each of the three handlers
that write, one inversion lemma says what a partial execution is: calls of the gates only, or the calls of the gates with the
answers that let it pass, followed by a partial execution of the rest.
-/

namespace ChainBridge

open Interleave

/-- Whether a result is a plain failure: no success, and not the answer to a duplicate. -/
def Reply.refuses : Reply → Bool
  | .tx r => !r.success && !r.deduplicated
  | .cancel r => !r.success
  | .mint r => !r.success && !r.deduplicated
  | .status _ => true

/-- The calls of the gates: they read the clock and the cache, audit a refusal, report a failure and acknowledge. -/
def Call.isGate : Call → Bool
  | .now => true
  | .cacheContains _ => true
  | .auditAppend _ => true
  | .publish _ reply => reply.refuses
  | .ack _ => true
  | _ => false

/-- The calls of the signing path. -/
def Call.isSigning (c : Call) : Bool := c.isReading || c.isEffect

/-- The calls of the work a claim is made for: the signing path, the key of Vault and the confirmation poll. -/
def Call.isWork (c : Call) : Bool := c.isSilent || c.isEffect

/-- A submission. -/
def Call.isSend : Call → Bool
  | .sendTransaction _ => true
  | _ => false

/-- The audit entry a call appends. -/
def appendedEntry (e : CallEvent) : Option AuditEntry :=
  match e.1 with
  | .auditAppend entry => some entry
  | _ => none

/-- A submission was accepted under this signature. -/
def Accepted (t : List CallEvent) (sig : Signature) : Prop := ∃ tx, (⟨.sendTransaction tx, .ok sig⟩ : CallEvent) ∈ t

namespace HandlersAux

open SilentAux SigningAux

variable {Γ : Ctx}

/-! ## The signing path -/

abbrev Signing {α : Type} (p : Handler α) (R : α → Prop) : Prop := p.Only (fun c => c.isSigning = true) R

abbrev Work {α : Type} (p : Handler α) (R : α → Prop) : Prop := p.Only (fun c => c.isWork = true) R

theorem signing_of_reading {α : Type} {p : Handler α} {R : α → Prop} (hp : Reading p R) : Signing p R :=
  Prog.only_mono hp (fun c hc => by rw [Call.isSigning, hc, Bool.true_or]) fun _ h => h

theorem work_of_signing {α : Type} {p : Handler α} {R : α → Prop} (hp : Signing p R) : Work p R := by
  refine Prog.only_mono hp (fun c hc => ?_) fun _ h => h
  cases c <;> first | rfl | cases hc

theorem work_of_silent {α : Type} {p : Handler α} {R : α → Prop} (hp : Silent p R) : Work p R :=
  Prog.only_mono hp (fun c hc => by rw [Call.isWork, hc, Bool.true_or]) fun _ h => h

theorem signing_sendSigned (identity : SpiffeIdentity) (correlationId : String) (tx : Transaction) :
    Signing (sendSigned Γ identity correlationId tx) (fun _ => True) := by
  unfold sendSigned
  refine Prog.only_perform.mpr ⟨rfl, fun answer => ?_⟩
  cases answer with
  | ok sig => exact Prog.only_bind (signing_of_reading (reading_recordAudit ..)) fun _ _ => trivial
  | error e => exact Prog.only_bind (signing_of_reading (reading_recordAudit ..)) fun _ _ => trivial

theorem signing_vaultSign (tx : Transaction) : Signing (vaultSign Γ tx) (fun _ => True) := by
  refine Prog.only_bind (signing_of_reading (reading_of_checked (checked_logPayer tx))) fun _ _ => ?_
  refine Prog.only_perform.mpr ⟨rfl, fun answer => ?_⟩
  cases answer with
  | error e => trivial
  | ok sig => exact Prog.only_bind (signing_of_reading (reading_of_checked (checked_attachSignature tx sig))) fun _ _ => trivial

theorem signing_signPlatformAdmin (identity : SpiffeIdentity) (correlationId : String) (tx : Transaction) :
    Signing (signPlatformAdmin Γ identity correlationId tx) (fun _ => True) := by
  refine Prog.only_bind (signing_of_reading (reading_selectBlockhash tx)) fun r _ => ?_
  cases r with
  | error stage => trivial
  | ok tx' =>
    refine Prog.only_bind (signing_of_reading (reading_presignSimulate identity correlationId tx')) fun r _ => ?_
    cases r with
    | error stage => trivial
    | ok u => exact signing_vaultSign tx'

theorem signing_signAndSubmit (serializedTx : Bytes) (keyId : String) (identity : SpiffeIdentity) (correlationId : String) :
    Signing (signAndSubmit Γ serializedTx keyId identity correlationId) (fun _ => True) := by
  unfold signAndSubmit
  split
  · trivial
  · rename_i tx _
    split
    · exact Prog.only_bind (signing_of_reading (reading_recordAudit ..)) fun _ _ => trivial
    · split
      · refine Prog.only_bind (signing_signPlatformAdmin identity correlationId tx) fun r _ => ?_
        cases r with
        | error stage => trivial
        | ok tx' => exact signing_sendSigned identity correlationId tx'
      · split
        · exact Prog.only_bind (signing_of_reading (reading_recordAudit ..)) fun _ _ => trivial
        · exact signing_sendSigned identity correlationId tx

theorem only_retrySpawn {ε α : Type} {K : Call → Prop} {action : Handler (Except ε α)} (h : action.Only K (fun _ => True))
    (n : Nat) : (retrySpawn action n).Only K (fun _ => True) := by
  induction n with
  | zero => exact h
  | succ n ih =>
    refine Prog.only_bind h fun r _ => ?_
    cases r with
    | ok a => trivial
    | error e => exact ih

/-- The parts of the mint besides the signing path: the key of Vault and the poll. -/
theorem only_buildAndSubmitGenerationMint {K : Call → Prop} {recipientWallet : String} {energyKwh : UInt64}
    {meterId : Vector UInt8 16} {windowStartMs : Int64} {identity : SpiffeIdentity} {correlationId : String}
    (hkey : K (.getPublicKey Γ.transitKeyName))
    (hsign : ∀ payer recipient amount serialized, Γ.energyKwhToBaseUnits energyKwh = .ok amount →
      Γ.pubkeyFromStr recipientWallet = .ok recipient →
      mintTransaction Γ payer recipient amount meterId windowStartMs = .ok serialized →
      (signAndSubmit Γ serialized platformAdmin identity correlationId).Only K (fun _ => True))
    (hpoll : ∀ sig, (resolveConfirmation sig).Only K (fun _ => True)) :
    (buildAndSubmitGenerationMint Γ recipientWallet energyKwh meterId windowStartMs identity correlationId).Only K
      (fun _ => True) := by
  unfold buildAndSubmitGenerationMint
  split
  · trivial
  · rename_i amount hamount
    split
    · trivial
    · rename_i recipient hrecipient
      refine Prog.only_perform.mpr ⟨hkey, fun answer => ?_⟩
      cases answer with
      | error e => trivial
      | ok payer =>
        simp only
        split
        · trivial
        · rename_i serialized hserialized
          refine Prog.only_bind (hsign payer recipient amount serialized hamount hrecipient hserialized) fun r _ => ?_
          cases r with
          | error stage => trivial
          | ok out =>
            refine Prog.only_bind (hpoll out.1) fun verdict _ => ?_
            cases verdict <;> trivial

theorem work_buildAndSubmitGenerationMint (recipientWallet : String) (energyKwh : UInt64) (meterId : Vector UInt8 16)
    (windowStartMs : Int64) (identity : SpiffeIdentity) (correlationId : String) :
    Work (buildAndSubmitGenerationMint Γ recipientWallet energyKwh meterId windowStartMs identity correlationId)
      (fun _ => True) :=
  only_buildAndSubmitGenerationMint rfl (fun _ _ _ _ _ _ _ => work_of_signing (signing_signAndSubmit ..))
    (fun sig => work_of_silent (silent_resolveConfirmationBounded sig 24))

/-! ## The result of the signing path -/

/-- A part that submits nothing. -/
abbrev Unsent {α : Type} (p : Handler α) : Prop := p.Only (fun c => c.isSend = false) (fun _ => True)

theorem unsent_of_reading {α : Type} {p : Handler α} {R : α → Prop} (hp : Reading p R) : Unsent p := by
  refine Prog.only_mono hp (fun c hc => ?_) fun _ _ => trivial
  cases c <;> first | rfl | cases hc

theorem unsent_vaultSign (tx : Transaction) : Unsent (vaultSign Γ tx) := by
  refine Prog.only_bind (unsent_of_reading (reading_of_checked (checked_logPayer tx))) fun _ _ =>
    Prog.only_perform.mpr ⟨rfl, fun answer => ?_⟩
  cases answer with
  | error e => trivial
  | ok sig =>
    exact Prog.only_bind (unsent_of_reading (reading_of_checked (checked_attachSignature tx sig))) fun _ _ => trivial

theorem unsent_signPlatformAdmin (identity : SpiffeIdentity) (correlationId : String) (tx : Transaction) :
    Unsent (signPlatformAdmin Γ identity correlationId tx) := by
  refine Prog.only_bind (unsent_of_reading (reading_selectBlockhash tx)) fun r _ => ?_
  cases r with
  | error stage => trivial
  | ok tx' =>
    refine Prog.only_bind (unsent_of_reading (reading_presignSimulate identity correlationId tx')) fun r _ => ?_
    cases r with
    | error stage => trivial
    | ok u => exact unsent_vaultSign tx'

theorem not_accepted_of_unsent {t : List CallEvent} (h : ∀ e ∈ t, e.1.isSend = false) (sig : Signature) : ¬Accepted t sig := by
  rintro ⟨tx, hmem⟩
  cases h _ hmem

theorem accepted_append {t u : List CallEvent} {sig : Signature} : Accepted (t ++ u) sig ↔ Accepted t sig ∨ Accepted u sig := by
  simp only [Accepted, List.mem_append, exists_or]

/-- The result is the signature of the accepted submission, and an error when none was accepted. -/
def ResultAccepted {ε : Type} (t : List CallEvent) (r : Except ε (Signature × Nat)) : Prop :=
  ∀ sig, Accepted t sig ↔ ∃ n, r = .ok (sig, n)

theorem resultAccepted_error {ε : Type} {t : List CallEvent} (h : ∀ sig, ¬Accepted t sig) (e : ε) :
    ResultAccepted t (.error e) := fun sig => ⟨fun ha => (h sig ha).elim, fun ⟨n, hn⟩ => by cases hn⟩

/-- What comes before and submits nothing does not matter. -/
theorem ResultAccepted.prepend {ε : Type} {t u : List CallEvent} {r : Except ε (Signature × Nat)} (h : ResultAccepted u r)
    (ht : ∀ e ∈ t, e.1.isSend = false) : ResultAccepted (t ++ u) r := by
  intro sig
  rw [accepted_append, or_iff_right (not_accepted_of_unsent ht sig)]
  exact h sig

/-- An audit entry and an error: nothing is submitted. -/
theorem exec_auditThen {identity : SpiffeIdentity} {correlationId action : String} {outcome : AuditOutcome} {α : Type} {a b : α}
    {t : List CallEvent} (h : Prog.Exec (do recordAudit correlationId identity action outcome; return a) t b) :
    b = a ∧ ∀ sig, ¬Accepted t sig := by
  obtain ⟨t₁, t₂, u, rfl, h₁, h₂⟩ := Prog.exec_bind.mp h
  obtain ⟨rfl, rfl⟩ := Prog.exec_ret.mp h₂
  have hunsent := (Prog.only_steps (unsent_of_reading (reading_recordAudit ..)) h₁).1
  rw [List.append_nil]
  exact ⟨rfl, not_accepted_of_unsent hunsent⟩

theorem exec_sendSigned {identity : SpiffeIdentity} {correlationId : String} {tx : Transaction} {t : List CallEvent}
    {r : Except SignSubmitStage (Signature × Nat)} (h : Prog.Exec (sendSigned Γ identity correlationId tx) t r) :
    ResultAccepted t r := by
  obtain ⟨answer, t', rfl, h'⟩ := Prog.exec_perform.mp h
  cases answer with
  | ok sig =>
    obtain ⟨rfl, hnone⟩ := exec_auditThen h'
    intro sig'
    constructor
    · rintro ⟨tx', hmem⟩
      rcases List.mem_cons.mp hmem with heq | hmem
      · cases heq
        exact ⟨0, rfl⟩
      · exact (hnone sig' ⟨tx', hmem⟩).elim
    · rintro ⟨n, hn⟩
      cases hn
      exact ⟨tx, List.mem_cons_self⟩
  | error e =>
    obtain ⟨rfl, hnone⟩ := exec_auditThen h'
    refine resultAccepted_error (fun sig => ?_) _
    rintro ⟨tx', hmem⟩
    rcases List.mem_cons.mp hmem with heq | hmem
    · cases heq
    · exact hnone sig ⟨tx', hmem⟩

/-- The signing path returns the signature of the one submission it made that was accepted. -/
theorem exec_signAndSubmit {serializedTx : Bytes} {keyId : String} {identity : SpiffeIdentity} {correlationId : String}
    {t : List CallEvent} {r : Except SignSubmitStage (Signature × Nat)}
    (h : Prog.Exec (signAndSubmit Γ serializedTx keyId identity correlationId) t r) : ResultAccepted t r := by
  unfold signAndSubmit at h
  split at h
  · obtain ⟨rfl, rfl⟩ := Prog.exec_ret.mp h
    exact resultAccepted_error (not_accepted_of_unsent fun e he => (by cases he)) _
  split at h
  · obtain ⟨rfl, hnone⟩ := exec_auditThen h
    exact resultAccepted_error hnone _
  split at h
  · obtain ⟨t₁, t₂, out, rfl, hsign, h'⟩ := Prog.exec_bind.mp h
    have hunsent := (Prog.only_steps (unsent_signPlatformAdmin ..) hsign).1
    cases out with
    | error stage =>
      obtain ⟨rfl, rfl⟩ := Prog.exec_ret.mp h'
      rw [List.append_nil]
      exact resultAccepted_error (not_accepted_of_unsent hunsent) _
    | ok tx => exact (exec_sendSigned h').prepend hunsent
  split at h
  · obtain ⟨rfl, hnone⟩ := exec_auditThen h
    exact resultAccepted_error hnone _
  · exact exec_sendSigned h

/-- Attempts that are repeated until one succeeds: the result is the signature of the one submission that was accepted. -/
theorem exec_retrySpawn {action : Handler (Except SignSubmitStage (Signature × Nat))}
    (haction : ∀ t r, Prog.Exec action t r → ResultAccepted t r) {n : Nat} {t : List CallEvent}
    {r : Except SignSubmitStage (Signature × Nat)} (h : Prog.Exec (retrySpawn action n) t r) : ResultAccepted t r := by
  induction n generalizing t with
  | zero => exact haction t r h
  | succ n ih =>
    obtain ⟨t₁, t₂, out, rfl, hfirst, h'⟩ := Prog.exec_bind.mp h
    have hout := haction t₁ out hfirst
    cases out with
    | ok out =>
      obtain ⟨rfl, rfl⟩ := Prog.exec_ret.mp h'
      rw [List.append_nil]
      exact hout
    | error stage =>
      intro sig
      have hnone : ¬Accepted t₁ sig := fun ha => by
        obtain ⟨n, hn⟩ := (hout sig).mp ha
        cases hn
      rw [accepted_append, or_iff_right hnone]
      exact ih h' sig

theorem exec_submitWithRetry {envelope : TxSubmitMessage} {t : List CallEvent}
    {r : Except SignSubmitStage (Signature × Nat)} (h : Prog.Exec (submitWithRetry Γ envelope) t r) : ResultAccepted t r :=
  exec_retrySpawn (fun _ _ => exec_signAndSubmit) h

/-! ## The result of a mint -/

/-- What a mint reports for the outcome of the poll. -/
def mintOutcome (Γ : Ctx) (sig : Signature) : ConfirmOutcome → Except String (Signature × Nat)
  | .confirmed slot => .ok (sig, slot)
  | .errored => .error (mintErrored (Γ.signatureToString sig))
  | .pending => .error (mintPending (Γ.signatureToString sig))

/-- A mint reports a success exactly when its polling ends with one. -/
theorem mintOutcome_eq_ok_iff {sig sig' : Signature} {verdict : ConfirmOutcome} {slot : Nat} :
    mintOutcome Γ sig verdict = .ok (sig', slot) ↔ sig = sig' ∧ verdict = .confirmed slot := by
  cases verdict <;> simp [mintOutcome]

/-- The calls of a mint that failed before the poll: those of the signing path and for the key of Vault, no submission accepted. -/
structure Unpolled (Γ : Ctx) (t : List CallEvent) : Prop where
  calls : ∀ e ∈ t, e.1.isSigning = true ∨ e.1 = .getPublicKey Γ.transitKeyName
  unaccepted : ∀ sig, ¬Accepted t sig

theorem unpolled_nil : Unpolled Γ [] := ⟨fun e he => (by cases he), fun sig ⟨tx, hmem⟩ => (by cases hmem)⟩

/-- The request for the key of Vault before calls of the signing path. -/
theorem unpolled_cons {answer : Except String Pubkey} {t : List CallEvent} (ht : ∀ e ∈ t, e.1.isSigning = true)
    (hno : ∀ sig, ¬Accepted t sig) : Unpolled Γ (⟨.getPublicKey Γ.transitKeyName, answer⟩ :: t) := by
  refine ⟨List.forall_mem_cons.mpr ⟨Or.inr rfl, fun e he => Or.inl (ht e he)⟩, ?_⟩
  rintro sig ⟨tx, hmem⟩
  rcases List.mem_cons.mp hmem with heq | hmem
  · cases heq
  · exact hno sig ⟨tx, hmem⟩

/-- A mint that returns failed before the poll, or signed, submitted and polled, and reports the outcome of the poll. -/
theorem exec_buildAndSubmitGenerationMint {recipientWallet : String} {energyKwh : UInt64} {meterId : Vector UInt8 16}
    {windowStartMs : Int64} {identity : SpiffeIdentity} {correlationId : String} {t : List CallEvent}
    {r : Except String (Signature × Nat)}
    (h : Prog.Exec (buildAndSubmitGenerationMint Γ recipientWallet energyKwh meterId windowStartMs identity correlationId) t r) :
    (Unpolled Γ t ∧ ∃ e, r = .error e) ∨
    ∃ payer serialized sig n t₁ t₂ verdict, t = ⟨.getPublicKey Γ.transitKeyName, .ok payer⟩ :: (t₁ ++ t₂) ∧
      Prog.Exec (signAndSubmit Γ serialized platformAdmin identity correlationId) t₁ (.ok (sig, n)) ∧
      Prog.Exec (resolveConfirmation sig) t₂ verdict ∧ r = mintOutcome Γ sig verdict := by
  have hret : ∀ {t : List CallEvent} {e : String} {r : Except String (Signature × Nat)},
      Prog.Exec (.ret (.error e) : Handler _) t r → t = [] ∧ r = .error e := by
    intro t e r h
    obtain ⟨ht, hr⟩ := Prog.exec_ret.mp h
    exact ⟨ht, hr.symm⟩
  have hnil : ∀ e ∈ ([] : List CallEvent), e.1.isSigning = true := fun e he => by cases he
  unfold buildAndSubmitGenerationMint at h
  split at h
  · obtain ⟨rfl, rfl⟩ := hret h
    exact Or.inl ⟨unpolled_nil, _, rfl⟩
  split at h
  · obtain ⟨rfl, rfl⟩ := hret h
    exact Or.inl ⟨unpolled_nil, _, rfl⟩
  obtain ⟨answer, t₀, rfl, h₁⟩ := Prog.exec_perform.mp h
  cases answer with
  | error e =>
    obtain ⟨rfl, rfl⟩ := hret h₁
    exact Or.inl ⟨unpolled_cons hnil (unpolled_nil (Γ := Γ)).unaccepted, _, rfl⟩
  | ok payer =>
    simp only at h₁
    split at h₁
    · obtain ⟨rfl, rfl⟩ := hret h₁
      exact Or.inl ⟨unpolled_cons hnil (unpolled_nil (Γ := Γ)).unaccepted, _, rfl⟩
    rename_i serialized _
    obtain ⟨t₁, t₂, out, rfl, hsign, h₂⟩ := Prog.exec_bind.mp h₁
    have hsigning := (Prog.only_steps (signing_signAndSubmit ..) hsign).1
    cases out with
    | error stage =>
      obtain ⟨rfl, rfl⟩ := hret h₂
      have hno : ∀ sig, ¬Accepted t₁ sig := fun sig ha => by
        obtain ⟨n, hn⟩ := (exec_signAndSubmit hsign sig).mp ha
        cases hn
      rw [List.append_nil]
      exact Or.inl ⟨unpolled_cons hsigning hno, _, rfl⟩
    | ok out =>
      obtain ⟨t₃, t₄, verdict, rfl, hpoll, h₃⟩ := Prog.exec_bind.mp h₂
      have hend : t₄ = [] ∧ r = mintOutcome Γ out.1 verdict := by
        cases verdict <;> exact ⟨(Prog.exec_ret.mp h₃).1, (Prog.exec_ret.mp h₃).2.symm⟩
      obtain ⟨rfl, rfl⟩ := hend
      rw [List.append_nil]
      exact Or.inr ⟨payer, serialized, out.1, out.2, t₁, t₃, verdict, rfl, hsign, hpoll, rfl⟩

/-! ## The gates -/

abbrev Gate {α : Type} (p : Handler α) : Prop := p.Only (fun c => c.isGate = true) (fun _ => True)

theorem gate_refuse {reply : Reply} (hreply : reply.refuses = true)
    (correlationId claimedIdentity action stage reason subject : String) (kind : AckKind) :
    Gate (refuse correlationId claimedIdentity action stage reason subject reply kind) := by
  exact ⟨rfl, fun _ => ⟨rfl, fun _ => ⟨hreply, fun _ => ⟨rfl, fun _ => trivial⟩⟩⟩⟩

theorem only_refuse {K : Call → Prop} (hnow : K .now) (haudit : ∀ entry, K (.auditAppend entry))
    (hpublish : ∀ subject reply, K (.publish subject reply)) (hack : ∀ kind, K (.ack kind))
    (correlationId claimedIdentity action stage reason subject : String) (reply : Reply) (kind : AckKind) :
    (refuse correlationId claimedIdentity action stage reason subject reply kind).Only K (fun _ => True) :=
  ⟨hnow, fun _ => ⟨haudit _, fun _ => ⟨hpublish _ _, fun _ => ⟨hack _, fun _ => trivial⟩⟩⟩⟩

theorem gate_publishAck {reply : Reply} (hreply : reply.refuses = true) (subject : String) (kind : AckKind) :
    Gate (do publish subject reply; ack kind) := by
  exact ⟨hreply, fun _ => ⟨rfl, fun _ => trivial⟩⟩

theorem gate_ack (kind : AckKind) : Gate (ack kind) := ⟨rfl, fun _ => trivial⟩

/-- The calls of a program that starts with a call of the gates are such calls when those of the rest are. -/
theorem gate_cons {i : Call} {a : i.Answer} {t : List CallEvent} (hi : i.isGate = true)
    (ht : ∀ e ∈ t, e.1.isGate = true) : ∀ e ∈ (⟨i, a⟩ : CallEvent) :: t, e.1.isGate = true :=
  List.forall_mem_cons.mpr ⟨hi, ht⟩

theorem gate_nil : ∀ e ∈ ([] : List CallEvent), e.1.isGate = true := fun e he => by cases he

/-- The gates that a submit, a cancel and a mint have in common: the decision on the envelope at a reading, whether the role is
permitted, the key that is looked up, the time of the envelope, and what a refusal does. -/
structure Gates where
  decision : Nat → Except String Unit
  permitted : Except String Unit
  lookup : String
  createdAtMs : Nat
  refuseAuth : String → Handler Unit
  refuseRole : Handler Unit
  refuseStale : Nat → Handler Unit

/-- The gates in the order of the source, and the rest of the handler at the reading that it passed them with. -/
def Gates.run (g : Gates) (rest : Nat → Handler Unit) : Handler Unit := do
  let authMs ← readClock
  match g.decision authMs with
  | .error reason => g.refuseAuth reason
  | .ok () =>
  match g.permitted with
  | .error _ => g.refuseRole
  | .ok () =>
  if ← cacheContains g.lookup then ack .ack
  else
    let nowMs ← readClock
    if nowMs - g.createdAtMs > stalenessMs then g.refuseStale nowMs
    else rest nowMs

/-- A message passes the gates at these readings. -/
structure Gates.Passes (g : Gates) (authMs nowMs : Nat) : Prop where
  authenticated : g.decision authMs = .ok ()
  permitted : g.permitted = .ok ()
  recent : nowMs - g.createdAtMs ≤ stalenessMs

/-- The calls of a message that passes the gates. -/
def Gates.passed (g : Gates) (authMs nowMs : Nat) : List CallEvent :=
  [⟨.now, authMs⟩, ⟨.cacheContains g.lookup, false⟩, ⟨.now, nowMs⟩]

/-- What a refusal does keeps to the calls of the gates. -/
structure Gates.Refuses (g : Gates) : Prop where
  auth : ∀ reason, Gate (g.refuseAuth reason)
  role : Gate g.refuseRole
  stale : ∀ nowMs, Gate (g.refuseStale nowMs)

/-- A partial execution stays in the gates, or passes them and goes on with the rest. -/
theorem Gates.steps_run {g : Gates} (hg : g.Refuses) {rest : Nat → Handler Unit} {t : List CallEvent} {q : Handler Unit}
    (h : Prog.Steps (g.run rest) t q) :
    (∀ e ∈ t, e.1.isGate = true) ∨
      ∃ authMs nowMs t', g.Passes authMs nowMs ∧ t = g.passed authMs nowMs ++ t' ∧ Prog.Steps (rest nowMs) t' q := by
  rcases Prog.steps_perform.mp h with ⟨rfl, -⟩ | ⟨authMs, t₁, rfl, h₁⟩
  · exact Or.inl gate_nil
  cases hauth : g.decision authMs with
  | error reason =>
    rw [hauth] at h₁
    exact Or.inl (gate_cons rfl (Prog.only_steps (hg.auth reason) h₁).1)
  | ok u =>
    rw [hauth] at h₁
    simp only at h₁
    split at h₁
    · exact Or.inl (gate_cons rfl (Prog.only_steps hg.role h₁).1)
    rename_i hrole
    rcases Prog.steps_perform.mp h₁ with ⟨rfl, -⟩ | ⟨found, t₂, rfl, h₂⟩
    · exact Or.inl (gate_cons rfl gate_nil)
    cases found with
    | true => exact Or.inl (gate_cons rfl (gate_cons rfl (Prog.only_steps (gate_ack .ack) h₂).1))
    | false =>
      rcases Prog.steps_perform.mp h₂ with ⟨rfl, -⟩ | ⟨nowMs, t₃, rfl, h₃⟩
      · exact Or.inl (gate_cons rfl (gate_cons rfl gate_nil))
      split at h₃
      · exact Or.inl (gate_cons rfl (gate_cons rfl (gate_cons rfl (Prog.only_steps (hg.stale nowMs) h₃).1)))
      rename_i hstale
      exact Or.inr ⟨authMs, nowMs, t₃, ⟨hauth, hrole, Nat.le_of_not_lt hstale⟩, rfl, h₃⟩

/-- The calls of a handler with gates. -/
theorem Gates.only_run {g : Gates} {K : Call → Prop} (hnow : K .now) (hlookup : K (.cacheContains g.lookup)) (hack : K (.ack .ack))
    (hauth : ∀ reason, (g.refuseAuth reason).Only K (fun _ => True)) (hrole : g.refuseRole.Only K (fun _ => True))
    (hstale : ∀ nowMs, (g.refuseStale nowMs).Only K (fun _ => True)) {rest : Nat → Handler Unit}
    (hrest : ∀ nowMs, (rest nowMs).Only K (fun _ => True)) : (g.run rest).Only K (fun _ => True) := by
  refine Prog.only_perform.mpr ⟨hnow, fun authMs => ?_⟩
  cases g.decision authMs with
  | error reason => exact hauth reason
  | ok u =>
    cases g.permitted with
    | error e => exact hrole
    | ok u =>
      refine Prog.only_perform.mpr ⟨hlookup, fun found => ?_⟩
      cases found with
      | true => exact ⟨hack, fun _ => trivial⟩
      | false =>
        refine Prog.only_perform.mpr ⟨hnow, fun nowMs => ?_⟩
        split
        · exact hstale nowMs
        · exact hrest nowMs

/-! ## The gates of the three handlers -/

/-- Whether a role is known, as the submit and the cancel handler ask. -/
def knownRole (Γ : Ctx) (claimedIdentity : String) : Except String Unit :=
  if Γ.serviceRole ⟨claimedIdentity⟩ = .unknown then .error "unknown service role" else .ok ()

def submitGates (Γ : Ctx) (envelope : TxSubmitMessage) : Gates :=
  let refuseWith (stage reason error : String) (kind : AckKind) : Handler Unit :=
    refuse envelope.correlationId envelope.serviceIdentity "submit" stage reason envelope.replySubject
      (.tx (.failure envelope.correlationId error)) kind
  { decision := envelopeDecision Γ envelope.auth envelope.serviceIdentity (Γ.canonicalSubmitBytes envelope) false
    permitted := knownRole Γ envelope.serviceIdentity
    lookup := envelope.correlationId
    createdAtMs := envelope.createdAtMs
    refuseAuth := fun reason => refuseWith "auth" (authReason reason) (authReason reason) .term
    refuseRole :=
      refuseWith "rbac" "unknown service role" ("Unauthorised service identity: " ++ envelope.serviceIdentity) .term
    refuseStale := fun nowMs =>
      refuseWith "stale" ("stale envelope: age " ++ toString (nowMs - envelope.createdAtMs) ++ "ms")
        "Stale transaction — blockhash may be expired" .ack }

def cancelGates (Γ : Ctx) (envelope : TxCancelMessage) : Gates :=
  let refuseWith (stage reason error : String) (kind : AckKind) : Handler Unit :=
    refuse envelope.correlationId envelope.serviceIdentity "cancel" stage reason envelope.replySubject
      (.cancel (.failure envelope.correlationId error)) kind
  { decision := envelopeDecision Γ envelope.auth envelope.serviceIdentity (Γ.canonicalCancelBytes envelope) false
    permitted := knownRole Γ envelope.serviceIdentity
    lookup := cancelKey envelope.correlationId
    createdAtMs := envelope.createdAtMs
    refuseAuth := fun reason => refuseWith "auth" (authReason reason) (authReason reason) .term
    refuseRole :=
      refuseWith "rbac" "unknown service role" ("Unauthorised service identity: " ++ envelope.serviceIdentity) .term
    refuseStale := fun _ => refuseWith "stale" "stale cancellation request" "Cancellation request stale" .ack }

def mintGates (Γ : Ctx) (envelope : MintEnergyMessage) : Gates :=
  let refuseWith (stage reason error : String) (kind : AckKind) : Handler Unit :=
    refuse envelope.correlationId envelope.serviceIdentity "mint" stage reason envelope.replySubject
      (.mint (.failure envelope.correlationId error)) kind
  { decision := envelopeDecision Γ envelope.auth envelope.serviceIdentity (Γ.canonicalMintBytes envelope) true
    permitted := Γ.requireAny (Γ.serviceRole ⟨envelope.serviceIdentity⟩) [.aggregatorBridge, .meterService]
    lookup := envelope.correlationId
    createdAtMs := envelope.createdAtMs
    refuseAuth := fun reason => refuseWith "auth" (authReason reason) (authReason reason) .term
    refuseRole := refuseWith "rbac" "role not permitted to mint"
      ("Unauthorised service identity for mint: " ++ envelope.serviceIdentity) .term
    refuseStale := fun nowMs =>
      refuseWith "stale" ("stale envelope: age " ++ toString (nowMs - envelope.createdAtMs) ++ "ms")
        "Stale mint request" .ack }

theorem submitGates_refuses (envelope : TxSubmitMessage) : (submitGates Γ envelope).Refuses :=
  ⟨fun _ => gate_refuse rfl .., gate_refuse rfl .., fun _ => gate_refuse rfl ..⟩

theorem cancelGates_refuses (envelope : TxCancelMessage) : (cancelGates Γ envelope).Refuses :=
  ⟨fun _ => gate_refuse rfl .., gate_refuse rfl .., fun _ => gate_refuse rfl ..⟩

theorem mintGates_refuses (envelope : MintEnergyMessage) : (mintGates Γ envelope).Refuses :=
  ⟨fun _ => gate_refuse rfl .., gate_refuse rfl .., fun _ => gate_refuse rfl ..⟩

/-! ## The rest of the three handlers -/

/-- The rest of a cancel that is accepted: record it under its two keys, report it, acknowledge. -/
def cancelRest (envelope : TxCancelMessage) (nowMs : Nat) : Handler Unit := do
  let _ ← Prog.perform (Call.cacheInsert (cancelKey envelope.correlationId) (u64Add nowMs correlationTtlMs))
  let _ ← Prog.perform (Call.cacheInsert envelope.correlationId (u64Add nowMs correlationTtlMs))
  publish envelope.replySubject (.cancel { correlationId := envelope.correlationId, success := true, error := none })
  ack .ack

/-- The rest of a submit once its claim is answered. -/
def submitClaimed (Γ : Ctx) (envelope : TxSubmitMessage) (nowMs : Nat) : Option TxResultMessage → Handler Unit
  | some result => do
    publish envelope.replySubject (.tx result)
    ack .ack
  | none => submitEffect Γ envelope (dedupKey .submit envelope.idempotencyKey) nowMs

/-- The rest of a mint once its claim is answered. -/
def mintClaimed (Γ : Ctx) (envelope : MintEnergyMessage) (nowMs : Nat) : Option TxResultMessage → Handler Unit
  | some prior => do
    publish envelope.replySubject (.mint (mintReplay prior))
    ack .ack
  | none => mintEffect Γ envelope (dedupKey .mint envelope.idempotencyKey) nowMs

/-- The rest of a mint that passed its gates: the claim and what follows it. -/
def mintRest (Γ : Ctx) (envelope : MintEnergyMessage) (nowMs : Nat) : Handler Unit := do
  let a ← Prog.perform (Call.claim (dedupKey .mint envelope.idempotencyKey) envelope.correlationId nowMs)
  mintClaimed Γ envelope nowMs a

/-- The end of a submit: record the outcome, publish it, acknowledge. -/
def submitFinish (Γ : Ctx) (envelope : TxSubmitMessage) (key : Option String) (nowMs : Nat) :
    Except SignSubmitStage (Signature × Nat) → Handler Unit
  | .ok (sig, slot) => do
    let _ ← Prog.perform (Call.cacheInsert envelope.correlationId (u64Add nowMs correlationTtlMs))
    if let some key := key then
      let _ ← Prog.perform (Call.dedupInsert key (doneAt nowMs (Γ.signatureToString sig) slot))
    publish envelope.replySubject (.tx
      { correlationId := envelope.correlationId, success := true, signature := some (Γ.signatureToString sig),
        error := none, slot := slot, deduplicated := false })
    ack .ack
  | .error stage => do
    if let some key := key then
      let _ ← Prog.perform (Call.dedupRemove key)
    publish envelope.replySubject (.tx (.failure envelope.correlationId stage.display))
    ack .ack

/-- The end of a mint: record the outcome, publish it, acknowledge. -/
def mintFinish (Γ : Ctx) (envelope : MintEnergyMessage) (key : Option String) (nowMs : Nat) :
    Except String (Signature × Nat) → Handler Unit
  | .ok (sig, slot) => do
    let _ ← Prog.perform (Call.cacheInsert envelope.correlationId (u64Add nowMs correlationTtlMs))
    if let some key := key then
      let _ ← Prog.perform (Call.dedupInsert key (doneAt nowMs (Γ.signatureToString sig) slot))
    publish envelope.replySubject (.mint
      { correlationId := envelope.correlationId, success := true, signature := some (Γ.signatureToString sig),
        error := none, slot := slot, deduplicated := false })
    ack .ack
  | .error e => do
    if let some key := key then
      let _ ← Prog.perform (Call.dedupRemove key)
    publish envelope.replySubject (.mint (.failure envelope.correlationId e))
    ack .ack

/-- The calls that finish an effect: an outcome is recorded in the two maps, a failure releases the key; then the result is
published and the delivery acknowledged. -/
def finishCalls (correlationId replySubject : String) (key : Option String) (nowMs : Nat) (reply : Reply) :
    Option (String × Nat) → List Call
  | some (signature, slot) =>
    .cacheInsert correlationId (u64Add nowMs correlationTtlMs) ::
      (key.map fun key => Call.dedupInsert key (doneAt nowMs signature slot)).toList ++ [.publish replySubject reply, .ack .ack]
  | none => (key.map Call.dedupRemove).toList ++ [.publish replySubject reply, .ack .ack]

/-- The result a submit publishes for the outcome of its own attempt. -/
def submitReply (Γ : Ctx) (correlationId : String) : Except SignSubmitStage (Signature × Nat) → TxResultMessage
  | .ok (sig, slot) =>
    { correlationId, success := true, signature := some (Γ.signatureToString sig), error := none, slot, deduplicated := false }
  | .error stage => .failure correlationId stage.display

/-- The result a mint publishes for the outcome of its own attempt. -/
def mintReply (Γ : Ctx) (correlationId : String) : Except String (Signature × Nat) → MintEnergyResultMessage
  | .ok (sig, slot) =>
    { correlationId, success := true, signature := some (Γ.signatureToString sig), error := none, slot, deduplicated := false }
  | .error e => .failure correlationId e

/-- The signature text and the slot of an outcome. -/
def effectDone (Γ : Ctx) {ε : Type} (r : Except ε (Signature × Nat)) : Option (String × Nat) :=
  r.toOption.map fun out => (Γ.signatureToString out.1, out.2)

theorem submitFinish_eq (envelope : TxSubmitMessage) (key : Option String) (nowMs : Nat)
    (r : Except SignSubmitStage (Signature × Nat)) :
    submitFinish Γ envelope key nowMs r = Prog.performAll (finishCalls envelope.correlationId envelope.replySubject key nowMs
      (.tx (submitReply Γ envelope.correlationId r)) (effectDone Γ r)) := by
  cases r <;> cases key <;> rfl

theorem mintFinish_eq (envelope : MintEnergyMessage) (key : Option String) (nowMs : Nat)
    (r : Except String (Signature × Nat)) :
    mintFinish Γ envelope key nowMs r = Prog.performAll (finishCalls envelope.correlationId envelope.replySubject key nowMs
      (.mint (mintReply Γ envelope.correlationId r)) (effectDone Γ r)) := by
  cases r <;> cases key <;> rfl

theorem cancelRest_eq (envelope : TxCancelMessage) (nowMs : Nat) :
    cancelRest envelope nowMs = Prog.performAll
      [.cacheInsert (cancelKey envelope.correlationId) (u64Add nowMs correlationTtlMs),
       .cacheInsert envelope.correlationId (u64Add nowMs correlationTtlMs),
       .publish envelope.replySubject (.cancel { correlationId := envelope.correlationId, success := true, error := none }),
       .ack .ack] := rfl

theorem submitEffect_eq (envelope : TxSubmitMessage) (key : Option String) (nowMs : Nat) :
    submitEffect Γ envelope key nowMs = (submitWithRetry Γ envelope >>= submitFinish Γ envelope key nowMs) := rfl

theorem mintEffect_eq (envelope : MintEnergyMessage) (key : Option String) (nowMs : Nat) :
    mintEffect Γ envelope key nowMs =
      (buildAndSubmitGenerationMint Γ envelope.recipientWallet envelope.energyKwh envelope.meterId envelope.windowStartMs
        ⟨envelope.serviceIdentity⟩ envelope.correlationId >>= mintFinish Γ envelope key nowMs) := rfl

theorem handleSubmit_eq (envelope : TxSubmitMessage) :
    handleSubmit Γ (.ok envelope) = (submitGates Γ envelope).run (submitChecked Γ envelope) := by
  refine congrArg (Prog.call Call.now) (funext fun authMs => ?_)
  simp only [Prog.bind, submitGates, knownRole]
  cases envelopeDecision Γ envelope.auth envelope.serviceIdentity (Γ.canonicalSubmitBytes envelope) false authMs with
  | error reason => rfl
  | ok u => by_cases hrole : Γ.serviceRole ⟨envelope.serviceIdentity⟩ = .unknown <;> simp only [hrole, if_true, if_false] <;> rfl

theorem handleCancel_eq (envelope : TxCancelMessage) :
    handleCancel Γ (.ok envelope) = (cancelGates Γ envelope).run (cancelRest envelope) := by
  refine congrArg (Prog.call Call.now) (funext fun authMs => ?_)
  simp only [Prog.bind, cancelGates, knownRole]
  cases envelopeDecision Γ envelope.auth envelope.serviceIdentity (Γ.canonicalCancelBytes envelope) false authMs with
  | error reason => rfl
  | ok u => by_cases hrole : Γ.serviceRole ⟨envelope.serviceIdentity⟩ = .unknown <;> simp only [hrole, if_true, if_false] <;> rfl

theorem handleMint_eq (envelope : MintEnergyMessage) :
    handleMint Γ (.ok envelope) = (mintGates Γ envelope).run (mintRest Γ envelope) := by
  refine congrArg (Prog.call Call.now) (funext fun authMs => ?_)
  simp only [Prog.bind, mintGates]
  cases envelopeDecision Γ envelope.auth envelope.serviceIdentity (Γ.canonicalMintBytes envelope) true authMs with
  | error reason => rfl
  | ok u =>
    cases Γ.requireAny (Γ.serviceRole ⟨envelope.serviceIdentity⟩) [.aggregatorBridge, .meterService] with
    | error e => rfl
    | ok u =>
      refine congrArg (Prog.call (Call.cacheContains envelope.correlationId)) (funext fun found => ?_)
      cases found with
      | true => rfl
      | false =>
        refine congrArg (Prog.call Call.now) (funext fun nowMs => ?_)
        by_cases hstale : nowMs - envelope.createdAtMs > stalenessMs
        · simp only [Prog.bind, hstale, if_true]
        · simp only [Prog.bind, hstale, if_false]
          refine congrArg (Prog.call (Call.claim _ envelope.correlationId nowMs)) (funext fun a => ?_)
          cases a <;> rfl

/-! ## What a partial execution of a handler is -/

/-- The calls of the gates of a handler that claims, with the answers that let it pass. -/
def claimTrace (key : Option String) (correlationId : String) (authMs nowMs : Nat) (a : Option TxResultMessage) :
    List CallEvent :=
  [⟨.now, authMs⟩, ⟨.cacheContains correlationId, false⟩, ⟨.now, nowMs⟩, ⟨.claim key correlationId nowMs, a⟩]

/-- The checks of a submit that no retry can change. -/
structure SubmitChecks (Γ : Ctx) (envelope : TxSubmitMessage) (tx : Transaction) : Prop where
  decoded : Γ.deserialize envelope.serializedTx = .ok tx
  allowed : Γ.validateTransaction ⟨envelope.serviceIdentity⟩ tx = .ok ()
  signer : envelope.keyId = platformAdmin ∨ envelope.keyId = ""

/-- A submit that passed its gates is refused by a check, or makes its claim and goes on with the answer. -/
theorem steps_submitChecked {envelope : TxSubmitMessage} {nowMs : Nat} {t : List CallEvent} {q : Handler Unit}
    (h : Prog.Steps (submitChecked Γ envelope nowMs) t q) :
    (∀ e ∈ t, e.1.isGate = true) ∨ ∃ tx a t', SubmitChecks Γ envelope tx ∧
      t = ⟨.claim (dedupKey .submit envelope.idempotencyKey) envelope.correlationId nowMs, a⟩ :: t' ∧
      Prog.Steps (submitClaimed Γ envelope nowMs a) t' q := by
  unfold submitChecked at h
  simp only at h
  split at h
  · exact Or.inl (Prog.only_steps (gate_publishAck rfl ..) h).1
  rename_i tx hdecoded
  split at h
  · exact Or.inl (Prog.only_steps (gate_refuse rfl ..) h).1
  rename_i hallowed
  split at h
  · exact Or.inl (Prog.only_steps (gate_refuse rfl ..) h).1
  rename_i hkey
  have hsigner : envelope.keyId = platformAdmin ∨ envelope.keyId = "" := by
    by_cases hadmin : envelope.keyId = platformAdmin
    · exact Or.inl hadmin
    · exact Or.inr (Decidable.by_contra fun hne => hkey ⟨hadmin, hne⟩)
  rcases Prog.steps_perform.mp h with ⟨rfl, -⟩ | ⟨a, t', rfl, h'⟩
  · exact Or.inl gate_nil
  refine Or.inr ⟨tx, a, t', ⟨hdecoded, hallowed, hsigner⟩, rfl, ?_⟩
  cases a <;> exact h'

/-- The calls of the gates that a message passed are such calls. -/
theorem gate_passed {g : Gates} {authMs nowMs : Nat} {t : List CallEvent} (ht : ∀ e ∈ t, e.1.isGate = true) :
    ∀ e ∈ g.passed authMs nowMs ++ t, e.1.isGate = true :=
  gate_cons rfl (gate_cons rfl (gate_cons rfl ht))

/-- A partial execution of a submit stays in the gates, or passes them and goes on with the answer to its claim. -/
theorem steps_handleSubmit {payload : Except String TxSubmitMessage} {t : List CallEvent} {q : Handler Unit}
    (h : Prog.Steps (handleSubmit Γ payload) t q) :
    (∀ e ∈ t, e.1.isGate = true) ∨ ∃ envelope authMs nowMs tx a t', payload = .ok envelope ∧
      (submitGates Γ envelope).Passes authMs nowMs ∧ SubmitChecks Γ envelope tx ∧
      t = claimTrace (dedupKey .submit envelope.idempotencyKey) envelope.correlationId authMs nowMs a ++ t' ∧
      Prog.Steps (submitClaimed Γ envelope nowMs a) t' q := by
  cases payload with
  | error e => exact Or.inl (Prog.only_steps (gate_ack .term) h).1
  | ok envelope =>
    rw [handleSubmit_eq] at h
    rcases Gates.steps_run (submitGates_refuses envelope) h with hgates | ⟨authMs, nowMs, t₁, hpasses, rfl, h₁⟩
    · exact Or.inl hgates
    rcases steps_submitChecked h₁ with hgates | ⟨tx, a, t', hchecks, rfl, h'⟩
    · exact Or.inl (gate_passed hgates)
    · exact Or.inr ⟨envelope, authMs, nowMs, tx, a, t', rfl, hpasses, hchecks, rfl, h'⟩

/-- A partial execution of a cancel stays in the gates, or passes them and goes on to record the cancellation. -/
theorem steps_handleCancel {payload : Except String TxCancelMessage} {t : List CallEvent} {q : Handler Unit}
    (h : Prog.Steps (handleCancel Γ payload) t q) :
    (∀ e ∈ t, e.1.isGate = true) ∨ ∃ envelope authMs nowMs t', payload = .ok envelope ∧
      (cancelGates Γ envelope).Passes authMs nowMs ∧ t = (cancelGates Γ envelope).passed authMs nowMs ++ t' ∧
      Prog.Steps (cancelRest envelope nowMs) t' q := by
  cases payload with
  | error e => exact Or.inl (Prog.only_steps (gate_ack .term) h).1
  | ok envelope =>
    rw [handleCancel_eq] at h
    rcases Gates.steps_run (cancelGates_refuses envelope) h with hgates | ⟨authMs, nowMs, t', hpasses, rfl, h'⟩
    · exact Or.inl hgates
    · exact Or.inr ⟨envelope, authMs, nowMs, t', rfl, hpasses, rfl, h'⟩

/-- A partial execution of a mint stays in the gates, or passes them and goes on with the answer to its claim. -/
theorem steps_handleMint {payload : Except String MintEnergyMessage} {t : List CallEvent} {q : Handler Unit}
    (h : Prog.Steps (handleMint Γ payload) t q) :
    (∀ e ∈ t, e.1.isGate = true) ∨ ∃ envelope authMs nowMs a t', payload = .ok envelope ∧
      (mintGates Γ envelope).Passes authMs nowMs ∧
      t = claimTrace (dedupKey .mint envelope.idempotencyKey) envelope.correlationId authMs nowMs a ++ t' ∧
      Prog.Steps (mintClaimed Γ envelope nowMs a) t' q := by
  cases payload with
  | error e => exact Or.inl (Prog.only_steps (gate_ack .term) h).1
  | ok envelope =>
    rw [handleMint_eq] at h
    rcases Gates.steps_run (mintGates_refuses envelope) h with hgates | ⟨authMs, nowMs, t₁, hpasses, rfl, h₁⟩
    · exact Or.inl hgates
    rcases Prog.steps_perform.mp h₁ with ⟨rfl, -⟩ | ⟨a, t', rfl, h'⟩
    · exact Or.inl (gate_passed gate_nil)
    · exact Or.inr ⟨envelope, authMs, nowMs, a, t', rfl, hpasses, rfl, h'⟩

/-- A status query audits, asks for a status, reports and acknowledges. -/
theorem only_handleStatus {K : Call → Prop} (hnow : K .now) (haudit : ∀ entry, K (.auditAppend entry))
    (hstatus : ∀ sig, K (.getSignatureStatuses sig)) (hpublish : ∀ subject reply, K (.publish subject reply))
    (hack : ∀ kind, K (.ack kind)) (payload : Except String TxStatusMessage) :
    (handleStatus Γ payload).Only K (fun _ => True) := by
  cases payload with
  | error e => exact ⟨hack _, fun _ => trivial⟩
  | ok envelope =>
    refine Prog.only_perform.mpr ⟨hnow, fun authMs => ?_⟩
    cases envelopeDecision Γ envelope.auth envelope.serviceIdentity (Γ.canonicalStatusBytes envelope) false authMs with
    | error reason => exact only_refuse hnow haudit hpublish hack ..
    | ok u =>
      simp only
      split
      · exact only_refuse hnow haudit hpublish hack ..
      have hread : (signatureStatus Γ envelope.signature).Only K (fun _ => True) := by
        unfold signatureStatus
        split
        · trivial
        · refine Prog.only_perform.mpr ⟨hstatus _, fun answer => ?_⟩
          rcases answer with e | _ | ⟨_ | status, rest⟩ <;> trivial
      exact Prog.only_bind hread fun r _ => ⟨hpublish _ _, fun _ => ⟨hack _, fun _ => trivial⟩⟩

end HandlersAux

end ChainBridge
