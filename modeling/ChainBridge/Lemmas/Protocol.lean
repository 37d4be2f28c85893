import ChainBridge.Lemmas.Handlers
import ChainBridge.Protocol

/-!
# Every handler keeps the protocol

One rule for the parts that only read and audit, and one lemma for each other part of a handler, up to the dispatch: under which
progress it may start, and what the progress is when it returns. A part that reads the clock changes the last reading; the
lemmas say so by quantifying over it.
-/

namespace ChainBridge

open Interleave

namespace ProtocolAux

open SilentAux HandlersAux

variable {Γ : Ctx} {s : Progress}

/-- A handler whose claim was not answered. -/
def Open (s : Progress) : Prop := ∀ prior, s.stage ≠ .answered prior

theorem allow_iff (h : Open s) (c : Call) : (protocol Γ).allow s c ↔ allowOpen Γ s c := by
  show Progress.allow Γ s c ↔ _
  unfold Progress.allow
  split
  · rename_i prior hs
    exact (h prior hs).elim
  · exact Iff.rfl

theorem open_of_holding {nowMs : Nat} (h : s.stage = .holding nowMs) : Open s := by
  intro prior hp
  rw [h] at hp
  cases hp

theorem open_of_accepted {nowMs : Nat} {sig : Signature} (h : s.stage = .accepted nowMs sig) : Open s := by
  intro prior hp
  rw [h] at hp
  cases hp

theorem open_of_gates (h : s.stage = .gates) : Open s := by
  intro prior hp
  rw [h] at hp
  cases hp

theorem open_of_closed (h : s.stage = .closed) : Open s := by
  intro prior hp
  rw [h] at hp
  cases hp

/-! ## The parts that only report -/

/-- A silent part changes at most the last reading. -/
theorem wp_silent (h : Open s) {α : Type} {p : Handler α} {R : α → Prop} (hp : Silent p R) {Q : Progress → α → Prop}
    (hQ : ∀ n a, R a → Q { s with reading := n } a) : p.wp (protocol Γ).toMonitor s Q := by
  refine Prog.wp_of_only hp (I := fun s' => ∃ n, s' = { s with reading := n }) ?_ ⟨s.reading, rfl⟩ ?_
  · rintro _ ⟨n, rfl⟩ c hc
    have hopen : Open { s with reading := n } := h
    refine ⟨(allow_iff hopen c).mpr ?_, fun r => ?_⟩
    · cases c <;> trivial
    · cases c with
      | now => exact ⟨r, rfl⟩
      | _ => first | exact ⟨n, rfl⟩ | cases hc
  · rintro _ a ⟨n, rfl⟩ ha
    exact hQ n a ha

theorem wp_recordAudit (h : Open s) {Q : Progress → Unit → Prop} (hQ : ∀ n, Q { s with reading := n } ())
    (correlationId : String) (identity : SpiffeIdentity) (action : String) (outcome : AuditOutcome) :
    (recordAudit correlationId identity action outcome).wp (protocol Γ).toMonitor s Q :=
  wp_silent h (silent_of_reading (reading_recordAudit ..)) fun n _ _ => hQ n

/-- A reply that reports no successful cancellation. -/
def Plain : Reply → Prop
  | .cancel r => r.success = false
  | _ => True

theorem wp_publish (h : Open s) {subject : String} {reply : Reply} (hr : Plain reply) {Q : Progress → Unit → Prop}
    (hQ : Q s ()) : (publish subject reply).wp (protocol Γ).toMonitor s Q := by
  refine ⟨(allow_iff h _).mpr ?_, fun _ => hQ⟩
  cases reply with
  | cancel r =>
    intro hsucc
    rw [show r.success = false from hr] at hsucc
    cases hsucc
  | tx r => trivial
  | mint r => trivial
  | status r => trivial

theorem wp_ack (h : Open s) (kind : AckKind) {Q : Progress → Unit → Prop} (hQ : Q s ()) :
    (ack kind).wp (protocol Γ).toMonitor s Q :=
  ⟨(allow_iff h _).mpr trivial, fun _ => hQ⟩

/-- The end of a handler: a result and the acknowledgement. -/
theorem wp_publish_ack (h : Open s) {subject : String} {reply : Reply} (hr : Plain reply) (kind : AckKind) :
    (do publish subject reply; ack kind : Handler Unit).wp (protocol Γ).toMonitor s (fun _ _ => True) := by
  rw [Prog.wp_bind]
  exact wp_publish h hr (wp_ack h kind trivial)

/-- The end of a handler at a gate. -/
theorem wp_refuse (h : Open s) {reply : Reply} (hr : Plain reply) (correlationId claimedIdentity action stage reason : String)
    (subject : String) (kind : AckKind) :
    (refuse correlationId claimedIdentity action stage reason subject reply kind).wp (protocol Γ).toMonitor s
      (fun _ _ => True) := by
  unfold refuse auditRejection
  rw [Prog.wp_bind]
  exact wp_recordAudit h (fun n => wp_publish_ack (s := { s with reading := n }) h hr kind) _ _ _ _

/-! ## The signing path -/

theorem wp_vaultSign {nowMs : Nat} (hs : s.stage = .holding nowMs) (tx : Transaction)
    {Q : Progress → Except SignSubmitStage Transaction → Prop} (hQ : ∀ n r, Q { s with reading := n } r) :
    (vaultSign Γ tx).wp (protocol Γ).toMonitor s Q := by
  have h := open_of_holding hs
  unfold vaultSign
  rw [Prog.wp_bind]
  refine wp_silent h (silent_of_reading (reading_of_checked (checked_logPayer tx))) fun n _ _ => ?_
  refine ⟨(allow_iff (s := { s with reading := n }) h _).mpr ⟨nowMs, hs⟩, fun answer => ?_⟩
  cases answer with
  | error e => exact hQ n _
  | ok sig =>
    show ((attachSignature tx sig >>= _ : Handler _)).wp _ _ _
    rw [Prog.wp_bind]
    exact wp_silent (s := { s with reading := n }) h
      (silent_of_reading (reading_of_checked (checked_attachSignature tx sig))) fun n' _ _ => hQ n' _

/-- The signing path holds its claim throughout: before the submission only the reading changes. -/
theorem wp_signPlatformAdmin {nowMs : Nat} (hs : s.stage = .holding nowMs) (identity : SpiffeIdentity)
    (correlationId : String) (tx : Transaction) {Q : Progress → Except SignSubmitStage Transaction → Prop}
    (hQ : ∀ n r, Q { s with reading := n } r) :
    (signPlatformAdmin Γ identity correlationId tx).wp (protocol Γ).toMonitor s Q := by
  have h := open_of_holding hs
  unfold signPlatformAdmin
  rw [Prog.wp_bind]
  refine wp_silent h (silent_of_reading (reading_selectBlockhash tx)) fun n r _ => ?_
  cases r with
  | error stage => exact hQ n _
  | ok tx' =>
    show ((presignSimulate Γ identity correlationId tx' >>= _ : Handler _)).wp _ _ _
    rw [Prog.wp_bind]
    refine wp_silent (s := { s with reading := n }) h
      (silent_of_reading (reading_presignSimulate identity correlationId tx')) fun n' r _ => ?_
    cases r with
    | error stage => exact hQ n' _
    | ok u => exact wp_vaultSign (s := { s with reading := n' }) hs tx' hQ

/-- What the signing path leaves behind: after an accepted submission the claim is `accepted`, after a failure it is held as
before. -/
structure SignPost (s : Progress) (nowMs : Nat) (Q : Progress → Except SignSubmitStage (Signature × Nat) → Prop) : Prop where
  accepted : ∀ n sig slot, Q { s with reading := n, stage := .accepted nowMs sig } (.ok (sig, slot))
  failed : ∀ n stage, Q { s with reading := n } (.error stage)

theorem wp_sendSigned {nowMs : Nat} (hs : s.stage = .holding nowMs) (hl : s.looked = true) (identity : SpiffeIdentity)
    (correlationId : String) (tx : Transaction) {Q : Progress → Except SignSubmitStage (Signature × Nat) → Prop}
    (hQ : SignPost s nowMs Q) : (sendSigned Γ identity correlationId tx).wp (protocol Γ).toMonitor s Q := by
  have h := open_of_holding hs
  unfold sendSigned
  refine ⟨(allow_iff h _).mpr ⟨hl, nowMs, hs⟩, fun answer => ?_⟩
  cases answer with
  | error e =>
    show ((auditSignRejection _ _ _ _ >>= _ : Handler _)).wp _ s _
    rw [Prog.wp_bind]
    exact wp_recordAudit h (fun n => hQ.failed n _) _ _ _ _
  | ok sig =>
    have hnext : (protocol Γ).next s (.sendTransaction tx) (.ok sig) = { s with stage := .accepted nowMs sig } := by
      show Progress.next s (.sendTransaction tx) (.ok sig) = _
      unfold Progress.next
      simp only [hs]
    show ((recordAudit _ _ _ _ >>= _ : Handler _)).wp _ ((protocol Γ).next s _ _) _
    rw [Prog.wp_bind, hnext]
    exact wp_recordAudit (open_of_accepted rfl) (fun n => hQ.accepted n sig 0) _ _ _ _

theorem wp_signAndSubmit {nowMs : Nat} (hs : s.stage = .holding nowMs) (hl : s.looked = true) (serializedTx : Bytes)
    (keyId : String) (identity : SpiffeIdentity) (correlationId : String)
    {Q : Progress → Except SignSubmitStage (Signature × Nat) → Prop} (hQ : SignPost s nowMs Q) :
    (signAndSubmit Γ serializedTx keyId identity correlationId).wp (protocol Γ).toMonitor s Q := by
  have h := open_of_holding hs
  unfold signAndSubmit
  split
  · exact hQ.failed s.reading _
  · split
    · rw [Prog.wp_bind]
      exact wp_recordAudit h (fun n => hQ.failed n _) _ _ _ _
    · split
      · rw [Prog.wp_bind]
        refine wp_signPlatformAdmin hs identity correlationId _ (fun n r => ?_)
        cases r with
        | error stage => exact hQ.failed n _
        | ok tx =>
          exact wp_sendSigned (s := { s with reading := n }) hs hl identity correlationId tx
            ⟨fun n' sig slot => hQ.accepted n' sig slot, fun n' stage => hQ.failed n' stage⟩
      · split
        · rw [Prog.wp_bind]
          exact wp_recordAudit h (fun n => hQ.failed n _) _ _ _ _
        · exact wp_sendSigned hs hl identity correlationId _ hQ

/-- Retrying keeps the claim held until an attempt succeeds. -/
theorem wp_retrySpawn {nowMs : Nat} {action : Handler (Except SignSubmitStage (Signature × Nat))}
    (haction : ∀ (n : Nat) (Q : Progress → Except SignSubmitStage (Signature × Nat) → Prop),
      SignPost { s with reading := n } nowMs Q → action.wp (protocol Γ).toMonitor { s with reading := n } Q)
    {Q : Progress → Except SignSubmitStage (Signature × Nat) → Prop} (hQ : SignPost s nowMs Q) (delays n : Nat) :
    (retrySpawn action delays).wp (protocol Γ).toMonitor { s with reading := n } Q := by
  induction delays generalizing n with
  | zero => exact haction n Q ⟨hQ.accepted, hQ.failed⟩
  | succ delays ih =>
    rw [retrySpawn, Prog.wp_bind]
    exact haction n _ ⟨fun n' sig slot => hQ.accepted n' sig slot, fun n' _ => ih n'⟩

/-! ## The handlers -/

/-- The end of a handler that has finished its claim. -/
theorem wp_finish (h : Open s) {key : Option String} (finish : String → Call) {subject : String} {reply : Reply}
    (hr : Plain reply) (hf : ∀ k, key = some k → (protocol Γ).allow s (finish k))
    (hn : ∀ k r, (protocol Γ).next s (finish k) r = { s with stage := .closed }) :
    (do
      if let some k := key then
        let _ ← Prog.perform (finish k)
      publish subject reply
      ack .ack : Handler Unit).wp (protocol Γ).toMonitor s (fun _ _ => True) := by
  cases key with
  | none => exact wp_publish_ack h hr _
  | some k =>
    refine ⟨hf k rfl, fun r => ?_⟩
    rw [hn k r]
    exact wp_publish_ack (open_of_closed rfl) hr _

theorem wp_submitEffect {nowMs : Nat} (hs : s.stage = .holding nowMs) (hl : s.looked = true)
    (envelope : TxSubmitMessage) : 
    (submitEffect Γ envelope s.key nowMs).wp (protocol Γ).toMonitor s (fun _ _ => True) := by
  unfold submitEffect submitWithRetry
  rw [Prog.wp_bind]
  refine wp_retrySpawn (s := s)
    (fun n Q hQ => wp_signAndSubmit (s := { s with reading := n }) hs hl _ _ _ _ hQ)
    ⟨fun n sig slot => ?_, fun n stage => ?_⟩ retryDelays s.reading
  · refine ⟨(allow_iff (open_of_accepted rfl) _).mpr trivial, fun _ => ?_⟩
    refine wp_finish (open_of_accepted rfl) (fun k => .dedupInsert k _) (by exact trivial) (fun k hk => ?_) (fun _ _ => rfl)
    exact (allow_iff (open_of_accepted rfl) _).mpr ⟨hk, nowMs, sig, slot, rfl, rfl⟩
  · refine wp_finish (s := { s with reading := n }) (open_of_holding hs) (fun k => .dedupRemove k) (by exact trivial)
      (fun k hk => ?_) (fun _ _ => rfl)
    exact (allow_iff (s := { s with reading := n }) (open_of_holding hs) _).mpr ⟨hk, Or.inl ⟨nowMs, hs⟩⟩

/-- A mint that fails may have submitted: the claim is held or accepted. -/
structure MintPost (s : Progress) (nowMs : Nat) (Q : Progress → Except String (Signature × Nat) → Prop) : Prop where
  confirmed : ∀ n sig slot, Q { s with reading := n, stage := .accepted nowMs sig } (.ok (sig, slot))
  unconfirmed : ∀ n sig e, Q { s with reading := n, stage := .accepted nowMs sig } (.error e)
  failed : ∀ n e, Q { s with reading := n } (.error e)

theorem wp_buildAndSubmitGenerationMint {nowMs : Nat} (hs : s.stage = .holding nowMs) (hl : s.looked = true)
    (recipientWallet : String) (energyKwh : UInt64) (meterId : Vector UInt8 16) (windowStartMs : Int64)
    (identity : SpiffeIdentity) (correlationId : String) {Q : Progress → Except String (Signature × Nat) → Prop}
    (hQ : MintPost s nowMs Q) :
    (buildAndSubmitGenerationMint Γ recipientWallet energyKwh meterId windowStartMs identity correlationId).wp
      (protocol Γ).toMonitor s Q := by
  have h := open_of_holding hs
  unfold buildAndSubmitGenerationMint
  split
  · exact hQ.failed s.reading _
  split
  · exact hQ.failed s.reading _
  rw [Prog.wp_perform_bind]
  refine ⟨(allow_iff h _).mpr trivial, fun answer => ?_⟩
  cases answer with
  | error e => exact hQ.failed s.reading _
  | ok payer =>
    simp only
    split
    · exact hQ.failed s.reading _
    · rw [Prog.wp_bind]
      refine wp_signAndSubmit hs hl _ _ _ _ ⟨fun n sig slot => ?_, fun n stage => hQ.failed n _⟩
      show ((resolveConfirmation sig >>= _ : Handler _)).wp _ _ _
      rw [Prog.wp_bind]
      refine wp_silent (open_of_accepted rfl) (silent_resolveConfirmationBounded sig 24) fun n' outcome _ => ?_
      cases outcome with
      | confirmed slot => exact hQ.confirmed n' sig slot
      | errored => exact hQ.unconfirmed n' sig _
      | pending => exact hQ.unconfirmed n' sig _

theorem wp_mintEffect {nowMs : Nat} (hs : s.stage = .holding nowMs) (hl : s.looked = true) (envelope : MintEnergyMessage)
    (hk : s.key = dedupKey .mint envelope.idempotencyKey) :
    (mintEffect Γ envelope s.key nowMs).wp (protocol Γ).toMonitor s (fun _ _ => True) := by
  unfold mintEffect
  rw [Prog.wp_bind]
  refine wp_buildAndSubmitGenerationMint hs hl _ _ _ _ _ _ ⟨fun n sig slot => ?_, fun n sig e => ?_, fun n e => ?_⟩
  · refine ⟨(allow_iff (open_of_accepted rfl) _).mpr trivial, fun _ => ?_⟩
    refine wp_finish (open_of_accepted rfl) (fun k => .dedupInsert k _) (by exact trivial) (fun k hk => ?_) (fun _ _ => rfl)
    exact (allow_iff (open_of_accepted rfl) _).mpr ⟨hk, nowMs, sig, slot, rfl, rfl⟩
  · refine wp_finish (s := { s with reading := n, stage := .accepted nowMs sig }) (open_of_accepted rfl)
      (fun k => .dedupRemove k) (by exact trivial) (fun k hk' => ?_) (fun _ _ => rfl)
    refine (allow_iff (open_of_accepted rfl) _).mpr ⟨hk', Or.inr ⟨⟨nowMs, sig, rfl⟩, envelope.idempotencyKey, ?_⟩⟩
    rw [← hk, hk']
  · refine wp_finish (s := { s with reading := n }) (open_of_holding hs) (fun k => .dedupRemove k) (by exact trivial)
      (fun k hk => ?_) (fun _ _ => rfl)
    exact (allow_iff (s := { s with reading := n }) (open_of_holding hs) _).mpr ⟨hk, Or.inl ⟨nowMs, hs⟩⟩

/-- The claim of a handler that passed its gates: it is answered, or goes on holding the claim. -/
theorem wp_claim (hs : s.stage = .gates) (hl : s.looked = true) {f : Option TxResultMessage → Handler Unit}
    (hsome : ∀ prior, (f (some prior)).wp (protocol Γ).toMonitor { s with stage := .answered prior } (fun _ _ => True))
    (hnone : (f none).wp (protocol Γ).toMonitor { s with stage := .holding s.reading } (fun _ _ => True)) :
    (Prog.perform (Call.claim s.key s.correlationId s.reading) >>= f).wp (protocol Γ).toMonitor s (fun _ _ => True) := by
  refine ⟨(allow_iff (open_of_gates hs) _).mpr ⟨hs, rfl, rfl, rfl, hl⟩, fun answer => ?_⟩
  cases answer with
  | some prior => exact hsome prior
  | none => exact hnone

/-- The end of a handler whose claim was answered. -/
theorem wp_replay {prior : TxResultMessage} (hs : s.stage = .answered prior) (subject : String) {reply : Reply}
    (hr : reply = .tx prior ∨ reply = .mint (mintReplay prior)) :
    (do publish subject reply; ack .ack : Handler Unit).wp (protocol Γ).toMonitor s (fun _ _ => True) := by
  have hallow : ∀ c, (protocol Γ).allow s c ↔ allowAnswered prior c := by
    intro c
    show Progress.allow Γ s c ↔ _
    unfold Progress.allow
    rw [hs]
  exact ⟨(hallow _).mpr hr, fun _ => ⟨(hallow _).mpr trivial, fun _ => trivial⟩⟩

theorem wp_submitChecked (hs : s.stage = .gates) (hl : s.looked = true) (envelope : TxSubmitMessage)
    (hk : s.key = dedupKey .submit envelope.idempotencyKey) (hc : s.correlationId = envelope.correlationId) :
    (submitChecked Γ envelope s.reading).wp (protocol Γ).toMonitor s (fun _ _ => True) := by
  have h := open_of_gates hs
  unfold submitChecked
  simp only
  split
  · exact wp_publish_ack h (by exact trivial) _
  split
  · exact wp_refuse h (by exact trivial) _ _ _ _ _ _ _
  split
  · exact wp_refuse h (by exact trivial) _ _ _ _ _ _ _
  · rw [← hk, ← hc]
    refine wp_claim hs hl (fun prior => ?_) ?_
    · exact wp_replay rfl _ (Or.inl rfl)
    · exact wp_submitEffect (s := { s with stage := .holding s.reading }) rfl hl envelope

theorem wp_readClock (h : Open s) {α : Type} {f : Nat → Handler α} {Q : Progress → α → Prop}
    (hf : ∀ n, (f n).wp (protocol Γ).toMonitor { s with reading := n } Q) :
    (readClock >>= f).wp (protocol Γ).toMonitor s Q :=
  ⟨(allow_iff h _).mpr trivial, hf⟩

theorem wp_cacheInsert (h : Open s) (key : String) (expiryMs : Nat) {f : Unit → Handler Unit} {Q : Progress → Unit → Prop}
    (hf : (f ()).wp (protocol Γ).toMonitor { s with cached := s.cached || decide (key = s.correlationId) } Q) :
    (Prog.perform (Call.cacheInsert key expiryMs) >>= f).wp (protocol Γ).toMonitor s Q :=
  ⟨(allow_iff h _).mpr trivial, fun _ => hf⟩

/-- A lookup in the cache: it is noted if it is of the own correlation id and finds nothing. -/
theorem wp_cacheContains (h : Open s) (key : String) {f : Bool → Handler Unit} {Q : Progress → Unit → Prop}
    (hf : ∀ found looked, (key = s.correlationId → found = false → looked = true) →
      (f found).wp (protocol Γ).toMonitor { s with looked } Q) :
    (cacheContains key >>= f).wp (protocol Γ).toMonitor s Q := by
  refine ⟨(allow_iff h _).mpr trivial, fun found => hf found _ ?_⟩
  rintro rfl rfl
  simp

/-- The gates of a handler: at each it refuses, or goes on with a new reading, and at the last it has looked up its own
correlation id if that is the key of its lookup. -/
theorem wp_run (h : Open s) {g : Gates} {rest : Nat → Handler Unit}
    (hauth : ∀ n reason, (g.refuseAuth reason).wp (protocol Γ).toMonitor { s with reading := n } (fun _ _ => True))
    (hrole : ∀ n, g.refuseRole.wp (protocol Γ).toMonitor { s with reading := n } (fun _ _ => True))
    (hstale : ∀ n looked, (g.refuseStale n).wp (protocol Γ).toMonitor { s with reading := n, looked } (fun _ _ => True))
    (hrest : ∀ n looked, (g.lookup = s.correlationId → looked = true) →
      (rest n).wp (protocol Γ).toMonitor { s with reading := n, looked } (fun _ _ => True)) :
    (g.run rest).wp (protocol Γ).toMonitor s (fun _ _ => True) := by
  refine wp_readClock h fun authMs => ?_
  cases g.decision authMs with
  | error reason => exact hauth authMs reason
  | ok u =>
    cases g.permitted with
    | error e => exact hrole authMs
    | ok u =>
      refine wp_cacheContains (s := { s with reading := authMs }) h _ fun found looked hlooked => ?_
      cases found with
      | true => exact wp_ack (s := { s with reading := authMs, looked }) h _ trivial
      | false =>
        refine wp_readClock (s := { s with reading := authMs, looked }) h fun nowMs => ?_
        simp only
        split
        · exact hstale nowMs looked
        · exact hrest nowMs looked fun heq => hlooked heq rfl

theorem wp_handleSubmit (hs : s.stage = .gates) (envelope : TxSubmitMessage)
    (hk : s.key = dedupKey .submit envelope.idempotencyKey) (hc : s.correlationId = envelope.correlationId) :
    (handleSubmit Γ (.ok envelope)).wp (protocol Γ).toMonitor s (fun _ _ => True) := by
  have h := open_of_gates hs
  rw [handleSubmit_eq]
  refine wp_run h (fun n reason => ?_) (fun n => ?_) (fun n looked => ?_) fun n looked hlooked => ?_
  · exact wp_refuse (s := { s with reading := n }) h (by exact trivial) _ _ _ _ _ _ _
  · exact wp_refuse (s := { s with reading := n }) h (by exact trivial) _ _ _ _ _ _ _
  · exact wp_refuse (s := { s with reading := n, looked }) h (by exact trivial) _ _ _ _ _ _ _
  · exact wp_submitChecked (s := { s with reading := n, looked }) hs (hlooked hc.symm) envelope hk hc

theorem wp_handleMint (hs : s.stage = .gates) (envelope : MintEnergyMessage)
    (hk : s.key = dedupKey .mint envelope.idempotencyKey) (hc : s.correlationId = envelope.correlationId) :
    (handleMint Γ (.ok envelope)).wp (protocol Γ).toMonitor s (fun _ _ => True) := by
  have h := open_of_gates hs
  rw [handleMint_eq]
  refine wp_run h (fun n reason => ?_) (fun n => ?_) (fun n looked => ?_) fun n looked hlooked => ?_
  · exact wp_refuse (s := { s with reading := n }) h (by exact trivial) _ _ _ _ _ _ _
  · exact wp_refuse (s := { s with reading := n }) h (by exact trivial) _ _ _ _ _ _ _
  · exact wp_refuse (s := { s with reading := n, looked }) h (by exact trivial) _ _ _ _ _ _ _
  · rw [mintRest, ← hk, ← hc]
    refine wp_claim (s := { s with reading := n, looked }) hs (hlooked hc.symm) (fun prior => ?_) ?_
    · exact wp_replay rfl _ (Or.inr rfl)
    · rw [mintClaimed, ← hk]
      exact wp_mintEffect (s := { s with reading := n, looked, stage := .holding n }) rfl (hlooked hc.symm) envelope hk

/-- A cancellation records its correlation id before it reports success. -/
theorem wp_cancelled (hs : s.stage = .closed) (subject : String) (nowMs : Nat) :
    (do
      let _ ← Prog.perform (Call.cacheInsert (cancelKey s.correlationId) (u64Add nowMs correlationTtlMs))
      let _ ← Prog.perform (Call.cacheInsert s.correlationId (u64Add nowMs correlationTtlMs))
      publish subject (.cancel { correlationId := s.correlationId, success := true, error := none })
      ack .ack : Handler Unit).wp (protocol Γ).toMonitor s (fun _ _ => True) := by
  have h : ∀ cached, Open { s with cached := cached } := fun _ => open_of_closed hs
  refine wp_cacheInsert (h _) _ _ (wp_cacheInsert (h _) _ _ ?_)
  exact ⟨(allow_iff (h _) _).mpr (fun _ => ⟨by simp, rfl⟩), fun _ => wp_ack (h _) _ trivial⟩

theorem wp_handleCancel (hs : s.stage = .closed) (envelope : TxCancelMessage)
    (hc : s.correlationId = envelope.correlationId) :
    (handleCancel Γ (.ok envelope)).wp (protocol Γ).toMonitor s (fun _ _ => True) := by
  have h := open_of_closed hs
  rw [handleCancel_eq]
  refine wp_run h (fun n reason => ?_) (fun n => ?_) (fun n looked => ?_) fun n looked _ => ?_
  · exact wp_refuse (s := { s with reading := n }) h (by exact rfl) _ _ _ _ _ _ _
  · exact wp_refuse (s := { s with reading := n }) h (by exact rfl) _ _ _ _ _ _ _
  · exact wp_refuse (s := { s with reading := n, looked }) h (by exact rfl) _ _ _ _ _ _ _
  · rw [cancelRest, ← hc]
    exact wp_cancelled (s := { s with reading := n, looked }) hs _ n

theorem wp_handleStatus (hs : s.stage = .closed) (envelope : TxStatusMessage) :
    (handleStatus Γ (.ok envelope)).wp (protocol Γ).toMonitor s (fun _ _ => True) := by
  have h := open_of_closed hs
  unfold handleStatus
  simp only
  rw [Prog.wp_bind]
  refine wp_silent h (silent_of_reading (reading_evaluateEnvelopeAuth ..)) fun n r _ => ?_
  cases r with
  | error reason => exact wp_refuse (s := { s with reading := n }) h (by exact trivial) _ _ _ _ _ _ _
  | ok u =>
    simp only
    split
    · exact wp_refuse (s := { s with reading := n }) h (by exact trivial) _ _ _ _ _ _ _
    · rw [Prog.wp_bind]
      refine wp_silent (s := { s with reading := n }) h (silent_signatureStatus _) fun n' r _ => ?_
      exact wp_publish_ack (s := { s with reading := n' }) h (by exact trivial) _

end ProtocolAux

open ProtocolAux

/-- Every handler keeps the protocol, whatever its delivery and whatever its calls are answered. -/
theorem dispatch_wp (Γ : Ctx) (d : Delivery) :
    (dispatch Γ d).wp (protocol Γ).toMonitor (Progress.start d) (fun _ _ => True) := by
  cases d with
  | submit payload =>
    cases payload with
    | error e => exact wp_ack (open_of_gates rfl) _ trivial
    | ok envelope => exact wp_handleSubmit rfl envelope rfl rfl
  | cancel payload =>
    cases payload with
    | error e => exact wp_ack (open_of_closed rfl) _ trivial
    | ok envelope => exact wp_handleCancel rfl envelope rfl
  | mint payload =>
    cases payload with
    | error e => exact wp_ack (open_of_gates rfl) _ trivial
    | ok envelope => exact wp_handleMint rfl envelope rfl rfl
  | status payload =>
    cases payload with
    | error e => exact wp_ack (open_of_closed rfl) _ trivial
    | ok envelope => exact wp_handleStatus rfl envelope
  | unknown subject => exact wp_ack (open_of_closed rfl) _ trivial

end ChainBridge
