import ChainBridge.Lemmas.Signing
import ChainBridge.Lemmas.Sample

/-!
# What the retries of a submit put on the wire

The attempts of one `handle_submit` decode the same bytes, but each asks for the blockhash again. A trace of the handler ranges
over every answer of the blockhash cache at each attempt, so over every interleaving with the task that refreshes it, and over
every answer of the clock, the maps, the simulation, Vault and the cluster.
-/

namespace ChainBridge

open Interleave SilentAux SigningAux SampleAux

/-- All transactions submitted in a trace are the same. -/
def SameSubmissions (t : List CallEvent) : Prop :=
  ∀ tx tx' a a', (⟨.sendTransaction tx, a⟩ : CallEvent) ∈ t → (⟨.sendTransaction tx', a'⟩ : CallEvent) ∈ t → tx = tx'

/-- Every signature of a trace is the one that `sign` assigns to the key and the message. -/
def VaultDeterministic (sign : String → Bytes → Signature) (t : List CallEvent) : Prop :=
  ∀ name msg sig, (⟨.signMessage name msg, .ok sig⟩ : CallEvent) ∈ t → sig = sign name msg

/-- The attempts of the handler of an envelope submit one transaction only, in every trace with a deterministic Vault. -/
def RetriesAgree (Γ : Ctx) (envelope : TxSubmitMessage) : Prop :=
  ∀ sign t q, Prog.Steps (handleSubmit Γ (.ok envelope)) t q → VaultDeterministic sign t → SameSubmissions t

/-- The envelope passes every gate, is signed by the bridge, and leaves its blockhash to the bridge. -/
structure DatedByBridge (Γ : Ctx) (envelope : TxSubmitMessage) (tx : Transaction) : Prop where
  authentic : ∃ nowMs,
    envelopeDecision Γ envelope.auth envelope.serviceIdentity (Γ.canonicalSubmitBytes envelope) false nowMs = .ok ()
  known : Γ.serviceRole ⟨envelope.serviceIdentity⟩ ≠ .unknown
  decoded : Γ.deserialize envelope.serializedTx = .ok tx
  allowed : Γ.validateTransaction ⟨envelope.serviceIdentity⟩ tx = .ok ()
  admin : envelope.keyId = platformAdmin
  undated : tx.message.recentBlockhash = Hash.default
  indexable : Indexable Γ tx

namespace RetryAux

variable {Γ : Ctx} {envelope : TxSubmitMessage}

/-! ## What is known of every submission of the handler -/

/-- The gates of the handler are passed, and the transaction is one of an attempt. -/
def SubmitRule (Γ : Ctx) (envelope : TxSubmitMessage) (past : List CallEvent) : Call → Prop
  | .sendTransaction sent =>
    (∃ nowMs, envelopeDecision Γ envelope.auth envelope.serviceIdentity (Γ.canonicalSubmitBytes envelope) false nowMs = .ok ()) ∧
    Γ.serviceRole ⟨envelope.serviceIdentity⟩ ≠ .unknown ∧
    ∃ before cur, past = before ++ cur ∧
      SendFacts Γ envelope.serializedTx envelope.keyId ⟨envelope.serviceIdentity⟩ cur sent
  | _ => True

theorem submitRule_calm (past : List CallEvent) (c : Call) (h : c.isEffect = false) : SubmitRule Γ envelope past c := by
  cases c <;> trivial

/-- A part of the handler outside the signing path. -/
theorem wp_quiet {p : Handler Unit} (hp : Calm p (fun _ => True)) (past : List CallEvent) :
    p.wp (Monitor.history (SubmitRule Γ envelope)) past (fun _ _ => True) :=
  wp_calm submitRule_calm hp (I := fun _ => True) (fun _ _ _ _ => trivial) trivial (fun _ _ _ _ => trivial)

theorem calm_refuse (correlationId claimedIdentity action stage reason subject : String) (reply : Reply) (kind : AckKind) :
    Calm (refuse correlationId claimedIdentity action stage reason subject reply kind) (fun _ => True) :=
  ⟨rfl, fun _ => ⟨rfl, fun _ => ⟨rfl, fun _ => ⟨rfl, fun _ => trivial⟩⟩⟩⟩

theorem calm_publishAck (subject : String) (reply : Reply) (kind : AckKind) :
    Calm (do publish subject reply; ack kind : Handler Unit) (fun _ => True) :=
  ⟨rfl, fun _ => ⟨rfl, fun _ => trivial⟩⟩

section Gates

variable (hauth : ∃ nowMs,
    envelopeDecision Γ envelope.auth envelope.serviceIdentity (Γ.canonicalSubmitBytes envelope) false nowMs = .ok ())
  (hrole : Γ.serviceRole ⟨envelope.serviceIdentity⟩ ≠ .unknown)
include hauth hrole

theorem allows_submitRule (past₀ : List CallEvent) :
    Allows Γ envelope.serializedTx envelope.keyId ⟨envelope.serviceIdentity⟩ past₀ (SubmitRule Γ envelope) where
  calm := submitRule_calm
  sign := fun _ _ _ _ => trivial
  send := fun cur _ h => ⟨hauth, hrole, past₀, cur, rfl, h⟩

theorem wp_submitWithRetry (delays : Nat) (past : List CallEvent) :
    (retrySpawn (signAndSubmit Γ envelope.serializedTx envelope.keyId ⟨envelope.serviceIdentity⟩ envelope.correlationId)
      delays).wp (Monitor.history (SubmitRule Γ envelope)) past (fun _ _ => True) := by
  induction delays generalizing past with
  | zero => exact wp_signAndSubmit (allows_submitRule hauth hrole past) _ (fun _ _ => trivial)
  | succ n ih =>
    rw [retrySpawn, Prog.wp_bind]
    refine Prog.wp_mono (wp_signAndSubmit (allows_submitRule hauth hrole past) _
      (Q := fun _ _ => True) (fun _ _ => trivial)) fun past' r _ => ?_
    cases r with
    | ok a => trivial
    | error e => exact ih past'

theorem wp_submitEffect (key : Option String) (nowMs : Nat) (past : List CallEvent) :
    (submitEffect Γ envelope key nowMs).wp (Monitor.history (SubmitRule Γ envelope)) past (fun _ _ => True) := by
  unfold submitEffect submitWithRetry
  rw [Prog.wp_bind]
  refine Prog.wp_mono (wp_submitWithRetry hauth hrole retryDelays past) fun past' r _ => ?_
  rcases r with stage | ⟨sig, slot⟩
  · refine wp_quiet ?_ past'
    cases key with
    | none => exact calm_publishAck _ _ _
    | some key => exact ⟨rfl, fun _ => calm_publishAck _ _ _⟩
  · refine wp_quiet ?_ past'
    refine ⟨rfl, fun _ => ?_⟩
    cases key with
    | none => exact calm_publishAck _ _ _
    | some key => exact ⟨rfl, fun _ => calm_publishAck _ _ _⟩

theorem wp_submitChecked (nowMs : Nat) (past : List CallEvent) :
    (submitChecked Γ envelope nowMs).wp (Monitor.history (SubmitRule Γ envelope)) past (fun _ _ => True) := by
  unfold submitChecked
  simp only
  split
  · exact wp_quiet (calm_publishAck _ _ _) past
  split
  · exact wp_quiet (calm_refuse _ _ _ _ _ _ _ _) past
  split
  · exact wp_quiet (calm_refuse _ _ _ _ _ _ _ _) past
  · refine ⟨trivial, fun answer => ?_⟩
    cases answer with
    | some prior => exact wp_quiet (calm_publishAck _ _ _) _
    | none => exact wp_submitEffect hauth hrole _ nowMs _

end Gates

theorem wp_handleSubmit (Γ : Ctx) (envelope : TxSubmitMessage) :
    (handleSubmit Γ (.ok envelope)).wp (Monitor.history (SubmitRule Γ envelope)) [] (fun _ _ => True) := by
  unfold handleSubmit
  simp only
  rw [Prog.wp_bind]
  refine wp_calm submitRule_calm (calm_of_silent (silent_of_reading (reading_evaluateEnvelopeAuth _ _ _ _)))
    (I := fun _ => True) (fun _ _ _ _ => trivial) trivial ?_
  rintro past r - hauth
  cases r with
  | error reason => exact wp_quiet (calm_refuse _ _ _ _ _ _ _ _) past
  | ok u =>
    simp only
    split
    · exact wp_quiet (calm_refuse _ _ _ _ _ _ _ _) past
    · rename_i hrole
      refine ⟨trivial, fun found => ?_⟩
      cases found with
      | true => exact wp_quiet (p := ack .ack) ⟨rfl, fun _ => trivial⟩ _
      | false =>
        refine ⟨trivial, fun nowMs => ?_⟩
        show Prog.wp _ (if nowMs - envelope.createdAtMs > stalenessMs then _ else _) _ _
        split
        · exact wp_quiet (calm_refuse _ _ _ _ _ _ _ _) _
        · exact wp_submitChecked hauth hrole nowMs _

/-- Every submission of an envelope that the bridge does not date is one fixed transaction. -/
theorem sameSubmissions (hdated : ¬∃ tx, DatedByBridge Γ envelope tx) {sign : String → Bytes → Signature}
    {t : List CallEvent} {q : Handler Unit} (hs : Prog.Steps (handleSubmit Γ (.ok envelope)) t q)
    (hv : VaultDeterministic sign t) : SameSubmissions t := by
  -- what a submission in the trace is: the decoded transaction, as it is or with the signature of its own message
  have hsent : ∀ sent a, (⟨.sendTransaction sent, a⟩ : CallEvent) ∈ t → ∃ tx, Γ.deserialize envelope.serializedTx = .ok tx ∧
      (envelope.keyId = "" ∧ sent = tx ∨
        envelope.keyId = platformAdmin ∧ sent = tx.attach (sign Γ.transitKeyName (Γ.messageData tx.message))) := by
    intro sent a hmem
    obtain ⟨past, after, rfl⟩ := List.append_of_mem hmem
    obtain ⟨hauth, hrole, before, cur, rfl, hfacts⟩ :=
      (Prog.history_allow (wp_handleSubmit Γ envelope) hs : SubmitRule Γ envelope past (.sendTransaction sent))
    cases hfacts with
    | unsigned _ hd _ hk => exact ⟨sent, hd, Or.inl ⟨hk, rfl⟩⟩
    | signed tx tx' before' after' sig hsign _ hcur hsent hindex =>
      rcases hsign.redated with rfl | ⟨hundated, bh, rfl⟩
      · have hsig : sig = sign Γ.transitKeyName (Γ.messageData tx'.message) := by
          refine hv _ _ _ (List.mem_append_left _ (List.mem_append_right _ ?_))
          rw [hcur]
          exact List.mem_append_right _ List.mem_cons_self
        exact ⟨tx', hsign.decoded, Or.inr ⟨hsign.admin, by rw [hsent, hsig]⟩⟩
      · exact (hdated ⟨tx, hauth, hrole, hsign.decoded, hsign.allowed, hsign.admin, hundated, hindex⟩).elim
  intro sent sent' a a' hm hm'
  obtain ⟨tx, hd, h⟩ := hsent sent a hm
  obtain ⟨tx', hd', h'⟩ := hsent sent' a' hm'
  rw [hd, Except.ok.injEq] at hd'
  subst hd'
  rcases h with ⟨hk, rfl⟩ | ⟨hk, rfl⟩ <;> rcases h' with ⟨hk', rfl⟩ | ⟨hk', rfl⟩
  · rfl
  · exact absurd (hk.symm.trans hk') (by decide)
  · exact absurd (hk'.symm.trans hk) (by decide)
  · rfl

/-! ## Two attempts with two blockhashes -/

/-- The signatures of a trace are all the default one: Vault is deterministic. -/
abbrev DefaultSigned (t : List CallEvent) : Prop := VaultDeterministic (fun _ _ => Signature.default) t

theorem defaultSigned_append {t t' : List CallEvent} (h : DefaultSigned t) (h' : DefaultSigned t') :
    DefaultSigned (t ++ t') := by
  intro name msg sig hm
  rcases List.mem_append.mp hm with hm | hm
  · exact h name msg sig hm
  · exact h' name msg sig hm

theorem defaultSigned_of_quiet {t : List CallEvent} (h : Quiet t) : DefaultSigned t := by
  intro name msg sig hm
  cases h _ hm

theorem exec_sendSigned_failed (Γ : Ctx) (identity : SpiffeIdentity) (correlationId : String) (sent : Transaction) :
    ∃ t, Prog.Exec (sendSigned Γ identity correlationId sent) t (.error (.submissionFailed "")) ∧ DefaultSigned t ∧
      (⟨.sendTransaction sent, .error ""⟩ : CallEvent) ∈ t := by
  refine ⟨[⟨.sendTransaction sent, .error ""⟩, ⟨.now, 0⟩, ⟨.auditAppend _, .ok 0⟩],
    .cons _ _ (.cons _ _ (.cons _ _ (.nil _))), fun name msg sig hm => ?_, List.mem_cons_self⟩
  simp only [List.mem_cons, List.not_mem_nil, or_false] at hm
  rcases hm with hm | hm | hm <;> cases hm

section Attempts

variable {tx : Transaction} (h : DatedByBridge Γ envelope tx)
include h

/-- An attempt whose submission fails, for any blockhash in the cache. -/
theorem exec_failedAttempt (bh : Hash) :
    ∃ t, Prog.Exec (signAndSubmit Γ envelope.serializedTx envelope.keyId ⟨envelope.serviceIdentity⟩ envelope.correlationId) t
        (.error (.submissionFailed "")) ∧ DefaultSigned t ∧
      (⟨.sendTransaction ((tx.withBlockhash bh).attach Signature.default), .error ""⟩ : CallEvent) ∈ t := by
  obtain ⟨before, hquiet, hsign⟩ := exec_signPlatformAdmin h.undated h.indexable ⟨envelope.serviceIdentity⟩
    envelope.correlationId bh Signature.default
  have hsigned : DefaultSigned [⟨.signMessage Γ.transitKeyName (Γ.messageData (tx.withBlockhash bh).message),
      .ok Signature.default⟩] := by
    intro name msg sig hm
    cases List.mem_singleton.mp hm
    rfl
  have ht := defaultSigned_append (defaultSigned_of_quiet hquiet) hsigned
  obtain ⟨t', hsend, ht', hmem⟩ := exec_sendSigned_failed Γ ⟨envelope.serviceIdentity⟩ envelope.correlationId
    ((tx.withBlockhash bh).attach Signature.default)
  refine ⟨_ ++ t', ?_, defaultSigned_append ht ht', List.mem_append_right _ hmem⟩
  unfold signAndSubmit
  rw [h.decoded]
  simp only [h.allowed, h.admin, if_true]
  exact Prog.exec_bind.mpr ⟨_, t', _, rfl, hsign, hsend⟩

/-- Two failed attempts, each with its own blockhash. -/
theorem steps_submitWithRetry (bh bh' : Hash) :
    ∃ t q, Prog.Steps (submitWithRetry Γ envelope) t q ∧ DefaultSigned t ∧
      (⟨.sendTransaction ((tx.withBlockhash bh).attach Signature.default), .error ""⟩ : CallEvent) ∈ t ∧
      (⟨.sendTransaction ((tx.withBlockhash bh').attach Signature.default), .error ""⟩ : CallEvent) ∈ t := by
  obtain ⟨t, he, ht, hm⟩ := exec_failedAttempt h bh
  obtain ⟨t', he', ht', hm'⟩ := exec_failedAttempt h bh'
  have hsecond : Prog.Steps (retrySpawn (signAndSubmit Γ envelope.serializedTx envelope.keyId ⟨envelope.serviceIdentity⟩
      envelope.correlationId) 2) t' (retrySpawn (signAndSubmit Γ envelope.serializedTx envelope.keyId
        ⟨envelope.serviceIdentity⟩ envelope.correlationId) 1) :=
    Prog.steps_bind.mpr (Or.inr ⟨t', [], _, (List.append_nil _).symm, he', .nil _⟩)
  exact ⟨t ++ t', _, Prog.steps_bind.mpr (Or.inr ⟨t, t', _, rfl, he, hsecond⟩), defaultSigned_append ht ht',
    List.mem_append_left _ hm, List.mem_append_right _ hm'⟩

/-- The calls of the handler before the first attempt, when every gate is passed. -/
def gateCalls (envelope : TxSubmitMessage) (nowMs : Nat) : List CallEvent :=
  [⟨.now, nowMs⟩, ⟨.cacheContains envelope.correlationId, false⟩, ⟨.now, envelope.createdAtMs⟩,
    ⟨.claim (dedupKey .submit envelope.idempotencyKey) envelope.correlationId envelope.createdAtMs, none⟩]

theorem steps_handleSubmit {nowMs : Nat} (hauth : envelopeDecision Γ envelope.auth envelope.serviceIdentity
      (Γ.canonicalSubmitBytes envelope) false nowMs = .ok ())
    {t : List CallEvent} {q : Handler (Except SignSubmitStage (Signature × Nat))}
    (hs : Prog.Steps (submitWithRetry Γ envelope) t q) :
    ∃ q', Prog.Steps (handleSubmit Γ (.ok envelope)) (gateCalls envelope nowMs ++ t) q' := by
  have hfresh : ¬envelope.createdAtMs - envelope.createdAtMs > stalenessMs := by
    rw [Nat.sub_self]
    exact Nat.not_lt_zero _
  have hkey : ¬(envelope.keyId ≠ platformAdmin ∧ envelope.keyId ≠ "") := fun hne => hne.1 h.admin
  have heffect : ∃ q', Prog.Steps (submitEffect Γ envelope (dedupKey .submit envelope.idempotencyKey) envelope.createdAtMs)
      t q' := by
    unfold submitEffect
    exact ⟨_, Prog.steps_bind.mpr (Or.inl ⟨q, hs, rfl⟩)⟩
  obtain ⟨q', hq'⟩ := heffect
  have hchecked : Prog.Steps (submitChecked Γ envelope envelope.createdAtMs)
      (⟨.claim (dedupKey .submit envelope.idempotencyKey) envelope.correlationId envelope.createdAtMs, none⟩ :: t) q' := by
    unfold submitChecked
    simp only [h.decoded, h.allowed, if_neg hkey]
    exact .cons _ _ hq'
  refine ⟨q', ?_⟩
  unfold handleSubmit
  refine Prog.Steps.cons (ρ := Call.Answer) Call.now nowMs ?_
  simp only [Prog.bind, hauth, if_neg h.known]
  refine Prog.Steps.cons (ρ := Call.Answer) (Call.cacheContains envelope.correlationId) false ?_
  refine Prog.Steps.cons (ρ := Call.Answer) Call.now envelope.createdAtMs ?_
  show Prog.Steps (if envelope.createdAtMs - envelope.createdAtMs > stalenessMs then _ else _) _ _
  rw [if_neg hfresh]
  exact hchecked

/-- A trace of the handler with two different submissions. -/
theorem not_retriesAgree : ¬RetriesAgree Γ envelope := by
  intro hagree
  obtain ⟨nowMs, hauth⟩ := h.authentic
  obtain ⟨t, q, hs, ht, hm, hm'⟩ := steps_submitWithRetry h ⟨Vector.replicate 32 1⟩ ⟨Vector.replicate 32 2⟩
  obtain ⟨q', hsteps⟩ := steps_handleSubmit h hauth hs
  have hgates : DefaultSigned (gateCalls envelope nowMs) := by
    intro name msg sig hmem
    simp only [gateCalls, List.mem_cons, List.not_mem_nil, or_false] at hmem
    rcases hmem with hmem | hmem | hmem | hmem <;> cases hmem
  have hsame := hagree _ _ _ hsteps (defaultSigned_append hgates ht) _ _ _ _ (List.mem_append_right _ hm)
    (List.mem_append_right _ hm')
  have hhash : (⟨Vector.replicate 32 1⟩ : Hash) = ⟨Vector.replicate 32 2⟩ := congrArg (fun tx => tx.message.recentBlockhash) hsame
  exact absurd hhash (by decide)

end Attempts

end RetryAux

open RetryAux

/-- The retries of a submit put one transaction on the wire exactly when the envelope is refused at a gate, is not signed by the
bridge, brings its own blockhash, or aborts the signing path: an attempt that dates the transaction itself may date it
differently each time. -/
theorem retriesAgree_iff (Γ : Ctx) (envelope : TxSubmitMessage) :
    RetriesAgree Γ envelope ↔ ¬∃ tx, DatedByBridge Γ envelope tx := by
  constructor
  · rintro hagree ⟨tx, h⟩
    exact not_retriesAgree h hagree
  · intro h sign t q hs hv
    exact sameSubmissions h hs hv

/-- A transaction without a blockhash, submitted by a known service, can be put on the wire twice, with two blockhashes. -/
theorem retries_send_two_transactions : ¬RetriesAgree (ctx [undatedTx]) (submitOf undatedTx "c" "k") := by
  have hdated : DatedByBridge (ctx [undatedTx]) (submitOf undatedTx "c" "k") undatedTx := by
    refine ⟨⟨0, rfl⟩, by decide, ?_, rfl, rfl, rfl, by decide⟩
    simp [ctx, submitOf]
  exact not_retriesAgree hdated

end ChainBridge
