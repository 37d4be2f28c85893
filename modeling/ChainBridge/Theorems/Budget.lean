import ChainBridge.Lib.Cost
import ChainBridge.Theorems.Process

/-!
# What a message can cost

Each kind of message has a budget: how often at most Vault is asked for a signature, a transaction is submitted, a status is asked
for and anything else is called on its account, whatever the answers, retries and polls included. All calls of a run of the
process are within the budgets of the messages and requests it was sent.
-/

namespace ChainBridge

open Interleave

/-- What a call weighs: a signature, a submission, a question for a status, and any other call. Aborting weighs nothing. -/
structure Weights where
  sign : Nat
  send : Nat
  status : Nat
  other : Nat

/-- The weight of a call of a handler. -/
def Weights.of (W : Weights) : Call → Nat
  | .signMessage _ _ => W.sign
  | .sendTransaction _ => W.send
  | .getSignatureStatuses _ => W.status
  | .panic => 0
  | _ => W.other

/-- The weight of a call of a method. -/
def Weights.ofRpc (W : Weights) : RpcCall → Nat
  | .shared c => W.of c
  | _ => W.other

/-- One attempt at the signing path: a signature, a submission, the two lookups of a blockhash, the simulation, and the audit entry
with its clock reading. -/
def attemptBudget (W : Weights) : Nat := W.sign + W.send + 5 * W.other

/-- What the handler of a message may spend. -/
def Delivery.budget (W : Weights) : Delivery → Nat
  | .submit _ => (retryDelays + 1) * attemptBudget W + 8 * W.other
  | .cancel _ => 7 * W.other
  | .mint _ => attemptBudget W + 24 * W.status + 9 * W.other
  | .status _ => W.status + 5 * W.other
  | .unknown _ => W.other

/-- What the method of a request may spend, its response included. -/
def RpcRequest.budget (W : Weights) : RpcRequest → Nat
  | .submitTransaction _ => attemptBudget W + W.other
  | .getSignatureStatus _ => W.status + W.other
  | _ => 2 * W.other

namespace BudgetAux

open SilentAux HandlersAux RpcAux

variable {Γ : Ctx} {W : Weights} {α β : Type}

/-- A call and the rest. -/
theorem within_next {c : Call} {g : c.Answer → Handler β} {n : Nat} {left : β → Nat} (v m : Nat) (hv : W.of c = v)
    (hn : v + m ≤ n) (hg : ∀ r, (g r).Within W.of m left) : (Prog.perform c >>= g).Within W.of n left :=
  Prog.within_perform m (hv ▸ hn) hg

/-- A part that makes no call costs nothing. -/
theorem within_checked {p : Handler α} {R : α → Prop} (hp : Checked p R) (n : Nat) : p.Within W.of n (fun _ => n) := by
  cases p with
  | ret a => exact Nat.le_refl n
  | call c k =>
    obtain ⟨rfl, -⟩ := hp
    exact ⟨n, Nat.le_of_eq (Nat.zero_add n), fun e => e.elim⟩

/-- What a part of the signing path leaves for the rest when it succeeds; when it fails, the path ends. -/
def onOk {ε : Type} (n : Nat) : Except ε α → Nat
  | .ok _ => n
  | .error _ => 0

theorem costs_recordAudit (correlationId : String) (identity : SpiffeIdentity) (action : String) (outcome : AuditOutcome)
    {n : Nat} (hn : 2 * W.other ≤ n) : (recordAudit correlationId identity action outcome).Costs W.of n :=
  within_next W.other W.other rfl (by omega) fun _ => within_next W.other 0 rfl (by omega) fun _ => Nat.le_refl 0

theorem within_selectBlockhash (tx : Transaction) (n : Nat) :
    (selectBlockhash tx).Within W.of (2 * W.other + n) (onOk n) := by
  unfold selectBlockhash
  split
  · refine within_next W.other (W.other + n) rfl (by omega) fun cached => ?_
    cases cached with
    | some entry => exact Nat.le_add_left n W.other
    | none =>
      refine within_next W.other n rfl (Nat.le_refl _) fun answer => ?_
      cases answer with
      | ok entry => exact Nat.le_refl n
      | error e => exact Nat.zero_le n
  · exact Nat.le_add_left n _

/-- A simulation that rejects is audited; one that does not leaves what the audit would have cost. -/
theorem within_presignSimulate (identity : SpiffeIdentity) (correlationId : String) (tx : Transaction) {n : Nat}
    (hn : 2 * W.other ≤ n) :
    (presignSimulate Γ identity correlationId tx).Within W.of (W.other + n) (onOk n) := by
  unfold presignSimulate
  split
  · exact Nat.le_add_left n W.other
  · refine within_next W.other n rfl (Nat.le_refl _) fun answer => ?_
    rcases answer with e | ⟨_ | e, units⟩
    · exact Nat.le_refl n
    · exact Nat.le_refl n
    · exact Prog.within_bind (costs_recordAudit _ _ _ _ hn) fun _ => Nat.le_refl 0

theorem within_vaultSign (tx : Transaction) (n : Nat) : (vaultSign Γ tx).Within W.of (W.sign + n) (onOk n) := by
  refine Prog.within_bind (within_checked (checked_logPayer tx) _) fun _ => within_next W.sign n rfl (Nat.le_refl _) fun answer => ?_
  cases answer with
  | error e => exact Nat.zero_le n
  | ok sig => exact Prog.within_bind (within_checked (checked_attachSignature tx sig) n) fun _ => Nat.le_refl n

theorem costs_sendSigned (identity : SpiffeIdentity) (correlationId : String) (tx : Transaction) :
    (sendSigned Γ identity correlationId tx).Costs W.of (W.send + 2 * W.other) := by
  unfold sendSigned
  refine within_next W.send (2 * W.other) rfl (Nat.le_refl _) fun answer => ?_
  cases answer with
  | ok sig => exact Prog.within_bind (costs_recordAudit _ _ _ _ (Nat.le_refl _)) fun _ => Nat.le_refl 0
  | error e => exact Prog.within_bind (costs_recordAudit _ _ _ _ (Nat.le_refl _)) fun _ => Nat.le_refl 0

/-- An attempt at the signing path is within its budget: what it does not spend on refusing it may spend on submitting. -/
theorem costs_signAndSubmit (serializedTx : Bytes) (keyId : String) (identity : SpiffeIdentity) (correlationId : String) :
    (signAndSubmit Γ serializedTx keyId identity correlationId).Costs W.of (attemptBudget W) := by
  unfold signAndSubmit attemptBudget
  split
  · exact Nat.zero_le _
  rename_i tx _
  split
  · exact Prog.within_bind (costs_recordAudit _ _ _ _ (by omega)) fun _ => Nat.le_refl 0
  split
  · have hsign : (signPlatformAdmin Γ identity correlationId tx).Within W.of (W.sign + W.send + 5 * W.other)
        (onOk (W.send + 2 * W.other)) := by
      refine Prog.within_bind (Prog.within_mono (within_selectBlockhash tx (W.other + (W.sign + (W.send + 2 * W.other))))
        (by omega) fun _ => Nat.le_refl _) fun r => ?_
      cases r with
      | error stage => exact Nat.le_refl 0
      | ok tx' =>
        refine Prog.within_bind (within_presignSimulate (n := W.sign + (W.send + 2 * W.other)) identity correlationId tx'
          (by omega)) fun r => ?_
        cases r with
        | error stage => exact Nat.le_refl 0
        | ok u => exact within_vaultSign tx' _
    refine Prog.within_bind hsign fun r => ?_
    cases r with
    | error stage => exact Nat.le_refl 0
    | ok tx' => exact costs_sendSigned identity correlationId tx'
  split
  · exact Prog.within_bind (costs_recordAudit _ _ _ _ (by omega)) fun _ => Nat.le_refl 0
  · exact Prog.within_mono (costs_sendSigned identity correlationId tx) (by omega) fun _ => Nat.le_refl 0

/-- Repeated attempts: each has the budget of one. -/
theorem within_retrySpawn {ε : Type} {action : Handler (Except ε α)} {b : Nat} (h : action.Costs W.of b) (k n : Nat) :
    (retrySpawn action k).Within W.of ((k + 1) * b + n) (fun _ => n) := by
  induction k with
  | zero => exact Prog.within_mono (Prog.within_frame h n) (by omega) fun _ => Nat.le_add_left n 0
  | succ k ih =>
    have hstep : b + ((k + 1) * b + n) ≤ (k + 1 + 1) * b + n := by
      rw [Nat.succ_mul (k + 1) b]
      omega
    refine Prog.within_bind (Prog.within_mono (Prog.within_frame h ((k + 1) * b + n)) hstep fun _ => Nat.le_refl _) fun r => ?_
    cases r with
    | ok a => show n ≤ _; omega
    | error e => exact Prog.within_mono ih (by omega) fun _ => Nat.le_refl n

theorem within_resolveConfirmation (sig : Signature) (k n : Nat) :
    (resolveConfirmationBounded sig k).Within W.of (k * W.status + n) (fun _ => n) := by
  induction k with
  | zero => exact Nat.le_add_left n _
  | succ k ih =>
    refine within_next W.status (k * W.status + n) rfl (by rw [Nat.succ_mul]; omega) fun answer => ?_
    cases pollVerdict answer with
    | some verdict => exact Nat.le_add_left n _
    | none => exact ih

/-! ## The handlers -/

theorem costs_refuse (correlationId claimedIdentity action stage reason subject : String) (reply : Reply) (kind : AckKind) :
    (refuse correlationId claimedIdentity action stage reason subject reply kind).Costs W.of (4 * W.other) :=
  within_next W.other (3 * W.other) rfl (by omega) fun _ => within_next W.other (2 * W.other) rfl (by omega) fun _ =>
    within_next W.other W.other rfl (by omega) fun _ => within_next W.other 0 rfl (by omega) fun _ => Nat.le_refl 0

theorem costs_publishAck (subject : String) (reply : Reply) (kind : AckKind) :
    (do publish subject reply; ack kind : Handler Unit).Costs W.of (2 * W.other) :=
  within_next W.other W.other rfl (by omega) fun _ => within_next W.other 0 rfl (by omega) fun _ => Nat.le_refl 0

/-- What the refusals of the gates cost. -/
structure RefusalsCost (W : Weights) (g : Gates) : Prop where
  auth : ∀ reason, (g.refuseAuth reason).Costs W.of (4 * W.other)
  role : g.refuseRole.Costs W.of (4 * W.other)
  stale : ∀ nowMs, (g.refuseStale nowMs).Costs W.of (4 * W.other)

/-- A handler with gates: two readings, one lookup, and a refusal or the rest. -/
theorem costs_gates {g : Gates} (hg : RefusalsCost W g) {rest : Nat → Handler Unit} {n : Nat} (hn : 4 * W.other ≤ n)
    (hrest : ∀ nowMs, (rest nowMs).Costs W.of n) : (g.run rest).Costs W.of (3 * W.other + n) := by
  refine within_next W.other (2 * W.other + n) rfl (by omega) fun authMs => ?_
  cases g.decision authMs with
  | error reason => exact Prog.within_mono (hg.auth reason) (by omega) fun _ => Nat.le_refl 0
  | ok u =>
    cases g.permitted with
    | error e => exact Prog.within_mono hg.role (by omega) fun _ => Nat.le_refl 0
    | ok u =>
      refine within_next W.other (W.other + n) rfl (by omega) fun found => ?_
      cases found with
      | true => exact within_next W.other 0 rfl (by omega) fun _ => Nat.le_refl 0
      | false =>
        refine within_next W.other n rfl (Nat.le_refl _) fun nowMs => ?_
        split
        · exact Prog.within_mono (hg.stale nowMs) hn fun _ => Nat.le_refl 0
        · exact hrest nowMs

/-- The end of an effect: at most two records, the result and the acknowledgement. -/
theorem costs_finish (correlationId replySubject : String) (key : Option String) (nowMs : Nat) (reply : Reply)
    (done : Option (String × Nat)) :
    (Prog.performAll (finishCalls correlationId replySubject key nowMs reply done) : Handler Unit).Costs W.of
      (4 * W.other) := by
  refine Prog.costs_performAll _ ?_
  cases done <;> cases key <;> simp [finishCalls, Weights.of] <;> omega

theorem costs_submitChecked (envelope : TxSubmitMessage) (nowMs : Nat) :
    (submitChecked Γ envelope nowMs).Costs W.of ((retryDelays + 1) * attemptBudget W + 5 * W.other) := by
  unfold submitChecked
  simp only
  split
  · exact Prog.within_mono (costs_publishAck ..) (by omega) fun _ => Nat.le_refl 0
  split
  · exact Prog.within_mono (costs_refuse ..) (by omega) fun _ => Nat.le_refl 0
  split
  · exact Prog.within_mono (costs_refuse ..) (by omega) fun _ => Nat.le_refl 0
  refine within_next W.other ((retryDelays + 1) * attemptBudget W + 4 * W.other) rfl (by omega) fun prior => ?_
  cases prior with
  | some result => exact Prog.within_mono (costs_publishAck ..) (by omega) fun _ => Nat.le_refl 0
  | none =>
    simp only
    rw [submitEffect_eq]
    refine Prog.within_bind (within_retrySpawn (costs_signAndSubmit ..) retryDelays (4 * W.other)) fun r => ?_
    rw [submitFinish_eq]
    exact costs_finish ..

theorem costs_mintEffect (envelope : MintEnergyMessage) (key : Option String) (nowMs : Nat) :
    (mintEffect Γ envelope key nowMs).Costs W.of (attemptBudget W + 24 * W.status + 5 * W.other) := by
  have hbuild : (buildAndSubmitGenerationMint Γ envelope.recipientWallet envelope.energyKwh envelope.meterId
      envelope.windowStartMs ⟨envelope.serviceIdentity⟩ envelope.correlationId).Within W.of
      (attemptBudget W + 24 * W.status + 5 * W.other) (fun _ => 4 * W.other) := by
    have hend : ∀ (r : Except String (Signature × Nat)) (n : Nat), 4 * W.other ≤ n →
        (.ret r : Handler _).Within W.of n (fun _ => 4 * W.other) := fun _ _ hn => hn
    unfold buildAndSubmitGenerationMint
    split
    · exact hend _ _ (by omega)
    split
    · exact hend _ _ (by omega)
    refine within_next W.other (attemptBudget W + 24 * W.status + 4 * W.other) rfl (by omega) fun answer => ?_
    cases answer with
    | error e => exact hend _ _ (by omega)
    | ok payer =>
      simp only
      split
      · exact hend _ _ (by omega)
      refine Prog.within_bind (Prog.within_mono (Prog.within_frame (costs_signAndSubmit ..) (24 * W.status + 4 * W.other))
        (by omega) fun _ => Nat.le_add_left (24 * W.status + 4 * W.other) 0) fun r => ?_
      cases r with
      | error stage => exact hend _ _ (by omega)
      | ok out =>
        refine Prog.within_bind (within_resolveConfirmation out.1 24 (4 * W.other)) fun verdict => ?_
        cases verdict <;> exact hend _ _ (Nat.le_refl _)
  rw [mintEffect_eq]
  refine Prog.within_bind hbuild fun r => ?_
  rw [mintFinish_eq]
  exact costs_finish ..

theorem costs_mintRest (envelope : MintEnergyMessage) (nowMs : Nat) :
    (mintRest Γ envelope nowMs).Costs W.of (attemptBudget W + 24 * W.status + 6 * W.other) := by
  refine within_next W.other (attemptBudget W + 24 * W.status + 5 * W.other) rfl (by omega) fun prior => ?_
  cases prior with
  | some result => exact Prog.within_mono (costs_publishAck ..) (by omega) fun _ => Nat.le_refl 0
  | none => exact costs_mintEffect ..

theorem costs_handleStatus (envelope : TxStatusMessage) :
    (handleStatus Γ (.ok envelope)).Costs W.of (W.status + 5 * W.other) := by
  unfold handleStatus
  refine within_next W.other (W.status + 4 * W.other) rfl (by omega) fun nowMs => ?_
  simp only
  split
  · exact Prog.within_mono (costs_refuse ..) (by omega) fun _ => Nat.le_refl 0
  split
  · exact Prog.within_mono (costs_refuse ..) (by omega) fun _ => Nat.le_refl 0
  have hstatus : (signatureStatus Γ envelope.signature).Within W.of (W.status + 4 * W.other) (fun _ => 4 * W.other) := by
    unfold signatureStatus
    split
    · exact Nat.le_add_left _ _
    · refine within_next W.status (4 * W.other) rfl (Nat.le_refl _) fun answer => ?_
      rcases answer with e | _ | ⟨_ | status, rest⟩ <;> exact Nat.le_refl _
  exact Prog.within_bind hstatus fun result => Prog.within_mono (costs_publishAck ..) (by omega) fun _ => Nat.le_refl 0

/-- The handler of a message is within the budget of the message. -/
theorem costs_dispatch (d : Delivery) : (dispatch Γ d).Costs W.of (d.budget W) := by
  have hack : ∀ (kind : AckKind) (n : Nat), W.other ≤ n → (ack kind).Costs W.of n := fun kind n hn =>
    within_next W.other 0 rfl hn fun _ => Nat.le_refl 0
  cases d with
  | submit payload =>
    cases payload with
    | error e => exact hack .term _ (by simp only [Delivery.budget]; omega)
    | ok envelope =>
      rw [dispatch, handleSubmit_eq]
      refine Prog.within_mono (costs_gates ⟨fun _ => costs_refuse .., costs_refuse .., fun _ => costs_refuse ..⟩ (by omega)
        (costs_submitChecked envelope)) ?_ fun _ => Nat.le_refl 0
      simp only [Delivery.budget]
      omega
  | cancel payload =>
    cases payload with
    | error e => exact hack .term _ (by simp only [Delivery.budget]; omega)
    | ok envelope =>
      rw [dispatch, handleCancel_eq]
      refine Prog.within_mono (costs_gates ⟨fun _ => costs_refuse .., costs_refuse .., fun _ => costs_refuse ..⟩
        (Nat.le_refl _) fun nowMs => ?_) ?_ fun _ => Nat.le_refl 0
      · rw [cancelRest_eq]
        exact Prog.costs_performAll _ (by simp [Weights.of]; omega)
      · simp only [Delivery.budget]
        omega
  | mint payload =>
    cases payload with
    | error e => exact hack .term _ (by simp only [Delivery.budget]; omega)
    | ok envelope =>
      rw [dispatch, handleMint_eq]
      refine Prog.within_mono (costs_gates ⟨fun _ => costs_refuse .., costs_refuse .., fun _ => costs_refuse ..⟩ (by omega)
        (costs_mintRest envelope)) ?_ fun _ => Nat.le_refl 0
      simp only [Delivery.budget]
      omega
  | status payload =>
    cases payload with
    | error e => exact hack .term _ (by simp only [Delivery.budget]; omega)
    | ok envelope => exact costs_handleStatus envelope
  | unknown subject => exact hack .ack _ (Nat.le_refl _)

/-! ## The methods -/

/-- The one call of a method that reads weighs no more than the method may spend before its response. -/
theorem ofRpc_providerCall_le {request : RpcRequest} {c : RpcCall} (h : request.providerCall Γ = some c) :
    W.ofRpc c + W.other ≤ request.budget W := by
  have hmap : ∀ {γ : Type} {parsed : Except String γ} {f : γ → RpcCall}, parsed.toOption.map f = some c → ∃ a, f a = c := by
    intro γ parsed f hf
    obtain ⟨a, -, ha⟩ := Option.map_eq_some_iff.mp hf
    exact ⟨a, ha⟩
  cases request with
  | submitTransaction request => cases h
  | getLatestBlockhash | getSlot | getEpochInfo =>
    cases h
    simp only [Weights.ofRpc, Weights.of, RpcRequest.budget]
    omega
  | _ =>
    obtain ⟨a, rfl⟩ := hmap h
    simp only [Weights.ofRpc, Weights.of, RpcRequest.budget]
    omega

theorem costs_submitTransaction {R : RpcEnv} {headers : HeaderMap} (request : SubmitTransactionRequest) :
    (share (submitTransaction Γ R.dev headers request)).Costs W.ofRpc (attemptBudget W) := by
  refine within_share (show (submitTransaction Γ R.dev headers request).Costs W.of _ from ?_)
  unfold submitTransaction
  split
  · exact Nat.zero_le _
  · refine Prog.within_bind (costs_signAndSubmit ..) fun r => ?_
    cases r <;> exact Nat.le_refl 0

/-- A method that reads is within what its request leaves after the response. -/
theorem costs_reading {R : RpcEnv} {headers : HeaderMap} {request : RpcRequest}
    (hreads : ∀ past c, MethodRule Γ headers past c request → past = [] ∧ request.providerCall Γ = some c) :
    (serveRequest Γ R headers request).Costs W.ofRpc (request.budget W - W.other) := by
  refine Prog.costs_of_single (wp_serveRequest request) fun past c hrule => ?_
  obtain ⟨hpast, hcall⟩ := hreads past c hrule.method
  have hle := ofRpc_providerCall_le (W := W) hcall
  exact ⟨hpast, by omega⟩

/-- The program of a request is within the budget of the request. -/
theorem costs_program {R : RpcEnv} (m : RpcMessage) : (m.program Γ R).Costs W.ofRpc (m.request.budget W) := by
  have hmethod : (serveRequest Γ R (m.received Γ) m.request).Costs W.ofRpc (m.request.budget W - W.other) := by
    cases m.request with
    | submitTransaction request =>
      refine Prog.within_bind (Prog.within_mono (costs_submitTransaction request) ?_ fun _ => Nat.le_refl 0) fun _ => Nat.le_refl 0
      simp only [RpcRequest.budget]
      omega
    | _ => exact costs_reading fun _ _ h => h
  have hrespond : W.other ≤ m.request.budget W := by
    cases m.request <;> simp only [RpcRequest.budget] <;> omega
  refine Prog.within_bind (Prog.within_mono (Prog.within_frame hmethod W.other) (by omega) fun _ =>
    Nat.le_add_left W.other 0) fun result => ?_
  exact Prog.within_perform 0 (Nat.le_refl _) fun _ => Nat.le_refl 0

end BudgetAux

open BudgetAux RpcAux in
/-- In every run of the process all its calls together weigh at most the budgets of the messages the consumer was delivered and the
requests the service received: whatever Vault, the chain, the audit store and the bus answer, however often an attempt is repeated
or a status asked for, and however handlers and methods interleave or are cut off. -/
theorem process_within_budget {Γ : Ctx} {R : RpcEnv} {w : Session} {x : Process} (W : Weights)
    (h : Process.Reach Γ R w x) :
    Prog.weight W.of (calledIn (Twin.leftLog x.log)) ≤
        ((delivered (Twin.leftLog x.log)).map fun y => y.2.budget W).sum ∧
      Prog.weight W.ofRpc (calledIn (Twin.rightLog x.log)) ≤
        ((delivered (Twin.rightLog x.log)).map fun y => y.2.request.budget W).sum := by
  refine ⟨?_, h.right_weight_le costs_program⟩
  rw [← h.split.left]
  exact (h.left fun _ _ _ => quiet_rpcServer).weight_le costs_dispatch

open ProcessAux SampleAux in
/-- A handler and a method that sign and submit side by side keep to their budgets of signatures and submissions. -/
theorem process_within_budget_beside : ∃ x, Process.Reach (ctx [datedTx]) devEnv (.fresh 1000 none) x ∧
    x.log.any handlerEffect = true ∧ x.log.any methodEffect = true ∧
    Prog.weight (Weights.of ⟨1, 1, 0, 0⟩) (calledIn (Twin.leftLog x.log)) ≤
      ((delivered (Twin.leftLog x.log)).map fun y => y.2.budget ⟨1, 1, 0, 0⟩).sum := by
  obtain ⟨x, hx, hhandler, hmethod⟩ := besideRun
  exact ⟨x, hx, hhandler, hmethod, (process_within_budget ⟨1, 1, 0, 0⟩ hx).1⟩

end ChainBridge
