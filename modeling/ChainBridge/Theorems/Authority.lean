import ChainBridge.Theorems.Process

/-!
# Who may have what signed

Signatures and submissions come from three entry points: a submit and a mint over NATS, and `submit_transaction`. At each, what is
signed or submitted is traced back, in the history of the whole process, to the message that was delivered and to the checks it
passed. `Granted` is the rule for the handlers; the rule for the methods is `RpcRule`.
-/

namespace ChainBridge

open Interleave SigningAux HandlersAux

/-- Why the handler of a message may go on to the signing path, with which bytes, under which key id and for which identity: the
calls it has made until then, with their answers, and what was checked. -/
inductive Grant (Γ : Ctx) : Delivery → List CallEvent → Bytes → String → SpiffeIdentity → Prop where
  | submit (envelope : TxSubmitMessage) (authMs nowMs : Nat) (tx : Transaction) :
      (submitGates Γ envelope).Passes authMs nowMs → SubmitChecks Γ envelope tx →
      Grant Γ (.submit (.ok envelope))
        (claimTrace (dedupKey .submit envelope.idempotencyKey) envelope.correlationId authMs nowMs none)
        envelope.serializedTx envelope.keyId ⟨envelope.serviceIdentity⟩
  | mint (envelope : MintEnergyMessage) (authMs nowMs amount : Nat) (recipient payer : Pubkey) (serialized : Bytes) :
      (mintGates Γ envelope).Passes authMs nowMs → Γ.energyKwhToBaseUnits envelope.energyKwh = .ok amount →
      Γ.pubkeyFromStr envelope.recipientWallet = .ok recipient →
      mintTransaction Γ payer recipient amount envelope.meterId envelope.windowStartMs = .ok serialized →
      Grant Γ (.mint (.ok envelope))
        (claimTrace (dedupKey .mint envelope.idempotencyKey) envelope.correlationId authMs nowMs none ++
          [⟨.getPublicKey Γ.transitKeyName, .ok payer⟩])
        serialized platformAdmin ⟨envelope.serviceIdentity⟩

/-- A call to Vault for a signature, or a submission, after these calls of the handler of a message: the message was granted the
signing path, no earlier attempt at it had a submission accepted, and the call is made in an attempt under the rule of the path. -/
def Granted (Γ : Ctx) (d : Delivery) (past : List CallEvent) (c : Call) : Prop :=
  ∃ lead failed cur bytes keyId identity, past = lead ++ failed ++ cur ∧ Grant Γ d lead bytes keyId identity ∧
    (∀ sig, ¬Accepted failed sig) ∧ AttemptRule Γ bytes keyId identity cur c

namespace AuthorityAux

open SilentAux

variable {Γ : Ctx} {d : Delivery}

/-- A call of an attempt at the signing path, after these calls of the handler of a message: the grant, the attempts before it that
failed, and the calls of the attempt so far. -/
def Attempting (Γ : Ctx) (d : Delivery) (past : List CallEvent) (c : Call) : Prop :=
  ∃ lead failed cur bytes keyId identity correlationId k, past = lead ++ failed ++ cur ∧ Grant Γ d lead bytes keyId identity ∧
    (∀ sig, ¬Accepted failed sig) ∧ Prog.Steps (signAndSubmit Γ bytes keyId identity correlationId) cur (.call c k)

/-- The calls of an attempt are made under the rule of the path. -/
theorem granted_of_attempting {past : List CallEvent} {c : Call} (h : Attempting Γ d past c) : Granted Γ d past c := by
  obtain ⟨lead, failed, cur, bytes, keyId, identity, correlationId, k, rfl, hg, hfailed, hsteps⟩ := h
  have hwp := wp_signAndSubmit (allows_attemptRule Γ bytes keyId identity) correlationId (Q := fun _ _ => True) fun _ _ => trivial
  have hallow := (Prog.wp_steps hwp hsteps).1
  rw [Monitor.after_history] at hallow
  exact ⟨lead, failed, cur, bytes, keyId, identity, rfl, hg, hfailed, hallow⟩

/-- A rule for signatures and submissions alone. -/
def OnEffects (A : List CallEvent → Call → Prop) (past : List CallEvent) (c : Call) : Prop := c.isEffect = true → A past c

theorem rule_calm {A : List CallEvent → Call → Prop} (past : List CallEvent) (c : Call) (hc : c.isEffect = false) :
    OnEffects A past c := by
  intro h
  rw [hc] at h
  cases h

/-- The rule for all calls of a handler: only signatures and submissions need a grant. -/
abbrev Rule (Γ : Ctx) (d : Delivery) : List CallEvent → Call → Prop := OnEffects (Attempting Γ d)

theorem calm_of_gate {c : Call} (h : c.isGate = true) : c.isEffect = false := by
  cases c <;> first | rfl | cases h

/-- A part without signatures and submissions needs no grant. -/
theorem wp_rule_calm {A : List CallEvent → Call → Prop} {α : Type} {p : Handler α} {R : α → Prop} (hp : Calm p R)
    (past : List CallEvent) : p.wp (Monitor.history (OnEffects A)) past (fun _ _ => True) :=
  wp_calm rule_calm hp (I := fun _ => True) (fun _ _ _ _ => trivial) trivial fun _ _ _ _ => trivial

theorem wp_rule_gate {p : Handler Unit} (hp : Gate p) (past : List CallEvent) :
    p.wp (Monitor.history (Rule Γ d)) past (fun _ _ => True) :=
  wp_rule_calm (Prog.only_mono hp (fun _ hc => calm_of_gate hc) fun _ h => h) past

/-- The gates of a handler, and what it does when a message passes them. -/
theorem wp_rule_run {g : Gates} (hg : g.Refuses) {rest : Nat → Handler Unit}
    (hrest : ∀ authMs nowMs, g.Passes authMs nowMs →
      (rest nowMs).wp (Monitor.history (Rule Γ d)) (g.passed authMs nowMs) (fun _ _ => True)) :
    (g.run rest).wp (Monitor.history (Rule Γ d)) [] (fun _ _ => True) := by
  refine (Prog.wp_perform_bind ..).mpr ⟨rule_calm _ _ rfl, fun authMs => ?_⟩
  cases hauth : g.decision authMs with
  | error reason => exact wp_rule_gate (hg.auth reason) _
  | ok u =>
    cases hrole : g.permitted with
    | error e => exact wp_rule_gate hg.role _
    | ok u =>
      refine (Prog.wp_perform_bind ..).mpr ⟨rule_calm _ _ rfl, fun found => ?_⟩
      cases found with
      | true => exact wp_rule_gate (gate_ack .ack) _
      | false =>
        refine (Prog.wp_perform_bind ..).mpr ⟨rule_calm _ _ rfl, fun nowMs => ?_⟩
        split
        · exact wp_rule_gate (hg.stale nowMs) _
        · rename_i hstale
          exact hrest authMs nowMs ⟨hauth, hrole, Nat.le_of_not_lt hstale⟩

/-- The calls after the grant, none of them a submission that was accepted. -/
def FailedSince (lead past : List CallEvent) : Prop := ∃ failed, past = lead ++ failed ∧ ∀ sig, ¬Accepted failed sig

theorem failedSince_self (lead : List CallEvent) : FailedSince lead lead :=
  ⟨[], (List.append_nil lead).symm, fun _ ⟨_, hmem⟩ => (by cases hmem)⟩

/-- Every call of an attempt is made under the grant, and an attempt that fails leaves one more that failed. -/
theorem wp_rule_attempt {lead past : List CallEvent} {bytes : Bytes} {keyId : String} {identity : SpiffeIdentity}
    (hg : Grant Γ d lead bytes keyId identity) (hpast : FailedSince lead past) (correlationId : String) :
    (signAndSubmit Γ bytes keyId identity correlationId).wp (Monitor.history (Rule Γ d)) past
      (fun past' r => ∀ stage, r = .error stage → FailedSince lead past') := by
  obtain ⟨failed, rfl, hfailed⟩ := hpast
  have hattempt := Prog.wp_history_steps (signAndSubmit Γ bytes keyId identity correlationId) (lead ++ failed)
  refine Prog.wp_mono (Prog.wp_history_mono hattempt fun past' c hc _ => ?_) ?_
  · obtain ⟨t, k, rfl, hsteps⟩ := hc
    exact ⟨lead, failed, t, bytes, keyId, identity, correlationId, k, rfl, hg, hfailed, hsteps⟩
  · rintro past' r ⟨t, rfl, ht⟩ stage rfl
    refine ⟨failed ++ t, List.append_assoc .., fun sig ha => ?_⟩
    rcases accepted_append.mp ha with ha | ha
    · exact hfailed sig ha
    · obtain ⟨n, hn⟩ := (exec_signAndSubmit ht sig).mp ha
      cases hn

/-- Attempts that are repeated until one succeeds are all made under the grant. -/
theorem wp_rule_retrySpawn {lead : List CallEvent} {action : Handler (Except SignSubmitStage (Signature × Nat))}
    (haction : ∀ past, FailedSince lead past → action.wp (Monitor.history (Rule Γ d)) past
      (fun past' r => ∀ stage, r = .error stage → FailedSince lead past')) (n : Nat) {past : List CallEvent}
    (hpast : FailedSince lead past) :
    (retrySpawn action n).wp (Monitor.history (Rule Γ d)) past (fun _ _ => True) := by
  induction n generalizing past with
  | zero => exact Prog.wp_mono (haction past hpast) fun _ _ _ => trivial
  | succ n ih =>
    refine (Prog.wp_bind ..).mpr (Prog.wp_mono (haction past hpast) fun past' r hpast' => ?_)
    cases r with
    | ok out => trivial
    | error stage => exact ih (hpast' stage rfl)

/-- The calls that finish an effect neither sign nor submit. -/
theorem calm_finish (correlationId replySubject : String) (key : Option String) (nowMs : Nat) (reply : Reply)
    (out : Option (String × Nat)) :
    Calm (Prog.performAll (finishCalls correlationId replySubject key nowMs reply out)) (fun _ => True) := by
  refine Prog.only_performAll fun c hc => ?_
  cases out <;> cases key <;> simp only [finishCalls, Option.map, Option.toList, List.cons_append, List.nil_append,
    List.mem_cons, List.not_mem_nil, or_false] at hc <;> rcases hc with rfl | rfl | rfl | rfl <;> rfl

theorem wp_rule_submitChecked {envelope : TxSubmitMessage} {authMs nowMs : Nat}
    (hpasses : (submitGates Γ envelope).Passes authMs nowMs) :
    (submitChecked Γ envelope nowMs).wp (Monitor.history (Rule Γ (.submit (.ok envelope))))
      ((submitGates Γ envelope).passed authMs nowMs) (fun _ _ => True) := by
  unfold submitChecked
  simp only
  split
  · exact wp_rule_gate (gate_publishAck rfl ..) _
  rename_i tx hdecoded
  split
  · exact wp_rule_gate (gate_refuse rfl ..) _
  rename_i hallowed
  split
  · exact wp_rule_gate (gate_refuse rfl ..) _
  rename_i hkey
  have hsigner : envelope.keyId = platformAdmin ∨ envelope.keyId = "" := by
    by_cases hadmin : envelope.keyId = platformAdmin
    · exact Or.inl hadmin
    · exact Or.inr (Decidable.by_contra fun hne => hkey ⟨hadmin, hne⟩)
  refine (Prog.wp_perform_bind ..).mpr ⟨rule_calm _ _ rfl, fun a => ?_⟩
  cases a with
  | some prior => exact wp_rule_calm (p := submitClaimed Γ envelope nowMs (some prior)) ⟨rfl, fun _ => ⟨rfl, fun _ => trivial⟩⟩ _
  | none =>
    have hgrant := Grant.submit envelope authMs nowMs tx hpasses ⟨hdecoded, hallowed, hsigner⟩
    show Prog.wp _ (submitEffect Γ envelope _ nowMs) _ _
    rw [submitEffect_eq]
    refine (Prog.wp_bind ..).mpr (Prog.wp_mono (wp_rule_retrySpawn
      (fun past hpast => wp_rule_attempt hgrant hpast envelope.correlationId) retryDelays (failedSince_self _)) fun past r _ => ?_)
    rw [submitFinish_eq]
    exact wp_rule_calm (calm_finish ..) past

theorem wp_rule_mintRest {envelope : MintEnergyMessage} {authMs nowMs : Nat}
    (hpasses : (mintGates Γ envelope).Passes authMs nowMs) :
    (mintRest Γ envelope nowMs).wp (Monitor.history (Rule Γ (.mint (.ok envelope))))
      ((mintGates Γ envelope).passed authMs nowMs) (fun _ _ => True) := by
  refine (Prog.wp_perform_bind ..).mpr ⟨rule_calm _ _ rfl, fun a => ?_⟩
  cases a with
  | some prior => exact wp_rule_calm (p := mintClaimed Γ envelope nowMs (some prior)) ⟨rfl, fun _ => ⟨rfl, fun _ => trivial⟩⟩ _
  | none =>
    show Prog.wp _ (mintEffect Γ envelope _ nowMs) _ _
    rw [mintEffect_eq]
    refine (Prog.wp_bind ..).mpr (Prog.wp_mono (Q := fun _ _ => True) ?_ fun past r _ => ?_)
    · unfold buildAndSubmitGenerationMint
      split
      · trivial
      rename_i amount hamount
      split
      · trivial
      rename_i recipient hrecipient
      refine (Prog.wp_perform_bind ..).mpr ⟨rule_calm _ _ rfl, fun answer => ?_⟩
      cases answer with
      | error e => trivial
      | ok payer =>
        simp only
        split
        · trivial
        rename_i serialized hserialized
        have hgrant := Grant.mint envelope authMs nowMs amount recipient payer serialized hpasses hamount hrecipient hserialized
        refine (Prog.wp_bind ..).mpr (Prog.wp_mono (wp_rule_attempt hgrant (failedSince_self _) envelope.correlationId)
          fun past r _ => ?_)
        cases r with
        | error stage => trivial
        | ok out =>
          refine (Prog.wp_bind ..).mpr (Prog.wp_mono (wp_rule_calm (calm_of_silent (silent_resolveConfirmationBounded out.1 24))
            past) fun past verdict _ => ?_)
          cases verdict <;> trivial
    · rw [mintFinish_eq]
      exact wp_rule_calm (calm_finish ..) past

/-- Every handler keeps to the rule, whatever its calls are answered. -/
theorem wp_rule_dispatch (d : Delivery) :
    (dispatch Γ d).wp (Monitor.history (Rule Γ d)) [] (fun _ _ => True) := by
  cases d with
  | submit payload =>
    cases payload with
    | error e => exact wp_rule_gate (gate_ack .term) _
    | ok envelope =>
      show Prog.wp _ (handleSubmit Γ (.ok envelope)) _ _
      rw [handleSubmit_eq]
      exact wp_rule_run (submitGates_refuses envelope) fun _ _ => wp_rule_submitChecked
  | cancel payload =>
    cases payload with
    | error e => exact wp_rule_gate (gate_ack .term) _
    | ok envelope =>
      show Prog.wp _ (handleCancel Γ (.ok envelope)) _ _
      rw [handleCancel_eq]
      refine wp_rule_run (cancelGates_refuses envelope) fun _ nowMs _ => wp_rule_calm (R := fun _ => True) ?_ _
      exact ⟨rfl, fun _ => ⟨rfl, fun _ => ⟨rfl, fun _ => ⟨rfl, fun _ => trivial⟩⟩⟩⟩
  | mint payload =>
    cases payload with
    | error e => exact wp_rule_gate (gate_ack .term) _
    | ok envelope =>
      show Prog.wp _ (handleMint Γ (.ok envelope)) _ _
      rw [handleMint_eq]
      exact wp_rule_run (mintGates_refuses envelope) fun _ _ => wp_rule_mintRest
  | status payload =>
    exact wp_rule_calm (only_handleStatus (K := fun c => c.isEffect = false) rfl (fun _ => rfl) (fun _ => rfl)
      (fun _ _ => rfl) (fun _ => rfl) payload) _
  | unknown subject => exact wp_rule_gate (gate_ack .ack) _

end AuthorityAux

namespace AuthorityAux

/-- In every run of the process, a signature or a submission of a handler is a call of an attempt it was granted. -/
theorem attempting_of_reach {R : RpcEnv} {w : Session} {x : Process} (h : Process.Reach Γ R w x)
    {before after : List (BridgeLabel ⊕ RpcLabel)} {t : Nat} {e : CallEvent}
    (hlog : x.log = before ++ .inl (.call t e) :: after) (he : e.1.isEffect = true) :
    ∃ d, .deliver t d ∈ Twin.leftLog before ∧ Attempting Γ d (traceOf t (Twin.leftLog before)) e.1 := by
  obtain ⟨d, k, hd, hsteps⟩ := h.left_call (fun _ _ _ => RpcAux.quiet_rpcServer) hlog
  have hallow := (Prog.wp_steps (wp_rule_dispatch d) hsteps).1 he
  rw [Monitor.after_history, List.nil_append] at hallow
  exact ⟨d, hd, hallow⟩

end AuthorityAux

open AuthorityAux in
/-- In every run of the process, a handler that asks Vault for a signature or submits a transaction was started by a message that
passed every gate of its subject at readings of its own, whose claim it won and of which no submission was accepted yet. What it
signs and submits is the transaction of that message as the policy accepted it for the identity of the envelope, but for an empty
blockhash that was filled in. -/
theorem effects_granted {Γ : Ctx} {R : RpcEnv} {w : Session} {x : Process} (h : Process.Reach Γ R w x)
    {before after : List (BridgeLabel ⊕ RpcLabel)} {t : Nat} {e : CallEvent}
    (hlog : x.log = before ++ .inl (.call t e) :: after) (he : e.1.isEffect = true) :
    ∃ d, .deliver t d ∈ Twin.leftLog before ∧ Granted Γ d (traceOf t (Twin.leftLog before)) e.1 := by
  obtain ⟨d, hd, hattempting⟩ := attempting_of_reach h hlog he
  exact ⟨d, hd, granted_of_attempting hattempting⟩

open ProcessAux SampleAux in
/-- A submit that is signed while a gRPC request is served beside it was granted its signature. -/
theorem signed_beside_rpc_granted : ∃ (x : Process) (before after : List (BridgeLabel ⊕ RpcLabel)) (t : Nat) (e : CallEvent),
    Process.Reach (ctx [datedTx]) devEnv (.fresh 1000 none) x ∧ x.log = before ++ .inl (.call t e) :: after ∧
      e.1.isEffect = true ∧ ∃ d, .deliver t d ∈ Twin.leftLog before ∧
        Granted (ctx [datedTx]) d (traceOf t (Twin.leftLog before)) e.1 := by
  obtain ⟨x, hx, htest⟩ := besideRun
  obtain ⟨l, hl, hsign⟩ := List.any_eq_true.mp htest.1
  obtain ⟨before, after, hlog⟩ := List.append_of_mem hl
  rcases l with (⟨t, d⟩ | ⟨t, e⟩ | m) | l
  · cases hsign
  · exact ⟨x, before, after, t, e, hx, hlog, hsign, effects_granted hx hlog hsign⟩
  · cases hsign
  · cases hsign

end ChainBridge
