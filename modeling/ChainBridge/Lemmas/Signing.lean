import ChainBridge.Lemmas.Silent

/-!
# What the signing path does

The signing path makes two calls that matter: it asks Vault for a signature, and it submits. `wp_signAndSubmit` says what is
known when it makes them, in terms of the calls made before.
-/

namespace ChainBridge

open Interleave

/-- The index expressions of the signing path are within bounds: the payer and the signers are logged, if they are, from account
keys that exist, and there is a signature slot. -/
def Indexable (Γ : Ctx) (tx : Transaction) : Prop :=
  (Γ.infoEnabled = true → tx.message.accountKeys ≠ [] ∧
    (tx.message.numRequired ≤ 1 ∨ tx.message.numRequired ≤ tx.message.accountKeys.length)) ∧
  (tx.signatures ≠ [] ∨ 1 ≤ tx.message.numRequired)

instance (Γ : Ctx) (tx : Transaction) : Decidable (Indexable Γ tx) := inferInstanceAs (Decidable (_ ∧ _))

/-- The calls to Vault for a signature and to the cluster with a transaction. -/
def Call.isEffect : Call → Bool
  | .signMessage _ _ => true
  | .sendTransaction _ => true
  | _ => false

namespace SigningAux

open SilentAux

variable {Γ : Ctx}

/-- No signature was asked for and nothing was submitted. -/
def Quiet (past : List CallEvent) : Prop := ∀ e ∈ past, e.1.isEffect = false

theorem quiet_snoc {past : List CallEvent} {e : CallEvent} (h : Quiet past) (he : e.1.isEffect = false) :
    Quiet (past ++ [e]) := by
  intro e' he'
  rw [List.mem_append, List.mem_singleton] at he'
  rcases he' with he' | rfl
  · exact h e' he'
  · exact he

/-- A part of the signing path that neither asks for a signature nor submits. -/
abbrev Calm {α : Type} (p : Handler α) (R : α → Prop) : Prop := p.Only (fun c => c.isEffect = false) R

theorem calm_of_silent {α : Type} {p : Handler α} {R : α → Prop} (hp : Silent p R) : Calm p R := by
  refine Prog.only_mono hp (fun c hc => ?_) fun _ h => h
  cases c <;> first | rfl | cases hc

/-! ## The calls that matter -/

/-- What is known when Vault is asked to sign, after the calls `cur` of this attempt. -/
structure SignFacts (Γ : Ctx) (serializedTx : Bytes) (keyId : String) (identity : SpiffeIdentity) (cur : List CallEvent)
    (tx tx' : Transaction) : Prop where
  quiet : Quiet cur
  decoded : Γ.deserialize serializedTx = .ok tx
  allowed : Γ.validateTransaction identity tx = .ok ()
  admin : keyId = platformAdmin
  redated : Redated tx tx'
  simulated : Γ.presignDisabled = false →
    ∃ answer, (⟨.simulateTransaction tx', answer⟩ : CallEvent) ∈ cur ∧ ∀ e units, answer ≠ .ok ⟨some e, units⟩

/-- What is known when a transaction is submitted: it is the decoded one, or it was signed in this attempt. -/
inductive SendFacts (Γ : Ctx) (serializedTx : Bytes) (keyId : String) (identity : SpiffeIdentity) (cur : List CallEvent)
    (sent : Transaction) : Prop where
  | unsigned : Quiet cur → Γ.deserialize serializedTx = .ok sent → Γ.validateTransaction identity sent = .ok () →
      keyId = "" → SendFacts Γ serializedTx keyId identity cur sent
  | signed (tx tx' : Transaction) (before after : List CallEvent) (sig : Signature) :
      SignFacts Γ serializedTx keyId identity before tx tx' → Quiet after →
      cur = before ++ ⟨.signMessage Γ.transitKeyName (Γ.messageData tx'.message), .ok sig⟩ :: after →
      sent = tx'.attach sig → Indexable Γ tx' → SendFacts Γ serializedTx keyId identity cur sent

/-- A calm part under a history monitor that allows every other call: an invariant of the history that calm calls keep holds
after it. -/
theorem wp_calm {A : List CallEvent → Call → Prop} (hA : ∀ past c, c.isEffect = false → A past c) {α : Type}
    {p : Handler α} {R : α → Prop} (hp : Calm p R) {I : List CallEvent → Prop}
    (hI : ∀ past (e : CallEvent), I past → e.1.isEffect = false → I (past ++ [e])) {past : List CallEvent} (hpast : I past)
    {Q : List CallEvent → α → Prop} (hQ : ∀ past a, I past → R a → Q past a) : p.wp (Monitor.history A) past Q :=
  Prog.wp_of_only hp (fun past h c hc => ⟨hA past c hc, fun _ => hI past _ h hc⟩) hpast hQ

/-- The history of an attempt that has made only calm calls, with a fact that more of them keep. -/
def Since (past₀ : List CallEvent) (F : List CallEvent → Prop) (past : List CallEvent) : Prop :=
  ∃ cur, past = past₀ ++ cur ∧ Quiet cur ∧ F cur

theorem since_snoc {past₀ : List CallEvent} {F : List CallEvent → Prop} (hF : ∀ cur e, F cur → F (cur ++ [e]))
    (past : List CallEvent) (e : CallEvent) (h : Since past₀ F past) (he : e.1.isEffect = false) :
    Since past₀ F (past ++ [e]) := by
  obtain ⟨cur, rfl, hq, hf⟩ := h
  exact ⟨cur ++ [e], List.append_assoc .., quiet_snoc hq he, hF cur e hf⟩

/-- The calls a history monitor must allow in an attempt that starts after `past₀`. -/
structure Allows (Γ : Ctx) (serializedTx : Bytes) (keyId : String) (identity : SpiffeIdentity) (past₀ : List CallEvent)
    (A : List CallEvent → Call → Prop) : Prop where
  calm : ∀ past c, c.isEffect = false → A past c
  sign : ∀ cur tx tx', SignFacts Γ serializedTx keyId identity cur tx tx' →
    A (past₀ ++ cur) (.signMessage Γ.transitKeyName (Γ.messageData tx'.message))
  send : ∀ cur sent, SendFacts Γ serializedTx keyId identity cur sent → A (past₀ ++ cur) (.sendTransaction sent)

section Attempt

variable {serializedTx : Bytes} {keyId : String} {identity : SpiffeIdentity} {past₀ : List CallEvent}
  {A : List CallEvent → Call → Prop} (hA : Allows Γ serializedTx keyId identity past₀ A) (correlationId : String)
include hA

theorem wp_auditThen {α : Type} (a : α) (action : String) (outcome : AuditOutcome) (past : List CallEvent)
    {Q : List CallEvent → α → Prop} (hQ : ∀ past, Q past a) :
    (do recordAudit correlationId identity action outcome; return a : Handler α).wp (Monitor.history A) past Q := by
  rw [Prog.wp_bind]
  exact wp_calm hA.calm (calm_of_silent (silent_of_reading (reading_recordAudit ..))) (I := fun _ => True)
    (fun _ _ _ _ => trivial) trivial (fun past _ _ _ => hQ past)

theorem wp_sendSigned {cur : List CallEvent} {sent : Transaction} (hs : SendFacts Γ serializedTx keyId identity cur sent)
    {Q : List CallEvent → Except SignSubmitStage (Signature × Nat) → Prop} (hQ : ∀ past r, Q past r) :
    (sendSigned Γ identity correlationId sent).wp (Monitor.history A) (past₀ ++ cur) Q := by
  unfold sendSigned
  refine ⟨hA.send cur sent hs, fun answer => ?_⟩
  cases answer with
  | ok sig => exact wp_auditThen hA correlationId _ _ _ _ (fun past => hQ past _)
  | error e => exact wp_auditThen hA correlationId _ _ _ _ (fun past => hQ past _)

theorem wp_vaultSign {cur : List CallEvent} {tx tx' : Transaction}
    (hs : SignFacts Γ serializedTx keyId identity cur tx tx')
    {Q : List CallEvent → Except SignSubmitStage Transaction → Prop} (herr : ∀ past stage, Q past (.error stage))
    (hok : ∀ cur sent, SendFacts Γ serializedTx keyId identity cur sent → Q (past₀ ++ cur) (.ok sent)) :
    (vaultSign Γ tx').wp (Monitor.history A) (past₀ ++ cur) Q := by
  unfold vaultSign
  rw [Prog.wp_bind]
  have hmono : ∀ cur (e : CallEvent), (Γ.presignDisabled = false → ∃ answer,
      (⟨.simulateTransaction tx', answer⟩ : CallEvent) ∈ cur ∧ ∀ e units, answer ≠ .ok ⟨some e, units⟩) →
      Γ.presignDisabled = false → ∃ answer, (⟨.simulateTransaction tx', answer⟩ : CallEvent) ∈ cur ++ [e] ∧
        ∀ e units, answer ≠ .ok ⟨some e, units⟩ := by
    intro cur e h hd
    obtain ⟨answer, hm, hne⟩ := h hd
    exact ⟨answer, List.mem_append_left _ hm, hne⟩
  refine wp_calm hA.calm (calm_of_silent (silent_of_reading (reading_of_checked (checked_logPayer tx'))))
    (since_snoc hmono) ⟨cur, rfl, hs.quiet, hs.simulated⟩ ?_
  rintro past - ⟨cur', rfl, hq, hsim⟩ hlogged
  have hs' : SignFacts Γ serializedTx keyId identity cur' tx tx' :=
    ⟨hq, hs.decoded, hs.allowed, hs.admin, hs.redated, hsim⟩
  refine ⟨hA.sign cur' tx tx' hs', fun answer => ?_⟩
  cases answer with
  | error e => exact herr _ _
  | ok sig =>
    show ((attachSignature tx' sig >>= _ : Handler _)).wp _ _ _
    rw [Prog.wp_bind]
    refine wp_calm hA.calm (calm_of_silent (silent_of_reading (reading_of_checked (checked_attachSignature tx' sig))))
      (since_snoc (F := fun _ => True) (fun _ _ _ => trivial)) ⟨[], (List.append_nil _).symm, fun e he => (by cases he), trivial⟩ ?_
    rintro past sent ⟨after, rfl, hafter, -⟩ ⟨hslot, rfl⟩
    rw [Monitor.history, List.append_assoc, List.append_assoc]
    exact hok _ _ (.signed tx tx' cur' after sig hs' hafter rfl rfl ⟨hlogged, hslot⟩)

theorem wp_signPlatformAdmin {tx : Transaction} (hd : Γ.deserialize serializedTx = .ok tx)
    (hv : Γ.validateTransaction identity tx = .ok ()) (hk : keyId = platformAdmin)
    {Q : List CallEvent → Except SignSubmitStage Transaction → Prop} (herr : ∀ past stage, Q past (.error stage))
    (hok : ∀ cur sent, SendFacts Γ serializedTx keyId identity cur sent → Q (past₀ ++ cur) (.ok sent)) :
    (signPlatformAdmin Γ identity correlationId tx).wp (Monitor.history A) past₀ Q := by
  unfold signPlatformAdmin
  rw [Prog.wp_bind]
  refine wp_calm hA.calm (calm_of_silent (silent_of_reading (reading_selectBlockhash tx)))
    (since_snoc (F := fun _ => True) (fun _ _ _ => trivial)) ⟨[], (List.append_nil _).symm, fun e he => (by cases he), trivial⟩ ?_
  rintro past r ⟨cur, rfl, hq, -⟩ hr
  cases r with
  | error stage => exact herr _ _
  | ok tx' =>
    have hre : Redated tx tx' := hr tx' rfl
    show ((presignSimulate Γ identity correlationId tx' >>= _ : Handler _)).wp _ _ _
    rw [Prog.wp_bind]
    unfold presignSimulate
    split
    · rename_i hdis
      exact wp_vaultSign hA ⟨hq, hd, hv, hk, hre, fun h => (by rw [h] at hdis; cases hdis)⟩ herr hok
    · refine ⟨hA.calm _ _ rfl, fun answer => ?_⟩
      have hq' : Quiet (cur ++ [⟨.simulateTransaction tx', answer⟩]) := quiet_snoc hq rfl
      have hsign : (∀ e units, answer ≠ .ok ⟨some e, units⟩) →
          (vaultSign Γ tx').wp (Monitor.history A) (past₀ ++ cur ++ [⟨.simulateTransaction tx', answer⟩]) Q := by
        intro hne
        rw [List.append_assoc]
        exact wp_vaultSign hA ⟨hq', hd, hv, hk, hre,
          fun _ => ⟨answer, List.mem_append_right _ List.mem_cons_self, hne⟩⟩ herr hok
      rcases answer with e | ⟨_ | e, units⟩
      · exact hsign (fun e units h => (by cases h))
      · exact hsign (fun e units h => (by cases h))
      · exact wp_auditThen hA correlationId _ _ _ _ (fun past => herr past _)

/-- The signing path under a history monitor. -/
theorem wp_signAndSubmit {Q : List CallEvent → Except SignSubmitStage (Signature × Nat) → Prop} (hQ : ∀ past r, Q past r) :
    (signAndSubmit Γ serializedTx keyId identity correlationId).wp (Monitor.history A) past₀ Q := by
  unfold signAndSubmit
  split
  · exact hQ _ _
  · rename_i tx hd
    split
    · exact wp_auditThen hA correlationId _ _ _ _ (fun past => hQ past _)
    · rename_i hv
      split
      · rename_i hk
        rw [Prog.wp_bind]
        refine wp_signPlatformAdmin hA correlationId hd hv hk (fun past stage => hQ _ _) (fun cur sent hs => ?_)
        exact wp_sendSigned hA correlationId hs hQ
      · split
        · exact wp_auditThen hA correlationId _ _ _ _ (fun past => hQ past _)
        · rename_i hne
          rw [← List.append_nil past₀]
          exact wp_sendSigned hA correlationId
            (.unsigned (fun e he => (by cases he)) hd hv (Decidable.not_not.mp hne)) hQ

end Attempt

/-- The calls of one attempt, each with what is known when it is made. -/
def AttemptRule (Γ : Ctx) (serializedTx : Bytes) (keyId : String) (identity : SpiffeIdentity) (past : List CallEvent) :
    Call → Prop
  | .signMessage name msg => ∃ tx tx', SignFacts Γ serializedTx keyId identity past tx tx' ∧
    name = Γ.transitKeyName ∧ msg = Γ.messageData tx'.message
  | .sendTransaction sent => SendFacts Γ serializedTx keyId identity past sent
  | _ => True

theorem allows_attemptRule (Γ : Ctx) (serializedTx : Bytes) (keyId : String) (identity : SpiffeIdentity) :
    Allows Γ serializedTx keyId identity [] (AttemptRule Γ serializedTx keyId identity) where
  calm := by
    intro past c hc
    cases c <;> trivial
  sign := fun cur tx tx' h => ⟨tx, tx', h, rfl, rfl⟩
  send := fun cur sent h => h

/-- What is known when one `sign_and_submit` comes to a submission. -/
theorem sendFacts_of_steps {serializedTx : Bytes} {keyId : String} {identity : SpiffeIdentity} {correlationId : String}
    {t : List CallEvent} {sent : Transaction} {k : Except String Signature → Handler (Except SignSubmitStage (Signature × Nat))}
    (h : Prog.Steps (signAndSubmit Γ serializedTx keyId identity correlationId) t (.call (.sendTransaction sent) k)) :
    SendFacts Γ serializedTx keyId identity t sent := by
  have hwp := wp_signAndSubmit (allows_attemptRule Γ serializedTx keyId identity) correlationId
    (Q := fun _ _ => True) (fun _ _ => trivial)
  have hsent := h.trans (Prog.Steps.cons (Call.sendTransaction sent) (Except.error "") (.nil (k (.error ""))))
  exact Prog.history_allow hwp hsent

/-! ## Executions that sign -/

theorem index_eq_pure {α : Type} {xs : List α} {i : Nat} (h : i < xs.length) : ∃ x, index xs i = pure x := by
  refine ⟨xs[i], ?_⟩
  rw [index, List.getElem?_eq_getElem h]

theorem logSigners_eq_pure {keys : List Pubkey} {is : List Nat} (h : ∀ i ∈ is, i < keys.length) :
    logSigners keys is = pure () := by
  induction is with
  | nil => rfl
  | cons i is ih =>
    obtain ⟨hi, his⟩ := List.forall_mem_cons.mp h
    obtain ⟨x, hx⟩ := index_eq_pure hi
    rw [logSigners, hx]
    exact ih his

/-- On an indexable transaction the log makes no call. -/
theorem logPayer_eq_pure {tx : Transaction} (h : Indexable Γ tx) : logPayer Γ tx = pure () := by
  unfold logPayer
  split
  · rename_i hinfo
    obtain ⟨hpayer, hsigners⟩ := h.1 hinfo
    obtain ⟨x, hx⟩ := index_eq_pure (List.length_pos_iff.mpr hpayer)
    rw [hx]
    show (if _ then _ else _) = _
    split
    · rename_i hn
      refine logSigners_eq_pure fun i hi => ?_
      have := List.mem_range.mp hi
      omega
    · rfl
  · rfl

theorem attachSignature_eq_pure {tx : Transaction} (h : Indexable Γ tx) (sig : Signature) :
    attachSignature tx sig = pure (tx.attach sig) := by
  unfold attachSignature
  split
  · rename_i hnil
    exact ((resizeSignatures_ne_nil_iff _ _).mpr h.2 hnil).elim
  · rename_i first rest hr
    rw [Transaction.attach, hr]
    rfl

/-- On an indexable transaction the signing makes one call, and goes on with the signature it is answered with. -/
theorem exec_vaultSign {tx : Transaction} (h : Indexable Γ tx) (sig : Signature) :
    Prog.Exec (vaultSign Γ tx) [⟨.signMessage Γ.transitKeyName (Γ.messageData tx.message), .ok sig⟩] (.ok (tx.attach sig)) := by
  unfold vaultSign
  rw [logPayer_eq_pure h]
  refine .cons _ _ ?_
  show Prog.Steps (attachSignature tx sig >>= _) _ _
  rw [attachSignature_eq_pure h]
  exact .nil _

/-- The simulation can pass. -/
theorem exec_presignSimulate (identity : SpiffeIdentity) (correlationId : String) (tx : Transaction) :
    ∃ t, Quiet t ∧ Prog.Exec (presignSimulate Γ identity correlationId tx) t (.ok ()) := by
  unfold presignSimulate
  split
  · exact ⟨[], fun e he => (by cases he), .nil _⟩
  · refine ⟨[⟨.simulateTransaction tx, .ok ⟨none, none⟩⟩], fun e he => ?_, .cons _ _ (.nil _)⟩
    rw [List.mem_singleton.mp he]
    rfl

/-- The signing of a transaction that the bridge dates, for any blockhash in the cache and any signature Vault gives. -/
theorem exec_signPlatformAdmin {tx : Transaction} (hundated : tx.message.recentBlockhash = Hash.default) (h : Indexable Γ tx)
    (identity : SpiffeIdentity) (correlationId : String) (bh : Hash) (sig : Signature) :
    ∃ before, Quiet before ∧ Prog.Exec (signPlatformAdmin Γ identity correlationId tx)
      (before ++ [⟨.signMessage Γ.transitKeyName (Γ.messageData (tx.withBlockhash bh).message), .ok sig⟩])
      (.ok ((tx.withBlockhash bh).attach sig)) := by
  have hselect : Prog.Exec (selectBlockhash tx) [⟨.blockhashGet, some (bh, 0)⟩] (.ok (tx.withBlockhash bh)) := by
    unfold selectBlockhash
    rw [if_pos hundated]
    exact .cons _ _ (.nil _)
  obtain ⟨t, hquiet, hsim⟩ := exec_presignSimulate (Γ := Γ) identity correlationId (tx.withBlockhash bh)
  have hindexable : Indexable Γ (tx.withBlockhash bh) := h
  have hsign := exec_vaultSign hindexable sig
  refine ⟨⟨.blockhashGet, some (bh, 0)⟩ :: t, List.forall_mem_cons.mpr ⟨rfl, hquiet⟩, Prog.exec_bind.mpr
    ⟨[⟨.blockhashGet, some (bh, 0)⟩], _, _, rfl, hselect, Prog.exec_bind.mpr ⟨_, _, _, rfl, hsim, hsign⟩⟩⟩

end SigningAux

end ChainBridge
