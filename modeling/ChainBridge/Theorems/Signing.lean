import ChainBridge.Lemmas.Signing
import ChainBridge.Lemmas.Sample

/-!
# The signing path as a reference monitor

What is approved is what is signed and sent; and which transactions make the path index out of bounds.
-/

namespace ChainBridge

open Interleave SilentAux SigningAux SampleAux

/-- Whether an event asks Vault for a signature. -/
def isSign (e : CallEvent) : Bool :=
  match e.1 with
  | .signMessage _ _ => true
  | _ => false

/-- Whether an event submits a transaction. -/
def isSend (e : CallEvent) : Bool :=
  match e.1 with
  | .sendTransaction _ => true
  | _ => false

namespace SigningAux

/-- If no element of a kind has another one before it, there is at most one. -/
theorem length_filter_le_one {α : Type} {P : α → Bool} {xs : List α}
    (h : ∀ l₁ x l₂, xs = l₁ ++ x :: l₂ → P x = true → ∀ y ∈ l₁, P y = false) : (xs.filter P).length ≤ 1 := by
  induction xs with
  | nil => exact Nat.zero_le _
  | cons x xs ih =>
    by_cases hx : P x = true
    · have hnone : xs.filter P = [] := by
        refine List.filter_eq_nil_iff.mpr fun y hy hPy => ?_
        obtain ⟨l₁, l₂, rfl⟩ := List.append_of_mem hy
        have hfalse := h (x :: l₁) y l₂ rfl hPy x List.mem_cons_self
        rw [hx] at hfalse
        cases hfalse
      rw [List.filter_cons_of_pos hx, hnone]
      exact Nat.le_refl _
    · rw [List.filter_cons_of_neg hx]
      refine ih fun l₁ y l₂ hxs hPy z hz => ?_
      exact h (x :: l₁) y l₂ (by rw [hxs]; rfl) hPy z (List.mem_cons_of_mem _ hz)

theorem isSign_of_calm {e : CallEvent} (h : e.1.isEffect = false) : isSign e = false := by
  obtain ⟨c, a⟩ := e
  cases c <;> first | rfl | cases h

theorem isSend_of_calm {e : CallEvent} (h : e.1.isEffect = false) : isSend e = false := by
  obtain ⟨c, a⟩ := e
  cases c <;> first | rfl | cases h

/-- Nothing was submitted before a submission of the same attempt. -/
theorem SendFacts.fresh {Γ : Ctx} {serializedTx : Bytes} {keyId : String} {identity : SpiffeIdentity}
    {cur : List CallEvent} {sent : Transaction} (h : SendFacts Γ serializedTx keyId identity cur sent) :
    ∀ e ∈ cur, isSend e = false := by
  intro e he
  cases h with
  | unsigned hq _ _ _ => exact isSend_of_calm (hq e he)
  | signed tx tx' before after sig hs hq hcur _ _ =>
    rw [hcur, List.mem_append, List.mem_cons] at he
    rcases he with he | rfl | he
    · exact isSend_of_calm (hs.quiet e he)
    · rfl
    · exact isSend_of_calm (hq e he)

theorem message_of_redated {tx tx' : Transaction} (h : Redated tx tx') :
    tx'.message.header = tx.message.header ∧ tx'.message.accountKeys = tx.message.accountKeys ∧
      tx'.message.instructions = tx.message.instructions ∧ tx'.signatures = tx.signatures := by
  rcases h with rfl | ⟨-, h, rfl⟩
  · exact ⟨rfl, rfl, rfl, rfl⟩
  · exact ⟨rfl, rfl, rfl, rfl⟩

end SigningAux

/-- The signing path is a reference monitor, whatever Vault, the blockhash cache, the provider and the policy answer. In the trace
of one `sign_and_submit` that returns: Vault is asked at most once, and only for the message of the decoded transaction, dated at
most where its blockhash was empty, which the policy accepted for `platform_admin` and, unless the simulation is disabled, the
simulation did not reject; a transaction is submitted at most once, and it is the decoded one, or carries in slot 0 the signature
that Vault gave for its own message. -/
theorem signAndSubmit_reference_monitor (Γ : Ctx) (serializedTx : Bytes) (keyId : String) (identity : SpiffeIdentity)
    (correlationId : String) {t : List CallEvent} {r : Except SignSubmitStage (Signature × Nat)}
    (h : Prog.Exec (signAndSubmit Γ serializedTx keyId identity correlationId) t r) :
    (t.filter isSign).length ≤ 1 ∧
    (∀ before name msg a after, t = before ++ ⟨.signMessage name msg, a⟩ :: after →
      ∃ tx tx', Γ.deserialize serializedTx = .ok tx ∧ Γ.validateTransaction identity tx = .ok () ∧ keyId = platformAdmin ∧
        Redated tx tx' ∧ msg = Γ.messageData tx'.message ∧
        (Γ.presignDisabled = false → ∃ answer, (⟨.simulateTransaction tx', answer⟩ : CallEvent) ∈ before ∧
          ∀ e units, answer ≠ .ok ⟨some e, units⟩)) ∧
    (t.filter isSend).length ≤ 1 ∧
    ∀ before sent a after, t = before ++ ⟨.sendTransaction sent, a⟩ :: after →
      ∃ tx, Γ.deserialize serializedTx = .ok tx ∧ Γ.validateTransaction identity tx = .ok () ∧
        (keyId = "" ∨ keyId = platformAdmin) ∧
        sent.message.header = tx.message.header ∧ sent.message.accountKeys = tx.message.accountKeys ∧
        sent.message.instructions = tx.message.instructions ∧ (keyId = "" → sent = tx) ∧
        (keyId ≠ "" → ∃ name sig, (⟨.signMessage name (Γ.messageData sent.message), .ok sig⟩ : CallEvent) ∈ before ∧
          sent.signatures = sig :: (resizeSignatures tx.signatures tx.message.numRequired).tail) := by
  have hwp := wp_signAndSubmit (allows_attemptRule Γ serializedTx keyId identity) correlationId
    (Q := fun _ _ => True) (fun _ _ => trivial)
  have hrule : ∀ before e after, t = before ++ e :: after → AttemptRule Γ serializedTx keyId identity before e.1 := by
    rintro before e after rfl
    exact Prog.history_allow hwp h
  refine ⟨length_filter_le_one ?_, ?_, length_filter_le_one ?_, ?_⟩
  · rintro before ⟨c, a⟩ after ht hsign e he
    cases c with
    | signMessage name msg =>
      obtain ⟨tx, tx', hs, -, -⟩ := hrule before _ after ht
      exact isSign_of_calm (hs.quiet e he)
    | _ => cases hsign
  · intro before name msg a after ht
    obtain ⟨tx, tx', hs, -, hmsg⟩ := hrule before _ after ht
    exact ⟨tx, tx', hs.decoded, hs.allowed, hs.admin, hs.redated, hmsg, hs.simulated⟩
  · rintro before ⟨c, a⟩ after ht hsend e he
    cases c with
    | sendTransaction sent => exact SendFacts.fresh (hrule before _ after ht) e he
    | _ => cases hsend
  · intro before sent a after ht
    have hs : SendFacts Γ serializedTx keyId identity before sent := hrule before _ after ht
    cases hs with
    | unsigned hq hd hv hk =>
      exact ⟨sent, hd, hv, Or.inl hk, rfl, rfl, rfl, fun _ => rfl, fun hne => (hne hk).elim⟩
    | signed tx tx' cur after' sig hs hq hcur hsent _ =>
      obtain ⟨hh, ha, hi, hsig⟩ := message_of_redated hs.redated
      have hmsg : sent.message = tx'.message := by
        rw [hsent]
        rfl
      refine ⟨tx, hs.decoded, hs.allowed, Or.inr hs.admin, by rw [hmsg, hh], by rw [hmsg, ha], by rw [hmsg, hi],
        fun hk => ?_, fun _ => ⟨Γ.transitKeyName, sig, ?_, ?_⟩⟩
      · rw [hs.admin] at hk
        exact absurd hk (by decide)
      · rw [hcur, hmsg]
        exact List.mem_append_right _ List.mem_cons_self
      · rw [hsent, Transaction.attach, hsig, Message.numRequired, hh]
        rfl

/-- An execution that signs and submits. -/
theorem signAndSubmit_reference_monitor_run : ∃ t r,
    Prog.Exec (signAndSubmit (ctx [datedTx]) (encodeTransaction datedTx) platformAdmin
      ⟨"spiffe://gridtokenx.th/prod/trading-service/matcher"⟩ "c") t r ∧
    (t.filter isSend).length = 1 ∧ (t.filter isSign).length ≤ 1 := by
  have hrun : ((signAndSubmit (ctx [datedTx]) (encodeTransaction datedTx) platformAdmin
      ⟨"spiffe://gridtokenx.th/prod/trading-service/matcher"⟩ "c").runWith answer).any
      (fun out => decide ((out.1.filter isSend).length = 1)) = true := by
    decide +kernel
  obtain ⟨t, r, he, ht⟩ := Prog.exists_exec_of_runWith hrun
  exact ⟨t, r, he, of_decide_eq_true ht, (signAndSubmit_reference_monitor _ _ _ _ _ he).1⟩

/-! ## Indexing out of bounds -/

/-- No index expression of a program is out of bounds, whatever its calls are answered: it never stops at the call that aborts the
process, so it returns. -/
def NeverPanics {α : Type} (p : Handler α) : Prop := ∀ t k, ¬Prog.Steps p t (.call .panic k)

namespace SigningAux

/-- The calls that return. -/
def Returns (c : Call) : Prop := c ≠ .panic

/-- A program that makes no call that aborts. -/
abbrev Safe {α : Type} (p : Handler α) : Prop := p.Only Returns (fun _ => True)

theorem neverPanics_iff {α : Type} {p : Handler α} : NeverPanics p ↔ Safe p := by
  rw [Safe, Prog.only_iff_steps]
  constructor
  · rintro h t c k hs rfl
    exact h t k hs
  · intro h t k hs
    exact h t _ k hs rfl

theorem safe_auditThen {α : Type} (a : α) (correlationId : String) (identity : SpiffeIdentity) (action : String)
    (outcome : AuditOutcome) : Safe (do recordAudit correlationId identity action outcome; return a : Handler α) :=
  ⟨nofun, fun _ => ⟨nofun, fun _ => trivial⟩⟩

theorem only_index_iff {α : Type} (xs : List α) (i : Nat) (P : Prop) :
    (index xs i).Only Returns (fun _ => P) ↔ i < xs.length ∧ P := by
  unfold index
  cases hi : xs[i]? with
  | none =>
    refine ⟨fun h => (h.1 rfl).elim, fun h => ?_⟩
    rw [List.getElem?_eq_none_iff] at hi
    omega
  | some x =>
    have hlt := (List.getElem?_eq_some_iff.mp hi).1
    exact ⟨fun h => ⟨hlt, h⟩, fun h => h.2⟩

theorem only_logSigners_iff (keys : List Pubkey) (is : List Nat) (P : Prop) :
    (logSigners keys is).Only Returns (fun _ => P) ↔ (∀ i ∈ is, i < keys.length) ∧ P := by
  induction is with
  | nil => exact ⟨fun h => ⟨fun i hi => (by cases hi), h⟩, fun h => h.2⟩
  | cons i is ih =>
    rw [logSigners, Prog.only_bind_iff, ih, only_index_iff, List.forall_mem_cons, and_assoc]

theorem only_logPayer_iff (Γ : Ctx) (tx : Transaction) (P : Prop) :
    (logPayer Γ tx).Only Returns (fun _ => P) ↔ (Γ.infoEnabled = true → tx.message.accountKeys ≠ [] ∧
      (tx.message.numRequired ≤ 1 ∨ tx.message.numRequired ≤ tx.message.accountKeys.length)) ∧ P := by
  unfold logPayer
  split
  · rename_i hinfo
    rw [Prog.only_bind_iff]
    have hsigners : Prog.Only Returns (fun _ => P)
        (if tx.message.numRequired > 1 then logSigners tx.message.accountKeys (List.range tx.message.numRequired)
          else pure ()) ↔
        (tx.message.numRequired ≤ 1 ∨ tx.message.numRequired ≤ tx.message.accountKeys.length) ∧ P := by
      split
      · rename_i hn
        rw [only_logSigners_iff]
        refine and_congr_left fun _ => ?_
        constructor
        · intro h
          have := h (tx.message.numRequired - 1) (List.mem_range.mpr (by omega))
          omega
        · intro h i hi
          have := List.mem_range.mp hi
          omega
      · rename_i hn
        exact ⟨fun h => ⟨Or.inl (by omega), h⟩, fun h => h.2⟩
    rw [hsigners, only_index_iff, List.length_pos_iff, ← and_assoc]
    simp only [hinfo, true_implies]
  · rename_i hinfo
    exact ⟨fun h => ⟨fun h' => (hinfo h').elim, h⟩, fun h => h.2⟩

/-- Signing is safe exactly when the transaction is indexable. -/
theorem safe_vaultSign_iff (Γ : Ctx) (tx : Transaction) : Safe (vaultSign Γ tx) ↔ Indexable Γ tx := by
  unfold vaultSign
  rw [Safe, Prog.only_bind_iff, only_logPayer_iff, Indexable]
  refine and_congr_right fun _ => ?_
  rw [← resizeSignatures_ne_nil_iff]
  constructor
  · intro h hnil
    have hattach : Safe (do let tx ← attachSignature tx Signature.default; return .ok tx :
        Handler (Except SignSubmitStage Transaction)) := h.2 (.ok Signature.default)
    rw [attachSignature, hnil] at hattach
    exact hattach.1 rfl
  · intro h
    refine ⟨nofun, fun answer => ?_⟩
    cases answer with
    | error e => trivial
    | ok sig =>
      show Safe (do let tx ← attachSignature tx sig; return .ok tx : Handler (Except SignSubmitStage Transaction))
      cases hr : resizeSignatures tx.signatures tx.message.numRequired with
      | nil => exact (h hr).elim
      | cons first rest =>
        rw [attachSignature, hr]
        trivial

theorem safe_presign_iff (Γ : Ctx) (identity : SpiffeIdentity) (correlationId : String) (tx : Transaction) :
    Safe (do
      match ← presignSimulate Γ identity correlationId tx with
      | .error stage => return .error stage
      | .ok () => vaultSign Γ tx) ↔ Indexable Γ tx := by
  rw [Safe, Prog.only_bind_iff]
  unfold presignSimulate
  split
  · exact safe_vaultSign_iff Γ tx
  · constructor
    · intro h
      exact (safe_vaultSign_iff Γ tx).mp (h.2 (.error ""))
    · intro h
      refine ⟨nofun, fun answer => ?_⟩
      rcases answer with e | ⟨_ | e, units⟩
      · exact (safe_vaultSign_iff Γ tx).mpr h
      · exact (safe_vaultSign_iff Γ tx).mpr h
      · exact ⟨nofun, fun _ => ⟨nofun, fun _ => trivial⟩⟩

/-- The blockhash does not matter for indexing. -/
theorem indexable_withBlockhash (Γ : Ctx) (tx : Transaction) (h : Hash) : Indexable Γ (tx.withBlockhash h) ↔ Indexable Γ tx :=
  Iff.rfl

theorem safe_signPlatformAdmin_iff (Γ : Ctx) (identity : SpiffeIdentity) (correlationId : String) (tx : Transaction) :
    Safe (signPlatformAdmin Γ identity correlationId tx) ↔ Indexable Γ tx := by
  unfold signPlatformAdmin
  rw [Safe, Prog.only_bind_iff]
  unfold selectBlockhash
  split
  · constructor
    · intro h
      have hsome := h.2 (some (Hash.default, 0))
      exact (indexable_withBlockhash Γ tx Hash.default).mp ((safe_presign_iff Γ identity correlationId _).mp hsome)
    · intro h
      have hdated := fun bh => (safe_presign_iff Γ identity correlationId _).mpr ((indexable_withBlockhash Γ tx bh).mpr h)
      refine ⟨nofun, fun cached => ?_⟩
      cases cached with
      | some entry => exact hdated entry.1
      | none =>
        refine ⟨nofun, fun answer => ?_⟩
        cases answer with
        | ok entry => exact hdated entry.1
        | error e => trivial
  · exact safe_presign_iff Γ identity correlationId tx

theorem safe_sendSigned (Γ : Ctx) (identity : SpiffeIdentity) (correlationId : String) (tx : Transaction) :
    Safe (sendSigned Γ identity correlationId tx) := by
  unfold sendSigned
  refine ⟨nofun, fun answer => ?_⟩
  cases answer with
  | ok sig => exact safe_auditThen _ _ _ _ _
  | error e => exact safe_auditThen _ _ _ _ _

theorem safe_signAndSubmit_iff (Γ : Ctx) (serializedTx : Bytes) (keyId : String) (identity : SpiffeIdentity)
    (correlationId : String) :
    Safe (signAndSubmit Γ serializedTx keyId identity correlationId) ↔
      ∀ tx, Γ.deserialize serializedTx = .ok tx → Γ.validateTransaction identity tx = .ok () → keyId = platformAdmin →
        Indexable Γ tx := by
  unfold signAndSubmit
  cases hd : Γ.deserialize serializedTx with
  | error e => exact ⟨fun _ tx h => (by cases h), fun _ => trivial⟩
  | ok tx =>
    simp only [Except.ok.injEq, forall_eq']
    cases hv : Γ.validateTransaction identity tx with
    | error reason => exact ⟨fun _ h => (by cases h), fun _ => safe_auditThen _ _ _ _ _⟩
    | ok u =>
      by_cases hk : keyId = platformAdmin
      · simp only [hk, if_true, forall_const]
        rw [Safe, Prog.only_bind_iff]
        constructor
        · intro h
          exact (safe_signPlatformAdmin_iff Γ identity correlationId tx).mp (Prog.only_mono h (fun _ hc => hc) fun _ _ => trivial)
        · intro h
          refine Prog.only_mono ((safe_signPlatformAdmin_iff Γ identity correlationId tx).mpr h) (fun _ hc => hc) fun r _ => ?_
          cases r with
          | error stage => trivial
          | ok tx' => exact safe_sendSigned Γ identity correlationId tx'
      · simp only [hk, if_false]
        refine ⟨fun _ _ h => h.elim, fun _ => ?_⟩
        split
        · exact safe_auditThen _ _ _ _ _
        · exact safe_sendSigned Γ identity correlationId tx

/-- A transaction with no account key, no signature and no required signature. -/
def emptyTx : Transaction :=
  { signatures := []
    message := { header := ⟨0, 0, 0⟩, accountKeys := [], recentBlockhash := .default, instructions := [] } }

end SigningAux

/-- The signing path never indexes out of bounds exactly when the bytes, if the policy accepts what they decode to and the key id
is `platform_admin`, decode to an indexable transaction. -/
theorem signAndSubmit_never_panics_iff (Γ : Ctx) (serializedTx : Bytes) (keyId : String) (identity : SpiffeIdentity)
    (correlationId : String) :
    NeverPanics (signAndSubmit Γ serializedTx keyId identity correlationId) ↔
      ∀ tx, Γ.deserialize serializedTx = .ok tx → Γ.validateTransaction identity tx = .ok () → keyId = platformAdmin →
        Indexable Γ tx := by
  rw [neverPanics_iff]
  exact safe_signAndSubmit_iff Γ serializedTx keyId identity correlationId

/-- Thirty-eight zero bytes decode to a transaction with no account key and no signature, on which the path aborts. -/
theorem signAndSubmit_panics_on_zero_bytes : ¬∀ (Γ : Ctx) (serializedTx : Bytes) (keyId : String) (identity : SpiffeIdentity)
    (correlationId : String), (∃ tx, Γ.deserialize serializedTx = .ok tx) →
      NeverPanics (signAndSubmit Γ serializedTx keyId identity correlationId) := by
  intro h
  have hencode : encodeTransaction emptyTx = List.replicate 38 0 := by decide +kernel
  have hbytes : (ctx [emptyTx]).deserialize (List.replicate 38 0) = .ok emptyTx := by
    simp [ctx, ← hencode]
  have hsafe := neverPanics_iff.mp (h (ctx [emptyTx]) (List.replicate 38 0) platformAdmin
    ⟨"spiffe://gridtokenx.th/prod/trading-service/matcher"⟩ "c" ⟨emptyTx, hbytes⟩)
  have hindex := (safe_signAndSubmit_iff _ _ _ _ _).mp hsafe emptyTx hbytes rfl rfl
  exact absurd hindex (by decide)

end ChainBridge
