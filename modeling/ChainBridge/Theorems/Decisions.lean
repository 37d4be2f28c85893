import ChainBridge.Lemmas.Handlers
import ChainBridge.Lemmas.Sample

/-!
# The audit entry of a signing decision

`sign_and_submit` writes its audit entry by hand at each exit. Three of its exits leave through the `?` operator without one: bytes
that do not decode, a blockhash that cannot be refreshed, and a signature that Vault does not give.
-/

namespace ChainBridge

open Interleave

/-- An audit outcome says what a call returned: the submission with its signature, or a rejection. -/
def AuditOutcome.Records (Γ : Ctx) : AuditOutcome → Except SignSubmitStage (Signature × Nat) → Prop
  | .submitted signature _, .ok (sig, _) => signature = Γ.signatureToString sig
  | .rejected _ _, .error _ => True
  | _, _ => False

/-- A call leaves exactly one audit entry, for its identity and correlation id, with what it returned. -/
def DecisionAudited (Γ : Ctx) (identity : SpiffeIdentity) (correlationId : String) (t : List CallEvent)
    (r : Except SignSubmitStage (Signature × Nat)) : Prop :=
  ∃ entry, t.filterMap appendedEntry = [entry] ∧ entry.correlationId = correlationId ∧ entry.identity = identity.uri ∧
    entry.outcome.Records Γ r

/-- A refresh of the blockhash, or a request for a signature, that fails. -/
def isOutage : CallEvent → Bool
  | ⟨.getLatestBlockhash, .error _⟩ => true
  | ⟨.signMessage _ _, .error _⟩ => true
  | _ => false

namespace DecisionsAux

open SilentAux

variable {Γ : Ctx} {identity : SpiffeIdentity} {correlationId : String} {t : List CallEvent}

/-- No refresh and no signature failed. -/
def Untroubled (t : List CallEvent) : Prop := ∀ e ∈ t, isOutage e = false

theorem untroubled_nil : Untroubled [] := fun e he => by cases he

theorem untroubled_append {t u : List CallEvent} : Untroubled (t ++ u) ↔ Untroubled t ∧ Untroubled u := List.forall_mem_append

theorem untroubled_cons {e : CallEvent} : Untroubled (e :: t) ↔ isOutage e = false ∧ Untroubled t := List.forall_mem_cons

/-- An audit entry, and a result. -/
theorem exec_entry {α : Type} {action : String} {outcome : AuditOutcome} {a b : α}
    (h : Prog.Exec (do recordAudit correlationId identity action outcome; return a) t b) :
    b = a ∧ Untroubled t ∧ ∃ createdAtMs, t.filterMap appendedEntry = [.new correlationId identity.uri action outcome createdAtMs] := by
  obtain ⟨createdAtMs, t₁, rfl, h₁⟩ := Prog.exec_call.mp h
  obtain ⟨answer, t₂, rfl, h₂⟩ := Prog.exec_call.mp h₁
  obtain ⟨rfl, rfl⟩ := Prog.exec_ret.mp h₂
  refine ⟨rfl, untroubled_cons.mpr ⟨rfl, untroubled_cons.mpr ⟨rfl, untroubled_nil⟩⟩, _, rfl⟩

/-- How a part of the signing path before the submission ends: with a result and no entry, with a rejection that is audited, or with
an outage and no entry. -/
inductive Ended {α : Type} (identity : SpiffeIdentity) (correlationId : String) (t : List CallEvent) :
    Except SignSubmitStage α → Prop where
  | passed {a : α} : t.filterMap appendedEntry = [] → Untroubled t → Ended identity correlationId t (.ok a)
  | rejected {stage : SignSubmitStage} {name reason : String} {createdAtMs : UInt64} :
      t.filterMap appendedEntry = [.new correlationId identity.uri "sign_and_submit" (.rejected name reason) createdAtMs] →
      Untroubled t → Ended identity correlationId t (.error stage)
  | outage {stage : SignSubmitStage} : t.filterMap appendedEntry = [] → ¬Untroubled t → Ended identity correlationId t (.error stage)

theorem ended_selectBlockhash {tx : Transaction} {out : Except SignSubmitStage Transaction}
    (h : Prog.Exec (selectBlockhash tx) t out) : Ended identity correlationId t out := by
  unfold selectBlockhash at h
  split at h
  · obtain ⟨cached, t₁, rfl, h₁⟩ := Prog.exec_perform.mp h
    cases cached with
    | some entry =>
      obtain ⟨rfl, rfl⟩ := Prog.exec_ret.mp h₁
      exact .passed rfl (untroubled_cons.mpr ⟨rfl, untroubled_nil⟩)
    | none =>
      obtain ⟨answer, t₂, rfl, h₂⟩ := Prog.exec_perform.mp h₁
      cases answer with
      | ok entry =>
        obtain ⟨rfl, rfl⟩ := Prog.exec_ret.mp h₂
        exact .passed rfl (untroubled_cons.mpr ⟨rfl, untroubled_cons.mpr ⟨rfl, untroubled_nil⟩⟩)
      | error e =>
        obtain ⟨rfl, rfl⟩ := Prog.exec_ret.mp h₂
        refine .outage rfl fun hno => ?_
        cases (untroubled_cons.mp (untroubled_cons.mp hno).2).1
  · obtain ⟨rfl, rfl⟩ := Prog.exec_ret.mp h
    exact .passed rfl untroubled_nil

theorem ended_presignSimulate {tx : Transaction} {out : Except SignSubmitStage Unit}
    (h : Prog.Exec (presignSimulate Γ identity correlationId tx) t out) : Ended identity correlationId t out := by
  unfold presignSimulate at h
  split at h
  · obtain ⟨rfl, rfl⟩ := Prog.exec_ret.mp h
    exact .passed rfl untroubled_nil
  · obtain ⟨answer, t₁, rfl, h₁⟩ := Prog.exec_perform.mp h
    rcases answer with e | ⟨_ | e, units⟩
    · obtain ⟨rfl, rfl⟩ := Prog.exec_ret.mp h₁
      exact .passed rfl (untroubled_cons.mpr ⟨rfl, untroubled_nil⟩)
    · obtain ⟨rfl, rfl⟩ := Prog.exec_ret.mp h₁
      exact .passed rfl (untroubled_cons.mpr ⟨rfl, untroubled_nil⟩)
    · obtain ⟨rfl, hno, createdAtMs, hentry⟩ := exec_entry h₁
      exact .rejected hentry (untroubled_cons.mpr ⟨rfl, hno⟩)

theorem ended_vaultSign {tx : Transaction} {out : Except SignSubmitStage Transaction} (h : Prog.Exec (vaultSign Γ tx) t out) :
    Ended identity correlationId t out := by
  obtain ⟨t₁, t₂, u, rfl, hlog, h₁⟩ := Prog.exec_bind.mp h
  obtain rfl := exec_checked (checked_logPayer tx) hlog
  obtain ⟨answer, t₃, rfl, h₂⟩ := Prog.exec_perform.mp h₁
  cases answer with
  | error e =>
    obtain ⟨rfl, rfl⟩ := Prog.exec_ret.mp h₂
    refine .outage rfl fun hno => ?_
    cases (untroubled_cons.mp hno).1
  | ok sig =>
    obtain ⟨t₄, t₅, signed, rfl, hattach, h₃⟩ := Prog.exec_bind.mp h₂
    obtain rfl := exec_checked (checked_attachSignature tx sig) hattach
    obtain ⟨rfl, rfl⟩ := Prog.exec_ret.mp h₃
    exact .passed rfl (untroubled_cons.mpr ⟨rfl, untroubled_nil⟩)

/-- A part behind one that passed. -/
theorem Ended.prepend {α : Type} {t u : List CallEvent} {out : Except SignSubmitStage α} (h : Ended identity correlationId u out)
    (hentries : t.filterMap appendedEntry = []) (hno : Untroubled t) : Ended identity correlationId (t ++ u) out := by
  have happend : (t ++ u).filterMap appendedEntry = u.filterMap appendedEntry := by
    rw [List.filterMap_append, hentries, List.nil_append]
  cases h with
  | passed he hu => exact .passed (happend.trans he) (untroubled_append.mpr ⟨hno, hu⟩)
  | rejected he hu => exact .rejected (happend.trans he) (untroubled_append.mpr ⟨hno, hu⟩)
  | outage he hu => exact .outage (happend.trans he) fun hall => hu (untroubled_append.mp hall).2

/-- The end of a part, as the end of a sequence that it cuts short. -/
theorem Ended.cast {α β : Type} {stage : SignSubmitStage} (h : Ended identity correlationId t (.error stage : Except SignSubmitStage α)) :
    Ended identity correlationId t (.error stage : Except SignSubmitStage β) := by
  cases h with
  | rejected he hu => exact .rejected he hu
  | outage he hu => exact .outage he hu

theorem ended_signPlatformAdmin {tx : Transaction} {out : Except SignSubmitStage Transaction}
    (h : Prog.Exec (signPlatformAdmin Γ identity correlationId tx) t out) : Ended identity correlationId t out := by
  obtain ⟨t₁, t₂, selected, rfl, hselect, h₁⟩ := Prog.exec_bind.mp h
  have hselected : Ended identity correlationId t₁ selected := ended_selectBlockhash hselect
  cases selected with
  | error stage =>
    obtain ⟨rfl, rfl⟩ := Prog.exec_ret.mp h₁
    rw [List.append_nil]
    exact hselected
  | ok tx' =>
    cases hselected with
    | passed hentries hno =>
      obtain ⟨t₃, t₄, simulated, rfl, hsimulate, h₂⟩ := Prog.exec_bind.mp h₁
      have hsimulated := ended_presignSimulate hsimulate
      refine Ended.prepend ?_ hentries hno
      cases simulated with
      | error stage =>
        obtain ⟨rfl, rfl⟩ := Prog.exec_ret.mp h₂
        rw [List.append_nil]
        exact hsimulated.cast
      | ok u =>
        cases hsimulated with
        | passed hentries hno => exact (ended_vaultSign h₂).prepend hentries hno

/-! ## The whole call -/

variable {r : Except SignSubmitStage (Signature × Nat)}

theorem not_audited_of_nil (h : t.filterMap appendedEntry = []) : ¬DecisionAudited Γ identity correlationId t r := by
  rintro ⟨entry, hentry, -⟩
  rw [h] at hentry
  cases hentry

theorem audited_prepend {u : List CallEvent} (h : DecisionAudited Γ identity correlationId u r)
    (hentries : t.filterMap appendedEntry = []) : DecisionAudited Γ identity correlationId (t ++ u) r := by
  obtain ⟨entry, hentry, hrecords⟩ := h
  refine ⟨entry, ?_, hrecords⟩
  rw [List.filterMap_append, hentries, List.nil_append, hentry]

/-- A rejection with its entry. -/
theorem exec_rejected {name reason : String} {stage : SignSubmitStage}
    (h : Prog.Exec (do auditSignRejection correlationId identity name reason; return .error stage) t r) :
    DecisionAudited Γ identity correlationId t r ∧ Untroubled t := by
  obtain ⟨rfl, hno, createdAtMs, hentry⟩ := exec_entry h
  exact ⟨⟨_, hentry, rfl, rfl, trivial⟩, hno⟩

/-- The submission, accepted or not, is audited. -/
theorem exec_submission {tx : Transaction} (h : Prog.Exec (sendSigned Γ identity correlationId tx) t r) :
    DecisionAudited Γ identity correlationId t r ∧ Untroubled t := by
  obtain ⟨answer, t₁, rfl, h₁⟩ := Prog.exec_perform.mp h
  have hsend : [(⟨.sendTransaction tx, answer⟩ : CallEvent)].filterMap appendedEntry = [] := rfl
  cases answer with
  | ok sig =>
    obtain ⟨rfl, hno, createdAtMs, hentry⟩ := exec_entry h₁
    have haudited : DecisionAudited Γ identity correlationId t₁ (.ok (sig, 0)) := ⟨_, hentry, rfl, rfl, rfl⟩
    exact ⟨audited_prepend haudited hsend, untroubled_cons.mpr ⟨rfl, hno⟩⟩
  | error e =>
    obtain ⟨haudited, hno⟩ := exec_rejected h₁
    exact ⟨audited_prepend haudited hsend, untroubled_cons.mpr ⟨rfl, hno⟩⟩

/-- The platform signs: the decision is audited unless there was an outage. -/
theorem exec_admin {tx : Transaction} (h : Prog.Exec (signPlatformAdmin Γ identity correlationId tx >>= fun
      | .error stage => return .error stage
      | .ok tx => sendSigned Γ identity correlationId tx) t r) :
    DecisionAudited Γ identity correlationId t r ↔ Untroubled t := by
  obtain ⟨t₁, t₂, signed, rfl, hsign, h₁⟩ := Prog.exec_bind.mp h
  have hended := ended_signPlatformAdmin hsign
  cases hended with
  | passed hentries hno =>
    obtain ⟨haudited, hno'⟩ := exec_submission h₁
    exact iff_of_true (audited_prepend haudited hentries) (untroubled_append.mpr ⟨hno, hno'⟩)
  | rejected hentry hno =>
    obtain ⟨rfl, rfl⟩ := Prog.exec_ret.mp h₁
    rw [List.append_nil]
    exact iff_of_true ⟨_, hentry, rfl, rfl, trivial⟩ hno
  | outage hentries hno =>
    obtain ⟨rfl, rfl⟩ := Prog.exec_ret.mp h₁
    rw [List.append_nil]
    exact iff_of_false (not_audited_of_nil hentries) hno

end DecisionsAux

open DecisionsAux

/-- A call of `sign_and_submit` that returns leaves exactly one audit entry with its decision if and only if its bytes decode and
none of its requests for a blockhash or a signature fails. -/
theorem decision_audited_iff {Γ : Ctx} {serializedTx : Bytes} {keyId : String} {identity : SpiffeIdentity} {correlationId : String}
    {t : List CallEvent} {r : Except SignSubmitStage (Signature × Nat)}
    (h : Prog.Exec (signAndSubmit Γ serializedTx keyId identity correlationId) t r) :
    DecisionAudited Γ identity correlationId t r ↔
      (∃ tx, Γ.deserialize serializedTx = .ok tx) ∧ ∀ e ∈ t, isOutage e = false := by
  unfold signAndSubmit at h
  split at h
  · rename_i e hdecoded
    obtain ⟨rfl, rfl⟩ := Prog.exec_ret.mp h
    refine iff_of_false (not_audited_of_nil rfl) ?_
    rintro ⟨⟨tx, htx⟩, -⟩
    rw [hdecoded] at htx
    cases htx
  rename_i tx hdecoded
  rw [and_iff_right ⟨tx, hdecoded⟩]
  split at h
  · obtain ⟨haudited, hno⟩ := exec_rejected h
    exact iff_of_true haudited hno
  split at h
  · exact exec_admin h
  split at h
  · obtain ⟨haudited, hno⟩ := exec_rejected h
    exact iff_of_true haudited hno
  · obtain ⟨haudited, hno⟩ := exec_submission h
    exact iff_of_true haudited hno

namespace DecisionsAux

open SampleAux

/-- The answers of an environment in which Vault gives no signature. -/
def sealedVault : (c : Call) → Option c.Answer
  | .signMessage _ _ => some (.error "Vault is sealed")
  | c => answer c

/-- The platform's signature is asked for, for a transaction that brings its own blockhash. -/
def signRun : Handler (Except SignSubmitStage (Signature × Nat)) :=
  signAndSubmit (ctx [datedTx]) (encodeTransaction datedTx) platformAdmin ⟨matcher⟩ "c"

end DecisionsAux

open SampleAux in
/-- A call that is answered at every step leaves its decision in the audit log. -/
theorem signRun_audited : ∃ t r, Prog.Exec signRun t r ∧ DecisionAudited (ctx [datedTx]) ⟨matcher⟩ "c" t r := by
  have hrun : (signRun.runWith answer).any (fun out => out.1.all fun e => !isOutage e) = true := by decide +kernel
  obtain ⟨t, r, hexec, htest⟩ := Prog.exists_exec_of_runWith hrun
  have hno : ∀ e ∈ t, isOutage e = false := by simpa using htest
  have hdecoded : ∃ tx, (ctx [datedTx]).deserialize (encodeTransaction datedTx) = .ok tx := ⟨datedTx, rfl⟩
  exact ⟨t, r, hexec, (decision_audited_iff hexec).mpr ⟨hdecoded, hno⟩⟩

/-- Not every call leaves its decision in the audit log: when Vault fails to sign, the call returns an error and leaves no entry. -/
theorem sealed_vault_unaudited : ¬∀ (Γ : Ctx) (serializedTx : Bytes) (keyId : String) (identity : SpiffeIdentity)
    (correlationId : String) (t : List CallEvent) (r : Except SignSubmitStage (Signature × Nat)),
    Prog.Exec (signAndSubmit Γ serializedTx keyId identity correlationId) t r →
      DecisionAudited Γ identity correlationId t r := by
  intro hall
  have hrun : (signRun.runWith sealedVault).any (fun out => out.1.all fun e => (appendedEntry e).isNone) = true := by
    decide +kernel
  obtain ⟨t, r, hexec, htest⟩ := Prog.exists_exec_of_runWith hrun
  have hnone : t.filterMap appendedEntry = [] := by
    refine List.filterMap_eq_nil_iff.mpr fun e he => ?_
    simpa using List.all_eq_true.mp htest e he
  exact not_audited_of_nil hnone (hall _ _ _ _ _ t r hexec)

end ChainBridge
