import ChainBridge.Lemmas.Handlers
import ChainBridge.Lemmas.Sample
import ChainBridge.Provider

/-!
# What a failed simulation decides

The signing path rejects a transaction whose simulation fails, and goes on when the simulation could not be run. Each provider
has its own way to report the two: the RPC node answers with a transaction error inside a response, LiteSVM with an error,
which `SurfpoolSolanaProvider` reports like a failure to simulate at all. The signing path then takes it for one.
-/

namespace ChainBridge

open Interleave

/-- A failed simulation in LiteSVM. -/
def isSvmFailure : ProviderEvent → Bool
  | ⟨.svmSimulate _, .error _⟩ => true
  | _ => false

/-- A simulation that ended in a failure of the transaction, on either provider. -/
def isTxFailure : ProviderEvent → Bool
  | ⟨.rpcSimulate _, .ok result⟩ => result.err.isSome
  | ⟨.svmSimulate _, .error _⟩ => true
  | _ => false

/-- A call to Vault for a signature or to the cluster with a transaction. -/
def ProviderCall.isEffect : ProviderCall → Bool
  | .other c => c.isEffect
  | _ => false

/-- The audit entry a call appends. -/
def ProviderCall.appended : ProviderCall → Option AuditEntry
  | .other (.auditAppend entry) => some entry
  | _ => none

/-- The simulation decides: a failure of the transaction is rejected with its audit entry and before any effect, and without
one the simulation rejects nothing and the path goes on to Vault, unless it had no blockhash to go on with. -/
structure SimulationDecides (identity : SpiffeIdentity) (correlationId : String) (t : List ProviderEvent)
    (r : Except SignSubmitStage (Signature × Nat)) : Prop where
  rejected : (∃ e ∈ t, isTxFailure e = true) → ∃ reason createdAtMs, r = .error (.simulationRejected reason) ∧
    t.filterMap (·.1.appended) =
      [.new correlationId identity.uri "sign_and_submit" (.rejected "simulation" reason) createdAtMs] ∧
    ∀ e ∈ t, e.1.isEffect = false
  advisory : (∀ e ∈ t, isTxFailure e = false) → (∀ reason, r ≠ .error (.simulationRejected reason)) ∧
    ((∃ e, r = .error (.blockhashRefreshFailed e)) ∨ ∃ e ∈ t, e.1.isEffect = true)

namespace SimulationAux

open SilentAux HandlersAux

variable {Γ : Ctx} {P : Providers} {identity : SpiffeIdentity} {correlationId : String} {tx : Transaction}

/-! ## The signing path -/

/-- The calls that fill in the blockhash. -/
def isDating : Call → Bool
  | .blockhashGet => true
  | .getLatestBlockhash => true
  | _ => false

/-- A request for a simulation. -/
def isSimulate : Call → Bool
  | .simulateTransaction _ => true
  | _ => false

/-- A part that asks for no simulation. -/
abbrev Unsimulated {α : Type} (p : Handler α) : Prop := p.Only (fun c => isSimulate c = false) (fun _ => True)

theorem unsimulated_of_checked {α : Type} {p : Handler α} {R : α → Prop} (hp : Checked p R) : Unsimulated p :=
  Prog.only_mono hp (fun c hc => by rw [hc]; rfl) fun _ _ => trivial

theorem unsimulated_recordAudit (action : String) (outcome : AuditOutcome) :
    Unsimulated (recordAudit correlationId identity action outcome) :=
  ⟨rfl, fun _ => ⟨rfl, fun _ => trivial⟩⟩

theorem unsimulated_vaultSign : Unsimulated (vaultSign Γ tx) := by
  refine Prog.only_bind (unsimulated_of_checked (checked_logPayer tx)) fun _ _ => Prog.only_perform.mpr ⟨rfl, fun answer => ?_⟩
  cases answer with
  | error e => trivial
  | ok sig => exact Prog.only_bind (unsimulated_of_checked (checked_attachSignature tx sig)) fun _ _ => trivial

theorem unsimulated_sendSigned : Unsimulated (sendSigned Γ identity correlationId tx) := by
  refine Prog.only_perform.mpr ⟨rfl, fun answer => ?_⟩
  cases answer with
  | ok sig => exact Prog.only_bind (unsimulated_recordAudit ..) fun _ _ => trivial
  | error e => exact Prog.only_bind (unsimulated_recordAudit ..) fun _ _ => trivial

/-- Filling in the blockhash asks the cache and the provider, and fails only at the provider. -/
theorem only_selectBlockhash : (selectBlockhash tx).Only (fun c => isDating c = true)
    (fun r => ∀ stage, r = .error stage → ∃ e, stage = .blockhashRefreshFailed e) := by
  unfold selectBlockhash
  split
  · refine ⟨rfl, fun cached => ?_⟩
    cases cached with
    | some entry => exact fun stage h => by cases h
    | none =>
      refine ⟨rfl, fun answer => ?_⟩
      cases answer with
      | ok entry => exact fun stage h => by cases h
      | error e =>
        intro stage h
        cases h
        exact ⟨e, rfl⟩
  · exact fun stage h => by cases h

/-- After Vault was asked, the simulation rejects nothing any more. -/
def NotSimulation {α : Type} (r : Except SignSubmitStage α) : Prop := ∀ reason, r ≠ .error (.simulationRejected reason)

/-- The signing asks Vault first of all, and its failures are not the simulation's. -/
theorem exec_signing {t : List CallEvent} {r : Except SignSubmitStage Transaction} (h : Prog.Exec (vaultSign Γ tx) t r) :
    (∃ e ∈ t, e.1.isEffect = true) ∧ NotSimulation r := by
  obtain ⟨t₁, t₂, u, rfl, -, h'⟩ := Prog.exec_bind.mp h
  obtain ⟨answer, t₃, rfl, h''⟩ := Prog.exec_perform.mp h'
  refine ⟨⟨⟨.signMessage Γ.transitKeyName (Γ.messageData tx.message), answer⟩, by simp, rfl⟩, ?_⟩
  cases answer with
  | error e =>
    obtain ⟨-, rfl⟩ := Prog.exec_ret.mp h''
    exact fun reason heq => by cases heq
  | ok sig =>
    obtain ⟨t₄, t₅, tx', rfl, -, hret⟩ := Prog.exec_bind.mp h''
    obtain ⟨-, rfl⟩ := Prog.exec_ret.mp hret
    exact fun reason heq => by cases heq

theorem exec_sending {t : List CallEvent} {r : Except SignSubmitStage (Signature × Nat)}
    (h : Prog.Exec (sendSigned Γ identity correlationId tx) t r) : NotSimulation r := by
  obtain ⟨answer, t', rfl, h'⟩ := Prog.exec_perform.mp h
  cases answer with
  | ok sig =>
    obtain ⟨rfl, -⟩ := exec_auditThen h'
    exact fun reason heq => by cases heq
  | error e =>
    obtain ⟨rfl, -⟩ := exec_auditThen h'
    exact fun reason heq => by cases heq

/-- The courses of the signing path for `platform_admin` with the simulation enabled: it ends without a blockhash, at a
simulation that found a failure, or it goes on to Vault. -/
inductive Course (identity : SpiffeIdentity) (correlationId : String) :
    List CallEvent → Except SignSubmitStage (Signature × Nat) → Prop where
  | undated {dating : List CallEvent} {e : String} : (∀ c ∈ dating, isDating c.1 = true) →
      Course identity correlationId dating (.error (.blockhashRefreshFailed e))
  | rejected {dating : List CallEvent} {tx : Transaction} {e reason : String} {units : Option Nat} {nowMs : Nat}
      {answer : Except String Int} : (∀ c ∈ dating, isDating c.1 = true) →
      Course identity correlationId (dating ++ ⟨.simulateTransaction tx, .ok ⟨some e, units⟩⟩ ::
        [⟨.now, nowMs⟩, ⟨.auditAppend (.new correlationId identity.uri "sign_and_submit" (.rejected "simulation" reason)
          (UInt64.ofNat nowMs)), answer⟩]) (.error (.simulationRejected reason))
  | passed {dating rest : List CallEvent} {tx : Transaction} {answer : Except String SimulationResult}
      {r : Except SignSubmitStage (Signature × Nat)} : (∀ c ∈ dating, isDating c.1 = true) →
      (∀ e units, answer ≠ .ok ⟨some e, units⟩) → (∀ c ∈ rest, isSimulate c.1 = false) → (∃ c ∈ rest, c.1.isEffect = true) →
      NotSimulation r → Course identity correlationId (dating ++ ⟨.simulateTransaction tx, answer⟩ :: rest) r

/-- What follows a simulation that did not fail. -/
theorem exec_afterSimulation {t : List CallEvent} {r : Except SignSubmitStage (Signature × Nat)}
    (h : Prog.Exec (vaultSign Γ tx >>= fun
      | .error stage => return .error stage
      | .ok tx => sendSigned Γ identity correlationId tx) t r) :
    (∀ c ∈ t, isSimulate c.1 = false) ∧ (∃ c ∈ t, c.1.isEffect = true) ∧ NotSimulation r := by
  obtain ⟨t₁, t₂, signed, rfl, hsign, h'⟩ := Prog.exec_bind.mp h
  have hunsimulated := (Prog.only_steps unsimulated_vaultSign hsign).1
  obtain ⟨⟨c, hc, heffect⟩, hnot⟩ := exec_signing hsign
  cases signed with
  | error stage =>
    obtain ⟨rfl, rfl⟩ := Prog.exec_ret.mp h'
    refine ⟨?_, ⟨c, List.mem_append_left _ hc, heffect⟩, fun reason heq => hnot reason ?_⟩
    · rw [List.append_nil]
      exact hunsimulated
    · cases heq
      rfl
  | ok tx' =>
    refine ⟨List.forall_mem_append.mpr ⟨hunsimulated, (Prog.only_steps unsimulated_sendSigned h').1⟩,
      ⟨c, List.mem_append_left _ hc, heffect⟩, exec_sending h'⟩

/-- The signing path takes one of these courses. -/
theorem course_of_exec {serializedTx : Bytes} {t : List CallEvent} {r : Except SignSubmitStage (Signature × Nat)}
    (hdecoded : Γ.deserialize serializedTx = .ok tx) (hallowed : Γ.validateTransaction identity tx = .ok ())
    (henabled : Γ.presignDisabled = false)
    (h : Prog.Exec (signAndSubmit Γ serializedTx platformAdmin identity correlationId) t r) :
    Course identity correlationId t r := by
  unfold signAndSubmit at h
  rw [hdecoded] at h
  simp only [hallowed, if_true] at h
  obtain ⟨t₀, t₃, signed, rfl, hadmin, hsend⟩ := Prog.exec_bind.mp h
  obtain ⟨dating, t₁, selected, rfl, hselect, hadmin'⟩ := Prog.exec_bind.mp hadmin
  obtain ⟨hdating, hselected⟩ := Prog.only_steps only_selectBlockhash hselect
  cases selected with
  | error stage =>
    obtain ⟨rfl, rfl⟩ := Prog.exec_ret.mp hadmin'
    obtain ⟨rfl, rfl⟩ := Prog.exec_ret.mp hsend
    obtain ⟨e, rfl⟩ := hselected stage rfl
    rw [List.append_nil, List.append_nil]
    exact .undated hdating
  | ok tx' =>
    obtain ⟨t₂, t₄, simulated, rfl, hsimulate, hsign⟩ := Prog.exec_bind.mp hadmin'
    unfold presignSimulate at hsimulate
    simp only [henabled, Bool.false_eq_true, if_false] at hsimulate
    obtain ⟨answer, t₅, rfl, hsimulate'⟩ := Prog.exec_perform.mp hsimulate
    have hpassed : (∀ e units, answer ≠ .ok ⟨some e, units⟩) → t₅ = [] → simulated = .ok () →
        Course identity correlationId (dating ++ (⟨.simulateTransaction tx', answer⟩ :: t₅ ++ t₄) ++ t₃) r := by
      rintro hne rfl rfl
      obtain ⟨hunsimulated, heffect, hnot⟩ := exec_afterSimulation (Prog.exec_bind.mpr ⟨t₄, t₃, signed, rfl, hsign, hsend⟩)
      rw [List.append_assoc, List.cons_append, List.nil_append, List.cons_append]
      exact .passed hdating hne hunsimulated heffect hnot
    rcases answer with e | ⟨_ | e, units⟩
    · obtain ⟨rfl, rfl⟩ := Prog.exec_ret.mp hsimulate'
      exact hpassed (fun e units heq => by cases heq) rfl rfl
    · obtain ⟨rfl, rfl⟩ := Prog.exec_ret.mp hsimulate'
      exact hpassed (fun e units heq => by cases heq) rfl rfl
    · obtain ⟨nowMs, t₆, rfl, haudit⟩ := Prog.exec_call.mp hsimulate'
      obtain ⟨appended, t₇, rfl, hret⟩ := Prog.exec_call.mp haudit
      obtain ⟨rfl, rfl⟩ := Prog.exec_ret.mp hret
      obtain ⟨rfl, rfl⟩ := Prog.exec_ret.mp hsign
      obtain ⟨rfl, rfl⟩ := Prog.exec_ret.mp hsend
      rw [List.append_nil, List.append_nil]
      exact .rejected hdating

/-! ## The providers -/

/-- A call of the signing path as the provider passes it on. -/
def passedOn (e : CallEvent) : ProviderEvent := ⟨.other e.1, e.2⟩

/-- A provider passes on every call but the simulation. -/
theorem serves_unsimulated {kind : ProviderKind} {us : List CallEvent} {ts : List ProviderEvent}
    (h : Prog.Serves (kind.serve P) us ts) (hus : ∀ c ∈ us, isSimulate c.1 = false) : ts = us.map passedOn := by
  induction h with
  | nil => rfl
  | @cons c r t us ts he _ ih =>
    obtain ⟨hc, hrest⟩ := List.forall_mem_cons.mp hus
    have hserve : kind.serve P c = Prog.perform (ProviderCall.other c) := by
      cases c <;> first | rfl | cases hc
    rw [hserve] at he
    obtain ⟨r', t', rfl, hret⟩ := Prog.exec_call.mp he
    obtain ⟨rfl, rfl⟩ := Prog.exec_ret.mp hret
    rw [ih hrest]
    rfl

/-- A call of a provider's own: none of the signing path's, and no simulation that failed. -/
def Own (e : ProviderEvent) : Prop := e.1.isEffect = false ∧ e.1.appended = none

theorem own_ensureAccount {pubkey : Pubkey} {t : List ProviderEvent} {r : Except String Unit}
    (h : Prog.Exec (ensureAccount P pubkey) t r) : ∀ e ∈ t, Own e ∧ isTxFailure e = false := by
  have honly : (ensureAccount P pubkey).Only (fun c => c.isEffect = false ∧ c.appended = none ∧
      ∀ a, isTxFailure ⟨c, a⟩ = false) (fun _ => True) := by
    refine Prog.only_perform.mpr ⟨⟨rfl, rfl, fun _ => rfl⟩, fun found => ?_⟩
    cases found with
    | true => trivial
    | false =>
      show (if P.cloning = true then _ else _ : ProviderProg _).Only _ _
      split
      · refine Prog.only_perform.mpr ⟨⟨rfl, rfl, fun _ => rfl⟩, fun answer => ?_⟩
        cases answer with
        | error e => trivial
        | ok account => exact ⟨⟨rfl, rfl, fun _ => rfl⟩, fun _ => trivial⟩
      · trivial
  intro e he
  obtain ⟨heffect, happended, hfailure⟩ := (Prog.only_steps honly h).1 e he
  exact ⟨⟨heffect, happended⟩, hfailure e.2⟩

theorem own_ensureAccounts {keys : List Pubkey} {t : List ProviderEvent} {r : Except String Unit}
    (h : Prog.Exec (ensureAccounts P keys) t r) : ∀ e ∈ t, Own e ∧ isTxFailure e = false := by
  induction keys generalizing t with
  | nil =>
    obtain ⟨rfl, -⟩ := Prog.exec_ret.mp h
    intro e he
    cases he
  | cons key keys ih =>
    obtain ⟨t₁, t₂, ensured, rfl, hfirst, h'⟩ := Prog.exec_bind.mp h
    cases ensured with
    | error e =>
      obtain ⟨rfl, -⟩ := Prog.exec_ret.mp h'
      rw [List.append_nil]
      exact own_ensureAccount hfirst
    | ok u => exact List.forall_mem_append.mpr ⟨own_ensureAccount hfirst, ih h'⟩

/-- What a simulation of Surfpool tells: never a failure of the transaction, though LiteSVM may have found one. -/
theorem exec_surfpool {t : List ProviderEvent} {r : Except String SimulationResult}
    (h : Prog.Exec (surfpoolSimulateTransaction P tx) t r) :
    (∀ e units, r ≠ .ok ⟨some e, units⟩) ∧ ∀ e ∈ t, Own e ∧ isTxFailure e = isSvmFailure e := by
  have hcloned : ∀ e : ProviderEvent, Own e ∧ isTxFailure e = false → Own e ∧ isTxFailure e = isSvmFailure e := by
    rintro ⟨c, a⟩ ⟨hown, hfailure⟩
    refine ⟨hown, ?_⟩
    cases c with
    | svmSimulate v => cases a <;> rfl
    | _ => exact hfailure
  obtain ⟨t₁, t₂, ensured, rfl, hensure, h'⟩ := Prog.exec_bind.mp h
  have hown := fun e he => hcloned e (own_ensureAccounts hensure e he)
  cases ensured with
  | error e =>
    obtain ⟨rfl, rfl⟩ := Prog.exec_ret.mp h'
    rw [List.append_nil]
    exact ⟨fun e units heq => (by cases heq), hown⟩
  | ok u =>
    simp only at h'
    split at h'
    · obtain ⟨rfl, rfl⟩ := Prog.exec_ret.mp h'
      rw [List.append_nil]
      exact ⟨fun e units heq => (by cases heq), hown⟩
    · obtain ⟨answer, t₃, rfl, h''⟩ := Prog.exec_perform.mp h'
      cases answer with
      | error e =>
        obtain ⟨rfl, rfl⟩ := Prog.exec_ret.mp h''
        refine ⟨fun e units heq => (by cases heq), List.forall_mem_append.mpr ⟨hown, fun e he => ?_⟩⟩
        rw [List.mem_singleton.mp he]
        exact ⟨⟨rfl, rfl⟩, rfl⟩
      | ok units =>
        obtain ⟨rfl, rfl⟩ := Prog.exec_ret.mp h''
        refine ⟨fun e units heq => (by cases heq), List.forall_mem_append.mpr ⟨hown, fun e he => ?_⟩⟩
        rw [List.mem_singleton.mp he]
        exact ⟨⟨rfl, rfl⟩, rfl⟩

/-- What a simulation on the RPC node tells is the node's answer. -/
theorem exec_real {t : List ProviderEvent} {r : Except String SimulationResult} (h : Prog.Exec (realSimulateTransaction tx) t r) :
    t = [⟨.rpcSimulate tx, r⟩] := by
  obtain ⟨r', t', rfl, hret⟩ := Prog.exec_call.mp h
  obtain ⟨rfl, rfl⟩ := Prog.exec_ret.mp hret
  rfl

/-! ## The courses on a provider -/

theorem isSimulate_of_dating {c : Call} (h : isDating c = true) : isSimulate c = false := by
  cases c <;> first | rfl | cases h

/-- The calls a provider passes on hold no simulation. -/
theorem not_failure_map (us : List CallEvent) :
    (∀ e ∈ us.map passedOn, isTxFailure e = false) ∧ ∀ e ∈ us.map passedOn, isSvmFailure e = false := by
  constructor <;>
  · intro e he
    obtain ⟨u, -, rfl⟩ := List.mem_map.mp he
    rfl

theorem same_failures_map (us : List CallEvent) : ∀ e ∈ us.map passedOn, isTxFailure e = isSvmFailure e := by
  intro e he
  rw [(not_failure_map us).1 e he, (not_failure_map us).2 e he]

/-- A simulation that does not tell of a failure of the transaction: if there was one, LiteSVM found it. -/
theorem same_failures_simulate {kind : ProviderKind} {t : List ProviderEvent} {r : Except String SimulationResult}
    (h : Prog.Exec (kind.serve P (.simulateTransaction tx)) t r) (hne : ∀ e units, r ≠ .ok ⟨some e, units⟩) :
    ∀ e ∈ t, isTxFailure e = isSvmFailure e := by
  cases kind with
  | surfpool => exact fun e he => ((exec_surfpool h).2 e he).2
  | real =>
    rw [exec_real h]
    refine List.forall_mem_cons.mpr ⟨?_, fun e he => by cases he⟩
    rcases r with e | ⟨_ | e, units⟩
    · rfl
    · rfl
    · exact (hne e units rfl).elim

/-- Filling in the blockhash has no effect and appends nothing. -/
theorem own_dating {us : List CallEvent} (h : ∀ c ∈ us, isDating c.1 = true) : ∀ e ∈ us.map passedOn, Own e := by
  intro e he
  obtain ⟨⟨c, a⟩, hu, rfl⟩ := List.mem_map.mp he
  have hc := h _ hu
  cases c <;> first | exact ⟨rfl, rfl⟩ | cases hc

/-- A run that does not end with a rejection of the simulation: it is right if no simulation failed. -/
theorem decides_iff_of_not {t : List ProviderEvent} {r : Except SignSubmitStage (Signature × Nat)} (hnot : NotSimulation r)
    (hgoes : (∃ e, r = .error (.blockhashRefreshFailed e)) ∨ ∃ e ∈ t, e.1.isEffect = true)
    (hsame : ∀ e ∈ t, isTxFailure e = isSvmFailure e) :
    SimulationDecides identity correlationId t r ↔ ∀ e ∈ t, isSvmFailure e = false := by
  constructor
  · intro h e he
    cases hfailure : isSvmFailure e with
    | false => rfl
    | true =>
      obtain ⟨reason, _, hr, -⟩ := h.rejected ⟨e, he, (hsame e he).trans hfailure⟩
      exact (hnot reason hr).elim
  · intro h
    refine ⟨fun ⟨e, he, hfailure⟩ => ?_, fun _ => ⟨hnot, hgoes⟩⟩
    rw [hsame e he, h e he] at hfailure
    cases hfailure

/-- A run on the RPC node that the simulation rejected. -/
theorem decides_of_rejected {dating : List CallEvent} {e reason : String} {units : Option Nat} {nowMs : Nat}
    {answer : Except String Int} (hdating : ∀ c ∈ dating, isDating c.1 = true) :
    SimulationDecides identity correlationId (dating.map passedOn ++ (⟨.rpcSimulate tx, .ok ⟨some e, units⟩⟩ ::
      List.map passedOn [⟨.now, nowMs⟩, ⟨.auditAppend (.new correlationId identity.uri "sign_and_submit"
        (.rejected "simulation" reason) (UInt64.ofNat nowMs)), answer⟩])) (.error (.simulationRejected reason)) where
  rejected := fun _ => by
    have hown := own_dating hdating
    have hnone : (dating.map passedOn).filterMap (·.1.appended) = [] :=
      List.filterMap_eq_nil_iff.mpr fun e he => (hown e he).2
    refine ⟨reason, UInt64.ofNat nowMs, rfl, ?_, ?_⟩
    · rw [List.filterMap_append, hnone]
      rfl
    · refine List.forall_mem_append.mpr ⟨fun e he => (hown e he).1, ?_⟩
      simp only [List.map_cons, List.map_nil, List.forall_mem_cons]
      exact ⟨rfl, rfl, rfl, fun e he => by cases he⟩
  advisory := fun h => by
    have hfailed := h ⟨.rpcSimulate tx, .ok ⟨some e, units⟩⟩ (List.mem_append_right _ List.mem_cons_self)
    cases hfailed

end SimulationAux

open SimulationAux

/-- On either provider, with the simulation enabled and for a transaction the policy accepts: the simulation decides if and
only if LiteSVM does not report a failure of the transaction. -/
theorem simulation_decides_iff (P : Providers) (kind : ProviderKind) (serializedTx : Bytes) (identity : SpiffeIdentity)
    (correlationId : String) (tx : Transaction) (hdecoded : P.deserialize serializedTx = .ok tx)
    (hallowed : P.validateTransaction identity tx = .ok ()) (henabled : P.presignDisabled = false) (t : List ProviderEvent)
    (r : Except SignSubmitStage (Signature × Nat))
    (h : Prog.Exec (kind.signAndSubmit P serializedTx platformAdmin identity correlationId) t r) :
    SimulationDecides identity correlationId t r ↔ ∀ e ∈ t, isSvmFailure e = false := by
  obtain ⟨us, hus, hserves⟩ := Prog.exec_handle.mp h
  have hcourse := course_of_exec hdecoded hallowed henabled hus
  cases hcourse with
  | undated hdating =>
    have ht := serves_unsimulated hserves fun c hc => isSimulate_of_dating (hdating c hc)
    rw [ht]
    exact decides_iff_of_not (fun reason heq => by cases heq) (Or.inl ⟨_, rfl⟩) (same_failures_map us)
  | @rejected dating tx' e reason units nowMs answer hdating =>
    obtain ⟨t₁, t₂, rfl, h₁, h₂⟩ := Prog.Serves.append_iff.mp hserves
    have ht₁ := serves_unsimulated h₁ fun c hc => isSimulate_of_dating (hdating c hc)
    cases h₂ with
    | @cons _ _ t₃ _ t₄ hsimulate h₄ =>
      have ht₄ := serves_unsimulated h₄ fun c hc => by
        simp only [List.mem_cons, List.not_mem_nil, or_false] at hc
        rcases hc with rfl | rfl <;> rfl
      cases kind with
      | surfpool => exact ((exec_surfpool hsimulate).1 _ _ rfl).elim
      | real =>
        have ht₃ := exec_real hsimulate
        subst ht₁ ht₃ ht₄
        refine iff_of_true (decides_of_rejected hdating) (List.forall_mem_append.mpr ⟨(not_failure_map _).2, ?_⟩)
        exact List.forall_mem_cons.mpr ⟨rfl, (not_failure_map _).2⟩
  | @passed dating rest tx' answer r hdating hne hrest heffect hnot =>
    obtain ⟨t₁, t₂, rfl, h₁, h₂⟩ := Prog.Serves.append_iff.mp hserves
    have ht₁ := serves_unsimulated h₁ fun c hc => isSimulate_of_dating (hdating c hc)
    cases h₂ with
    | @cons _ _ t₃ _ t₄ hsimulate h₄ =>
      have ht₄ := serves_unsimulated h₄ hrest
      obtain ⟨c, hc, heffect⟩ := heffect
      have hasked : ∃ e ∈ t₁ ++ (t₃ ++ t₄), e.1.isEffect = true := by
        refine ⟨passedOn c, List.mem_append_right _ (List.mem_append_right _ ?_), heffect⟩
        rw [ht₄]
        exact List.mem_map_of_mem hc
      refine decides_iff_of_not hnot (Or.inr hasked) ?_
      rw [ht₁, ht₄]
      refine List.forall_mem_append.mpr ⟨same_failures_map _, List.forall_mem_append.mpr ⟨?_, same_failures_map _⟩⟩
      exact same_failures_simulate hsimulate hne

namespace SimulationAux

open SampleAux

/-- The providers of a bridge: Surfpool without a client to clone accounts with. -/
def providers : Providers where
  toCtx := ctx [datedTx]
  serializeVersioned := fun tx => .ok (encodeTransaction { signatures := tx.signatures, message := tx.message })
  deserializeVersioned := fun b => ((ctx [datedTx]).deserialize b).map .ofTransaction
  cloning := false

/-- The answers of an environment in which every simulation finds that the transaction fails. -/
def doomed : (c : ProviderCall) → Option c.Answer
  | .rpcSimulate _ => some (.ok { err := some "InstructionError(0, Custom(1))", unitsConsumed := some 150 })
  | .rpcGetAccount _ => some (.error "AccountNotFound")
  | .svmHasAccount _ => some true
  | .svmSetAccount _ _ => some (.ok ())
  | .svmSimulate _ => some (.error ⟨"FailedTransactionMetadata \x7b err: InstructionError(0, Custom(1)) \x7d"⟩)
  | .other c => answer c

/-- The platform's signature is asked for, on a provider. -/
def doomedRun (kind : ProviderKind) : ProviderProg (Except SignSubmitStage (Signature × Nat)) :=
  kind.signAndSubmit providers (encodeTransaction datedTx) platformAdmin ⟨matcher⟩ "c"

end SimulationAux

open SampleAux in
/-- A transaction that fails on the RPC node is rejected before it is signed. -/
theorem simulation_decides_real : ∃ t r, Prog.Exec (doomedRun .real) t r ∧ (∃ e ∈ t, isTxFailure e = true) ∧
    SimulationDecides ⟨matcher⟩ "c" t r := by
  have hrun : ((doomedRun .real).runWith doomed).any (fun out => out.1.any isTxFailure && out.1.all fun e => !isSvmFailure e) =
      true := by decide +kernel
  obtain ⟨t, r, hexec, htest⟩ := Prog.exists_exec_of_runWith hrun
  obtain ⟨hfailed, hsvm⟩ := (Bool.and_eq_true _ _).mp htest
  have hsvm' : ∀ e ∈ t, isSvmFailure e = false := by simpa using hsvm
  exact ⟨t, r, hexec, List.any_eq_true.mp hfailed,
    (simulation_decides_iff providers .real _ _ _ datedTx rfl rfl rfl t r hexec).mpr hsvm'⟩

open SampleAux in
/-- The simulation does not decide on every provider: a transaction that fails in LiteSVM is signed and submitted. -/
theorem failed_in_litesvm_signed : ¬∀ (P : Providers) (kind : ProviderKind) (serializedTx : Bytes) (identity : SpiffeIdentity)
    (correlationId : String) (tx : Transaction) (t : List ProviderEvent) (r : Except SignSubmitStage (Signature × Nat)),
    P.deserialize serializedTx = .ok tx → P.validateTransaction identity tx = .ok () → P.presignDisabled = false →
    Prog.Exec (kind.signAndSubmit P serializedTx platformAdmin identity correlationId) t r →
      SimulationDecides identity correlationId t r := by
  intro hall
  have hrun : ((doomedRun .surfpool).runWith doomed).any (fun out => out.1.any isTxFailure && out.1.any fun e => e.1.isEffect) =
      true := by decide +kernel
  obtain ⟨t, r, hexec, htest⟩ := Prog.exists_exec_of_runWith hrun
  obtain ⟨hfailed, heffect⟩ := (Bool.and_eq_true _ _).mp htest
  obtain ⟨_, _, -, -, hnone⟩ :=
    (hall providers .surfpool _ _ _ datedTx t r rfl rfl rfl hexec).rejected (List.any_eq_true.mp hfailed)
  obtain ⟨e, he, hsigned⟩ := List.any_eq_true.mp heffect
  rw [hnone e he] at hsigned
  cases hsigned

end ChainBridge
