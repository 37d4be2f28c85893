import ChainBridge.Lib.Erase
import ChainBridge.Lemmas.Claims
import ChainBridge.Lemmas.Handlers
import ChainBridge.Lemmas.Sample

/-!
# A refused message influences no other

A message that its handler refuses makes calls of the gates only: it reads the clock and the cache, audits, reports a failure and
acknowledges. None of them changes the session, so a run without its refused messages is a run, in which every other message
makes the same calls with the same answers, from the same states.
-/

namespace ChainBridge

open Interleave

/-- The clock readings among these calls, in order. -/
def readings (calls : List CallEvent) : List Nat :=
  calls.filterMap fun
    | ⟨.now, nowMs⟩ => some nowMs
    | _ => none

/-- The decision on the envelope is an error at the handler's first reading. -/
def rejectedAt (decision : Nat → Except String Unit) (calls : List CallEvent) : Bool :=
  (readings calls)[0]?.any fun authMs => !(decision authMs).isOk

/-- The envelope is too old at the reading of the handler that follows its lookup. -/
def staleAt (createdAtMs : Nat) (calls : List CallEvent) : Bool :=
  (readings calls)[1]?.any fun nowMs => decide (nowMs - createdAtMs > stalenessMs)

/-- The transaction of a submit does not decode, or the policy denies it. -/
def deniedByPolicy (Γ : Ctx) (envelope : TxSubmitMessage) : Bool :=
  match Γ.deserialize envelope.serializedTx with
  | .error _ => true
  | .ok tx => !(Γ.validateTransaction ⟨envelope.serviceIdentity⟩ tx).isOk

/-- A message is statically refused: its payload does not parse, its envelope is rejected, its role is not permitted, it is too
old, or it is a submit whose transaction is denied or whose key id does not sign. -/
def refused (Γ : Ctx) (calls : List CallEvent) : Delivery → Bool
  | .submit (.ok envelope) =>
    rejectedAt (envelopeDecision Γ envelope.auth envelope.serviceIdentity (Γ.canonicalSubmitBytes envelope) false) calls ||
    decide (Γ.serviceRole ⟨envelope.serviceIdentity⟩ = .unknown) || staleAt envelope.createdAtMs calls ||
    deniedByPolicy Γ envelope || decide (envelope.keyId ≠ platformAdmin ∧ envelope.keyId ≠ "")
  | .cancel (.ok envelope) =>
    rejectedAt (envelopeDecision Γ envelope.auth envelope.serviceIdentity (Γ.canonicalCancelBytes envelope) false) calls ||
    decide (Γ.serviceRole ⟨envelope.serviceIdentity⟩ = .unknown) || staleAt envelope.createdAtMs calls
  | .mint (.ok envelope) =>
    rejectedAt (envelopeDecision Γ envelope.auth envelope.serviceIdentity (Γ.canonicalMintBytes envelope) true) calls ||
    !(Γ.requireAny (Γ.serviceRole ⟨envelope.serviceIdentity⟩) [.aggregatorBridge, .meterService]).isOk ||
    staleAt envelope.createdAtMs calls
  | .status (.ok envelope) =>
    rejectedAt (envelopeDecision Γ envelope.auth envelope.serviceIdentity (Γ.canonicalStatusBytes envelope) false) calls ||
    !(Γ.requireAny (Γ.serviceRole ⟨envelope.serviceIdentity⟩) [.meterService, .admin]).isOk
  | .unknown _ => false
  | _ => true

/-- The messages of a history that are statically refused. -/
def refusedIn (Γ : Ctx) (log : History) (t : Nat) : Bool := (messageOf t log).any (refused Γ (traceOf t log))

/-- A call to Vault or a submission, with its handler. -/
def effectOf : BridgeLabel → Option (Nat × CallEvent)
  | .call t ⟨.getPublicKey keyName, a⟩ => some (t, ⟨.getPublicKey keyName, a⟩)
  | .call t ⟨.signMessage keyName message, a⟩ => some (t, ⟨.signMessage keyName message, a⟩)
  | .call t ⟨.sendTransaction tx, a⟩ => some (t, ⟨.sendTransaction tx, a⟩)
  | _ => none

/-- The calls to Vault and the submissions of a history, in order. -/
def effectsOf (log : History) : List (Nat × CallEvent) := log.filterMap effectOf

namespace ErasureAux

open HandlersAux ClaimsAux

variable {Γ : Ctx} {calls : List CallEvent} {q : Handler Unit}

/-- A call of the gates leaves the session as it is. -/
theorem inert_of_gate {c : Call} (h : c.isGate = true) : Inert (bridge Γ) c := by
  intro s a
  cases c <;> first | rfl | cases h

/-! ## A refused message stays in the gates -/

theorem not_rejectedAt {decision : Nat → Except String Unit} {authMs : Nat} {t : List CallEvent}
    (h : decision authMs = .ok ()) : rejectedAt decision (⟨.now, authMs⟩ :: t) = false := by
  simp [rejectedAt, readings, h, Except.isOk, Except.toBool]

theorem not_staleAt {createdAtMs authMs nowMs : Nat} {key : String} {found : Bool} {t : List CallEvent}
    (h : nowMs - createdAtMs ≤ stalenessMs) :
    staleAt createdAtMs (⟨.now, authMs⟩ :: ⟨.cacheContains key, found⟩ :: ⟨.now, nowMs⟩ :: t) = false := by
  simp [staleAt, readings, h]

/-- A message that passes the gates is not refused there. -/
theorem Gates.not_refused {g : Gates} {authMs nowMs : Nat} (h : g.Passes authMs nowMs) (t : List CallEvent) :
    rejectedAt g.decision (g.passed authMs nowMs ++ t) = false ∧ staleAt g.createdAtMs (g.passed authMs nowMs ++ t) = false :=
  ⟨not_rejectedAt h.authenticated, not_staleAt h.recent⟩

theorem role_of_knownRole {claimedIdentity : String} (h : knownRole Γ claimedIdentity = .ok ()) :
    Γ.serviceRole ⟨claimedIdentity⟩ ≠ .unknown := by
  intro hunknown
  simp [knownRole, hunknown] at h

theorem isOk_eq {x : Except String Unit} (h : x = .ok ()) : (!x.isOk) = false := by
  rw [h]
  rfl

theorem gates_of_refused_submit {payload : Except String TxSubmitMessage}
    (h : Prog.Steps (handleSubmit Γ payload) calls q) (hr : refused Γ calls (.submit payload) = true) :
    ∀ e ∈ calls, e.1.isGate = true := by
  rcases steps_handleSubmit h with hgates | ⟨envelope, authMs, nowMs, tx, a, t', rfl, hpasses, hchecks, rfl, -⟩
  · exact hgates
  obtain ⟨hauth, hstale⟩ := Gates.not_refused hpasses
    (⟨.claim (dedupKey .submit envelope.idempotencyKey) envelope.correlationId nowMs, a⟩ :: t')
  have hrole := decide_eq_false (role_of_knownRole hpasses.permitted)
  have hdenied : deniedByPolicy Γ envelope = false := by
    rw [deniedByPolicy, hchecks.decoded]
    exact isOk_eq hchecks.allowed
  have hkey : decide (envelope.keyId ≠ platformAdmin ∧ envelope.keyId ≠ "") = false :=
    decide_eq_false fun hne => hchecks.signer.elim hne.1 hne.2
  have hpassed : refused Γ (claimTrace (dedupKey .submit envelope.idempotencyKey) envelope.correlationId authMs nowMs a ++ t')
      (.submit (.ok envelope)) = false :=
    Bool.or_eq_false_iff.mpr ⟨Bool.or_eq_false_iff.mpr ⟨Bool.or_eq_false_iff.mpr ⟨Bool.or_eq_false_iff.mpr
      ⟨hauth, hrole⟩, hstale⟩, hdenied⟩, hkey⟩
  rw [hpassed] at hr
  cases hr

theorem gates_of_refused_cancel {payload : Except String TxCancelMessage}
    (h : Prog.Steps (handleCancel Γ payload) calls q) (hr : refused Γ calls (.cancel payload) = true) :
    ∀ e ∈ calls, e.1.isGate = true := by
  rcases steps_handleCancel h with hgates | ⟨envelope, authMs, nowMs, t', rfl, hpasses, rfl, -⟩
  · exact hgates
  obtain ⟨hauth, hstale⟩ := Gates.not_refused hpasses t'
  have hrole := decide_eq_false (role_of_knownRole hpasses.permitted)
  have hpassed : refused Γ ((cancelGates Γ envelope).passed authMs nowMs ++ t') (.cancel (.ok envelope)) = false :=
    Bool.or_eq_false_iff.mpr ⟨Bool.or_eq_false_iff.mpr ⟨hauth, hrole⟩, hstale⟩
  rw [hpassed] at hr
  cases hr

theorem gates_of_refused_mint {payload : Except String MintEnergyMessage}
    (h : Prog.Steps (handleMint Γ payload) calls q) (hr : refused Γ calls (.mint payload) = true) :
    ∀ e ∈ calls, e.1.isGate = true := by
  rcases steps_handleMint h with hgates | ⟨envelope, authMs, nowMs, a, t', rfl, hpasses, rfl, -⟩
  · exact hgates
  obtain ⟨hauth, hstale⟩ := Gates.not_refused hpasses
    (⟨.claim (dedupKey .mint envelope.idempotencyKey) envelope.correlationId nowMs, a⟩ :: t')
  have hpassed : refused Γ (claimTrace (dedupKey .mint envelope.idempotencyKey) envelope.correlationId authMs nowMs a ++ t')
      (.mint (.ok envelope)) = false :=
    Bool.or_eq_false_iff.mpr ⟨Bool.or_eq_false_iff.mpr ⟨hauth, isOk_eq hpasses.permitted⟩, hstale⟩
  rw [hpassed] at hr
  cases hr

theorem gates_of_refused_status {payload : Except String TxStatusMessage}
    (h : Prog.Steps (handleStatus Γ payload) calls q) (hr : refused Γ calls (.status payload) = true) :
    ∀ e ∈ calls, e.1.isGate = true := by
  cases payload with
  | error e => exact (Prog.only_steps (gate_ack .term) h).1
  | ok envelope =>
    rcases Prog.steps_perform.mp h with ⟨rfl, -⟩ | ⟨authMs, t', rfl, h'⟩
    · exact gate_nil
    cases hauth : envelopeDecision Γ envelope.auth envelope.serviceIdentity (Γ.canonicalStatusBytes envelope) false authMs with
    | error reason =>
      rw [hauth] at h'
      exact gate_cons rfl (Prog.only_steps (gate_refuse rfl ..) h').1
    | ok u =>
      rw [hauth] at h'
      simp only at h'
      split at h'
      · exact gate_cons rfl (Prog.only_steps (gate_refuse rfl ..) h').1
      rename_i hrole
      have hpassed : refused Γ (⟨.now, authMs⟩ :: t') (.status (.ok envelope)) = false :=
        Bool.or_eq_false_iff.mpr ⟨not_rejectedAt hauth, isOk_eq hrole⟩
      rw [hpassed] at hr
      cases hr

/-- A refused message makes calls of the gates only. -/
theorem gates_of_refused {d : Delivery} (h : Prog.Steps (dispatch Γ d) calls q) (hr : refused Γ calls d = true) :
    ∀ e ∈ calls, e.1.isGate = true := by
  cases d with
  | submit payload => exact gates_of_refused_submit h hr
  | cancel payload => exact gates_of_refused_cancel h hr
  | mint payload => exact gates_of_refused_mint h hr
  | status payload => exact gates_of_refused_status h hr
  | unknown subject => cases hr

/-- A message that is refused in a run has made calls of the gates only. -/
theorem gate_of_refusedIn {C : Session → History → BridgeLabel → Prop} {w : Session} {p : BridgePool}
    (h : Pool.Reach (bridge Γ) C (Pool.init w) p) {t : Nat} {e : CallEvent} (he : .call t e ∈ p.log)
    (hr : refusedIn Γ p.log t = true) : e.1.isGate = true := by
  obtain ⟨m, q, hdelivered, hsteps⟩ := h.steps he
  obtain ⟨d, hd, hrefused⟩ := (Option.any_eq_true _ _).mp hr
  have hdm : d = m := (hdelivered d).mp (mem_of_messageOf hd)
  subst hdm
  exact gates_of_refused hsteps hrefused e (Pool.mem_traceOf.mpr he)

theorem effectOf_of_gate {t : Nat} {e : CallEvent} (h : e.1.isGate = true) : effectOf (.call t e) = none := by
  obtain ⟨c, a⟩ := e
  cases c <;> first | rfl | cases h

end ErasureAux

open ErasureAux in
/-- A run without its refused messages is a run. Every step that is left is taken from the same session and leads to the same
session, the calls to Vault and the submissions are the same in the same order, and every other message makes the same calls with
the same answers, its replies among them. -/
theorem refused_messages_erased {Γ : Ctx} {w : Session} {steps : List (BridgeLabel × BridgePool)} {p : BridgePool}
    (h : Pool.Run (bridge Γ) (Pool.init w) steps p) :
    Pool.Run (bridge Γ) (Pool.init w) (Pool.eraseSteps (refusedIn Γ p.log) steps) (p.erase (refusedIn Γ p.log)) ∧
    effectsOf (p.erase (refusedIn Γ p.log)).log = effectsOf p.log ∧
    ∀ t, refusedIn Γ p.log t = false → traceOf t (p.erase (refusedIn Γ p.log)).log = traceOf t p.log := by
  have hgate : ∀ t e, .call t e ∈ p.log → refusedIn Γ p.log t = true → e.1.isGate = true :=
    fun t e he ht => gate_of_refusedIn h.reach he ht
  refine ⟨?_, Pool.filterMap_erase fun l hl hgone => ?_, fun t ht => Pool.traceOf_erase ht p.log⟩
  · have herased := h.erase fun t e he ht => inert_of_gate (hgate t e he ht)
    rwa [Pool.erase_init] at herased
  · cases l with
    | deliver t m => rfl
    | env m => cases hgone
    | call t e => exact effectOf_of_gate (hgate t e hl (by simpa [Label.kept] using hgone))

namespace ErasureAux

open SampleAux

/-- A submit under the ids of another one, from a service that is not known. -/
def forgedSubmit : TxSubmitMessage := { submitOf datedTx "c" "k" with serviceIdentity := "spiffe://gridtokenx.th/prod/guest" }

/-- The forged submit runs around the other one. -/
def forgedScript : Script :=
  [.deliver 1 (.submit (.ok forgedSubmit))] ++ calls 1 2 ++ [.deliver 0 (.submit (.ok (submitOf datedTx "c" "k")))] ++
    calls 0 13 ++ calls 1 3

end ErasureAux

open ErasureAux SampleAux in
/-- The submit of a service that is not known can be deleted from a run in which it uses the ids of another one: the other one
signs and submits as before. -/
theorem forged_submit_erased : ∃ steps p, Pool.Run (bridge (ctx [datedTx])) (Pool.init (.fresh 1000 none)) steps p ∧
    refusedIn (ctx [datedTx]) p.log 1 = true ∧ refusedIn (ctx [datedTx]) p.log 0 = false ∧ effectsOf p.log ≠ [] ∧
    ∃ steps' p', Pool.Run (bridge (ctx [datedTx])) (Pool.init (.fresh 1000 none)) steps' p' ∧ p'.world = p.world ∧
      effectsOf p'.log = effectsOf p.log ∧ traceOf 0 p'.log = traceOf 0 p.log := by
  have hrun : ((Pool.init (.fresh 1000 none) : BridgePool).exec (bridge (ctx [datedTx])) (fun _ _ _ => true) forgedScript).any
      (fun p => refusedIn (ctx [datedTx]) p.log 1 && (!refusedIn (ctx [datedTx]) p.log 0 && !(effectsOf p.log).isEmpty)) =
        true := by
    decide +kernel
  obtain ⟨p, hp, htest⟩ := Pool.exists_reach_of_exec (C := fun _ _ _ => True) (fun _ _ _ _ => trivial) hrun
  simp only [Bool.and_eq_true, Bool.not_eq_true', List.isEmpty_eq_false_iff] at htest
  obtain ⟨hforged, hkept, heffects⟩ := htest
  obtain ⟨steps, hsteps⟩ := hp.run
  obtain ⟨herased, heq, htrace⟩ := refused_messages_erased hsteps
  exact ⟨steps, p, hsteps, hforged, hkept, heffects, _, _, herased, rfl, heq, htrace 0 hkept⟩

end ChainBridge
