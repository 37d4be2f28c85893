import ChainBridge.Theorems.Decisions

/-!
# Which failures a submit retries

The retry loop of `handle_submit` runs the signing path once and again after each of three delays while it fails, whatever the
failure. The checks before the loop keep the failures out that no retry can change, but for one: a transaction that the simulation
rejects.
-/

namespace ChainBridge

open Interleave

/-- The stages that a retry may change: the requests to the cluster and to Vault. -/
def SignSubmitStage.isTransient : SignSubmitStage → Bool
  | .blockhashRefreshFailed _ => true
  | .vaultSigningFailed _ => true
  | .submissionFailed _ => true
  | _ => false

/-- An execution of the signing path: its calls and its outcome. -/
structure Attempt where
  calls : List CallEvent
  outcome : Except SignSubmitStage (Signature × Nat)

/-- The signing path of a submit. -/
def attemptOf (Γ : Ctx) (envelope : TxSubmitMessage) : Handler (Except SignSubmitStage (Signature × Nat)) :=
  signAndSubmit Γ envelope.serializedTx envelope.keyId ⟨envelope.serviceIdentity⟩ envelope.correlationId

/-- Offered a sequence of attempts, the loop makes the first `n` of them, and returns the outcome of the last. -/
structure LoopRun (Γ : Ctx) (envelope : TxSubmitMessage) (attempt : Nat → Attempt) (n : Nat) : Prop where
  pos : 0 < n
  exec : Prog.Exec (submitWithRetry Γ envelope) ((List.range n).flatMap fun k => (attempt k).calls) (attempt (n - 1)).outcome

/-- At most three attempts, and another one only after a transient failure. -/
structure RetryDisciplined (attempt : Nat → Attempt) (n : Nat) : Prop where
  atMost : n ≤ 3
  transient : ∀ k, k + 1 < n → ∃ stage, (attempt k).outcome = .error stage ∧ stage.isTransient = true

/-- One of the first three attempts succeeds, and none before it is rejected by the simulation. -/
def PromptSuccess (attempt : Nat → Attempt) : Prop :=
  ∃ k < 3, (∃ out, (attempt k).outcome = .ok out) ∧ ∀ j < k, ∀ reason, (attempt j).outcome ≠ .error (.simulationRejected reason)

namespace RetryDisciplineAux

open HandlersAux DecisionsAux

variable {Γ : Ctx} {envelope : TxSubmitMessage} {tx : Transaction}

/-! ## One attempt -/

/-- A failure that the checks before the loop do not exclude. -/
def LateFailure {α : Type} (r : Except SignSubmitStage α) : Prop :=
  ∀ stage, r = .error stage → stage.isTransient = true ∨ ∃ reason, stage = .simulationRejected reason

theorem lateFailure_ok {α : Type} (a : α) : LateFailure (.ok a) := fun stage h => by cases h

theorem lateFailure_error {α : Type} {stage : SignSubmitStage}
    (h : stage.isTransient = true ∨ ∃ reason, stage = .simulationRejected reason) : LateFailure (.error stage : Except _ α) := by
  intro stage' heq
  cases heq
  exact h

/-- What a part returns, whatever its calls. -/
abbrev Returns {α : Type} (p : Handler α) (R : α → Prop) : Prop := p.Only (fun _ => True) R

theorem returns_any {α : Type} (p : Handler α) : Returns p (fun _ => True) := by
  induction p with
  | ret a => trivial
  | call i k ih => exact ⟨trivial, ih⟩

theorem returns_selectBlockhash : Returns (selectBlockhash tx) LateFailure := by
  unfold selectBlockhash
  split
  · refine ⟨trivial, fun cached => ?_⟩
    cases cached with
    | some entry => exact lateFailure_ok _
    | none =>
      refine ⟨trivial, fun answer => ?_⟩
      cases answer with
      | ok entry => exact lateFailure_ok _
      | error e => exact lateFailure_error (Or.inl rfl)
  · exact lateFailure_ok _

theorem returns_presignSimulate (identity : SpiffeIdentity) (correlationId : String) :
    Returns (presignSimulate Γ identity correlationId tx) LateFailure := by
  unfold presignSimulate
  split
  · exact lateFailure_ok _
  · refine ⟨trivial, fun answer => ?_⟩
    rcases answer with e | ⟨_ | e, units⟩
    · exact lateFailure_ok _
    · exact lateFailure_ok _
    · show Returns (auditSignRejection _ _ _ _ >>= _ : Handler _) _
      exact Prog.only_bind (returns_any _) fun _ _ => lateFailure_error (Or.inr ⟨_, rfl⟩)

theorem returns_vaultSign : Returns (vaultSign Γ tx) LateFailure := by
  refine Prog.only_bind (returns_any _) fun _ _ => Prog.only_perform.mpr ⟨trivial, fun answer => ?_⟩
  cases answer with
  | error e => exact lateFailure_error (Or.inl rfl)
  | ok sig => exact Prog.only_bind (returns_any _) fun _ _ => lateFailure_ok _

theorem returns_sendSigned (identity : SpiffeIdentity) (correlationId : String) :
    Returns (sendSigned Γ identity correlationId tx) LateFailure := by
  refine Prog.only_perform.mpr ⟨trivial, fun answer => ?_⟩
  cases answer with
  | ok sig => exact Prog.only_bind (returns_any _) fun _ _ => lateFailure_ok _
  | error e => exact Prog.only_bind (returns_any _) fun _ _ => lateFailure_error (Or.inl rfl)

theorem LateFailure.cast {α β : Type} {stage : SignSubmitStage} (h : LateFailure (.error stage : Except _ α)) :
    LateFailure (.error stage : Except _ β) :=
  lateFailure_error (h stage rfl)

theorem returns_signPlatformAdmin (identity : SpiffeIdentity) (correlationId : String) :
    Returns (signPlatformAdmin Γ identity correlationId tx) LateFailure := by
  refine Prog.only_bind returns_selectBlockhash fun selected hselected => ?_
  cases selected with
  | error stage => exact hselected
  | ok tx' =>
    refine Prog.only_bind (returns_presignSimulate identity correlationId) fun simulated hsimulated => ?_
    cases simulated with
    | error stage => exact hsimulated.cast
    | ok u => exact returns_vaultSign

theorem attemptOf_eq (h : SubmitChecks Γ envelope tx) : attemptOf Γ envelope =
    if envelope.keyId = platformAdmin then
      signPlatformAdmin Γ ⟨envelope.serviceIdentity⟩ envelope.correlationId tx >>= fun
        | .error stage => return .error stage
        | .ok tx => sendSigned Γ ⟨envelope.serviceIdentity⟩ envelope.correlationId tx
    else sendSigned Γ ⟨envelope.serviceIdentity⟩ envelope.correlationId tx := by
  simp only [attemptOf, signAndSubmit, h.decoded, h.allowed]
  rcases h.signer with hadmin | hempty
  · refine (if_pos hadmin).trans ?_
    exact (if_pos hadmin).symm
  · have hne : envelope.keyId ≠ platformAdmin := by
      rw [hempty]
      decide
    rw [if_neg hne, if_neg hne, if_neg (not_not_intro hempty)]

/-- An attempt after the checks fails late, if it fails. -/
theorem lateFailure_of_attempt (h : SubmitChecks Γ envelope tx) {t : List CallEvent} {r : Except SignSubmitStage (Signature × Nat)}
    (hexec : Prog.Exec (attemptOf Γ envelope) t r) : LateFailure r := by
  have hreturns : Returns (attemptOf Γ envelope) LateFailure := by
    rw [attemptOf_eq h]
    split
    · refine Prog.only_bind (returns_signPlatformAdmin _ _) fun signed hsigned => ?_
      cases signed with
      | error stage => exact hsigned.cast
      | ok tx' => exact returns_sendSigned _ _
    · exact returns_sendSigned _ _
  exact (Prog.only_steps hreturns hexec).2

/-- An attempt after the checks makes a call: its decision is audited, or something fails. -/
theorem calls_ne_nil (h : SubmitChecks Γ envelope tx) {t : List CallEvent} {r : Except SignSubmitStage (Signature × Nat)}
    (hexec : Prog.Exec (attemptOf Γ envelope) t r) : t ≠ [] := by
  rintro rfl
  rw [attemptOf_eq h] at hexec
  have haudited : DecisionAudited Γ ⟨envelope.serviceIdentity⟩ envelope.correlationId [] r := by
    split at hexec
    · exact (exec_admin hexec).mpr untroubled_nil
    · exact (exec_submission hexec).1
  exact not_audited_of_nil rfl haudited

/-! ## The loop -/

variable {attempt : Nat → Attempt}

/-- The calls of attempts in a row, from one on. -/
def callsFrom (attempt : Nat → Attempt) (k n : Nat) : List CallEvent := (List.range n).flatMap fun j => (attempt (k + j)).calls

theorem callsFrom_succ (k n : Nat) : callsFrom attempt k (n + 1) = (attempt k).calls ++ callsFrom attempt (k + 1) n := by
  simp only [callsFrom, List.range_succ_eq_map, List.flatMap_cons, List.flatMap_map, Nat.add_zero]
  congr 2
  funext j
  rw [Nat.add_right_comm, Nat.add_assoc]

/-- The loop with some delays left, offered the attempts from one on: it makes attempts until one succeeds or the delays are used
up. -/
theorem exists_loop {action : Handler (Except SignSubmitStage (Signature × Nat))}
    (h : ∀ k, Prog.Exec action (attempt k).calls (attempt k).outcome) (delays k : Nat) :
    ∃ n ≤ delays, Prog.Exec (retrySpawn action delays) (callsFrom attempt k (n + 1)) (attempt (k + n)).outcome ∧
      (∀ j < n, ∃ stage, (attempt (k + j)).outcome = .error stage) ∧
      (n < delays → ∃ out, (attempt (k + n)).outcome = .ok out) := by
  induction delays generalizing k with
  | zero =>
    refine ⟨0, Nat.le_refl 0, ?_, fun j hj => absurd hj (Nat.not_lt_zero j), fun hlt => absurd hlt (Nat.lt_irrefl 0)⟩
    have hone : callsFrom attempt k 1 = (attempt k).calls := by rw [callsFrom_succ, callsFrom, List.range_zero, List.flatMap_nil, List.append_nil]
    rw [hone]
    exact h k
  | succ delays ih =>
    cases hout : (attempt k).outcome with
    | ok out =>
      refine ⟨0, Nat.zero_le _, ?_, fun j hj => absurd hj (Nat.not_lt_zero j), fun _ => ⟨out, hout⟩⟩
      rw [callsFrom_succ]
      refine Prog.exec_bind.mpr ⟨_, _, _, rfl, h k, ?_⟩
      show Prog.Exec _ [] (attempt k).outcome
      rw [hout]
      exact .nil _
    | error stage =>
      obtain ⟨n, hn, hexec, hfailed, hlast⟩ := ih (k + 1)
      have hnext : ∀ j, k + (j + 1) = k + 1 + j := fun j => by omega
      refine ⟨n + 1, Nat.succ_le_succ hn, ?_, fun j hj => ?_, fun hlt => ?_⟩
      · rw [callsFrom_succ, hnext n]
        refine Prog.exec_bind.mpr ⟨_, _, _, rfl, h k, ?_⟩
        rw [hout]
        exact hexec
      · cases j with
        | zero => exact ⟨stage, hout⟩
        | succ j =>
          rw [hnext j]
          exact hfailed j (Nat.lt_of_succ_lt_succ hj)
      · rw [hnext n]
        exact hlast (Nat.lt_of_succ_lt_succ hlt)

/-- The attempts that the loop makes of a sequence, as a number. -/
theorem exists_loopRun (hattempt : ∀ k, Prog.Exec (attemptOf Γ envelope) (attempt k).calls (attempt k).outcome) :
    ∃ n ≤ retryDelays, LoopRun Γ envelope attempt (n + 1) ∧ (∀ j < n, ∃ stage, (attempt j).outcome = .error stage) ∧
      (n < retryDelays → ∃ out, (attempt n).outcome = .ok out) := by
  obtain ⟨n, hn, hexec, hfailed, hlast⟩ := exists_loop hattempt retryDelays 0
  simp only [callsFrom, Nat.zero_add] at hexec hfailed hlast
  exact ⟨n, hn, ⟨Nat.succ_pos n, hexec⟩, hfailed, hlast⟩

/-- An execution that returns is not the beginning of another one. -/
theorem eq_of_exec_append {α : Type} {p : Handler α} {t u : List CallEvent} {a b : α} (h : Prog.Exec p t a)
    (h' : Prog.Exec p (t ++ u) b) : u = [] := by
  have hrest : Prog.Steps (.ret a) u (.ret b) := h.append_iff.mp h'
  exact (Prog.steps_ret.mp hrest).1

/-- The loop makes a fixed number of attempts of a sequence. -/
theorem not_lt_of_loopRun (h : SubmitChecks Γ envelope tx)
    (hattempt : ∀ k, Prog.Exec (attemptOf Γ envelope) (attempt k).calls (attempt k).outcome) {n m : Nat}
    (hn : LoopRun Γ envelope attempt n) (hm : LoopRun Γ envelope attempt m) : ¬n < m := by
  intro hlt
  obtain ⟨d, rfl⟩ := Nat.exists_eq_add_of_lt hlt
  have hexec := hm.exec
  rw [Nat.add_assoc, List.range_add, List.flatMap_append] at hexec
  have hnil := eq_of_exec_append hn.exec hexec
  rw [List.range_succ_eq_map] at hnil
  simp only [List.map_cons, List.flatMap_cons, List.append_eq_nil_iff] at hnil
  exact calls_ne_nil h (hattempt _) hnil.1

theorem loopRun_unique (h : SubmitChecks Γ envelope tx)
    (hattempt : ∀ k, Prog.Exec (attemptOf Γ envelope) (attempt k).calls (attempt k).outcome) {n m : Nat}
    (hn : LoopRun Γ envelope attempt n) (hm : LoopRun Γ envelope attempt m) : n = m := by
  have hle := not_lt_of_loopRun h hattempt hn hm
  have hge := not_lt_of_loopRun h hattempt hm hn
  omega

end RetryDisciplineAux

open RetryDisciplineAux

/-- The retry discipline of a submit that passed its checks. Whatever attempts the environment leads to, the loop makes a number of
them; it keeps the discipline exactly when one of the first three attempts succeeds and none before it is rejected by the
simulation. -/
theorem retry_discipline_iff {Γ : Ctx} {envelope : TxSubmitMessage} {tx : Transaction} (h : HandlersAux.SubmitChecks Γ envelope tx)
    {attempt : Nat → Attempt} (hattempt : ∀ k, Prog.Exec (attemptOf Γ envelope) (attempt k).calls (attempt k).outcome) :
    (∃ n, LoopRun Γ envelope attempt n) ∧
    ∀ n, LoopRun Γ envelope attempt n → (RetryDisciplined attempt n ↔ PromptSuccess attempt) := by
  obtain ⟨last, hlast, hrun, hfailed, hstop⟩ := exists_loopRun hattempt
  refine ⟨⟨last + 1, hrun⟩, fun n hn => ?_⟩
  obtain rfl := loopRun_unique h hattempt hn hrun
  constructor
  · rintro ⟨hle, htransient⟩
    refine ⟨last, by omega, hstop (by rw [retryDelays]; omega), fun j hj reason hrejected => ?_⟩
    obtain ⟨stage, hstage, hkind⟩ := htransient j (by omega)
    rw [hrejected] at hstage
    cases hstage
    cases hkind
  · rintro ⟨k, hk, ⟨out, hout⟩, hbefore⟩
    -- the loop stops at the first success
    have hstops : last ≤ k := by
      by_contra hlt
      obtain ⟨stage, hstage⟩ := hfailed k (by omega)
      rw [hout] at hstage
      cases hstage
    refine ⟨by omega, fun j hj => ?_⟩
    obtain ⟨stage, hstage⟩ := hfailed j (by omega)
    refine ⟨stage, hstage, (lateFailure_of_attempt h (hattempt j) stage hstage).resolve_right ?_⟩
    rintro ⟨reason, rfl⟩
    exact hbefore j (by omega) reason hstage

namespace RetryDisciplineAux

open SampleAux

/-- The answers of an environment in which the simulation finds the transaction failing. -/
def failingSimulation : (c : Call) → Option c.Answer
  | .simulateTransaction _ => some (.ok { err := some "InsufficientFundsForFee", unitsConsumed := some 0 })
  | c => answer c

/-- The answers of an environment in which the cluster takes no transaction. -/
def clusterDown : (c : Call) → Option c.Answer
  | .sendTransaction _ => some (.error "503 Service Unavailable")
  | c => answer c

/-- The signing path of a submit that passes its checks. -/
def sampleAttempt : Handler (Except SignSubmitStage (Signature × Nat)) := attemptOf (ctx [datedTx]) (submitOf datedTx "c" "k")

theorem checks_datedTx : HandlersAux.SubmitChecks (ctx [datedTx]) (submitOf datedTx "c" "k") datedTx := ⟨rfl, rfl, Or.inl rfl⟩

/-- A failure that a retry may change. -/
def failedTransiently : Except SignSubmitStage (Signature × Nat) → Bool
  | .error stage => stage.isTransient
  | .ok _ => false

theorem exists_ok_of_isOk {r : Except SignSubmitStage (Signature × Nat)} (h : r.isOk = true) : ∃ out, r = .ok out := by
  cases r with
  | error stage => cases h
  | ok out => exact ⟨out, rfl⟩

end RetryDisciplineAux

open SampleAux in
/-- A submission that fails once and then goes through is retried as it should be. -/
theorem second_attempt_succeeds : ∃ attempt n, LoopRun (ctx [datedTx]) (submitOf datedTx "c" "k") attempt n ∧
    RetryDisciplined attempt n := by
  have hdown : (sampleAttempt.runWith clusterDown).any (fun out => failedTransiently out.2) = true := by decide +kernel
  have hup : (sampleAttempt.runWith answer).any (fun out => out.2.isOk) = true := by decide +kernel
  obtain ⟨t, r, hfails, hr⟩ := Prog.exists_exec_of_runWith hdown
  obtain ⟨t', r', hsucceeds, hr'⟩ := Prog.exists_exec_of_runWith hup
  let attempt : Nat → Attempt := fun k => if k = 0 then ⟨t, r⟩ else ⟨t', r'⟩
  have hattempt : ∀ k, Prog.Exec (attemptOf (ctx [datedTx]) (submitOf datedTx "c" "k")) (attempt k).calls (attempt k).outcome := by
    intro k
    by_cases hk : k = 0
    · simp only [attempt, if_pos hk]
      exact hfails
    · simp only [attempt, if_neg hk]
      exact hsucceeds
  obtain ⟨⟨n, hn⟩, hiff⟩ := retry_discipline_iff checks_datedTx hattempt
  refine ⟨attempt, n, hn, (hiff n hn).mpr ⟨1, by decide, exists_ok_of_isOk hr', fun j hj reason hrejected => ?_⟩⟩
  obtain rfl : j = 0 := by omega
  rw [show r = .error (.simulationRejected reason) from hrejected] at hr
  cases hr

open SampleAux in
/-- The discipline is not kept in every run: a transaction that the simulation rejects is tried four times. -/
theorem rejected_simulation_retried : ¬∀ (Γ : Ctx) (envelope : TxSubmitMessage) (tx : Transaction) (attempt : Nat → Attempt) (n : Nat),
    HandlersAux.SubmitChecks Γ envelope tx →
    (∀ k, Prog.Exec (attemptOf Γ envelope) (attempt k).calls (attempt k).outcome) → LoopRun Γ envelope attempt n →
      RetryDisciplined attempt n := by
  intro hall
  have hrun : (sampleAttempt.runWith failingSimulation).any (fun out => !out.2.isOk) = true := by decide +kernel
  obtain ⟨t, r, hexec, hr⟩ := Prog.exists_exec_of_runWith hrun
  let attempt : Nat → Attempt := fun _ => ⟨t, r⟩
  have hattempt : ∀ k, Prog.Exec (attemptOf (ctx [datedTx]) (submitOf datedTx "c" "k")) (attempt k).calls (attempt k).outcome :=
    fun _ => hexec
  obtain ⟨n, hn, hloop, -, hstop⟩ := exists_loopRun hattempt
  have hle := (hall _ _ _ attempt _ checks_datedTx hattempt hloop).atMost
  have hthree : ¬n < retryDelays := by
    intro hlt
    obtain ⟨out, hout⟩ := hstop hlt
    rw [show r = .ok out from hout] at hr
    cases hr
  rw [retryDelays] at hn hthree
  omega

end ChainBridge
