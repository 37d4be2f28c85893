import ChainBridge.Lemmas.Answering

/-!
# The gates and their refusals

Four handlers, thirteen exits: a message that parses is refused by its authentication, by its role, as stale, by the policy or for
its key id. `RefusedAt` says when, from the message and the clock readings alone; `refuses_of_refusedAt` says that the handler is
then at a refusal of that stage, for the request of that message.
-/

namespace ChainBridge

open Interleave

/-- The gates at which a handler refuses a message that parses. -/
inductive GateKind where
  | auth | role | stale | policy | keyId

/-- The stage under which a refusal is audited. -/
def GateKind.stage : GateKind → String
  | .auth => "auth"
  | .role => "rbac"
  | .stale => "stale"
  | .policy => "policy"
  | .keyId => "auth"

/-- What the gates of a handler read of its message: the request, the decision on the envelope at a clock reading, whether the role
is permitted, and, for the handlers that look for duplicates and stale envelopes, the key looked up and the timestamp. -/
structure GateInput where
  action : String
  correlationId : String
  serviceIdentity : String
  replySubject : String
  decision : Nat → Except String Unit
  permitted : Except String Unit
  timed : Option (String × Nat)

/-- The gates of a message that parses. -/
def Delivery.gateInput (Γ : Ctx) : Delivery → Option GateInput
  | .submit (.ok envelope) => some
    { action := "submit"
      correlationId := envelope.correlationId
      serviceIdentity := envelope.serviceIdentity
      replySubject := envelope.replySubject
      decision := envelopeDecision Γ envelope.auth envelope.serviceIdentity (Γ.canonicalSubmitBytes envelope) false
      permitted := HandlersAux.knownRole Γ envelope.serviceIdentity
      timed := some (envelope.correlationId, envelope.createdAtMs) }
  | .cancel (.ok envelope) => some
    { action := "cancel"
      correlationId := envelope.correlationId
      serviceIdentity := envelope.serviceIdentity
      replySubject := envelope.replySubject
      decision := envelopeDecision Γ envelope.auth envelope.serviceIdentity (Γ.canonicalCancelBytes envelope) false
      permitted := HandlersAux.knownRole Γ envelope.serviceIdentity
      timed := some (cancelKey envelope.correlationId, envelope.createdAtMs) }
  | .mint (.ok envelope) => some
    { action := "mint"
      correlationId := envelope.correlationId
      serviceIdentity := envelope.serviceIdentity
      replySubject := envelope.replySubject
      decision := envelopeDecision Γ envelope.auth envelope.serviceIdentity (Γ.canonicalMintBytes envelope) true
      permitted := Γ.requireAny (Γ.serviceRole ⟨envelope.serviceIdentity⟩) [.aggregatorBridge, .meterService]
      timed := some (envelope.correlationId, envelope.createdAtMs) }
  | .status (.ok envelope) => some
    { action := "status"
      correlationId := envelope.correlationId
      serviceIdentity := envelope.serviceIdentity
      replySubject := envelope.replySubject
      decision := envelopeDecision Γ envelope.auth envelope.serviceIdentity (Γ.canonicalStatusBytes envelope) false
      permitted := Γ.requireAny (Γ.serviceRole ⟨envelope.serviceIdentity⟩) [.meterService, .admin]
      timed := none }
  | _ => none

/-- The calls of a message that gets as far as the staleness gate. -/
def gateReadings (lookup : String) (authMs nowMs : Nat) : List CallEvent :=
  [⟨.now, authMs⟩, ⟨.cacheContains lookup, false⟩, ⟨.now, nowMs⟩]

/-- A message is let through by its authentication, its role and its age. -/
structure GateInput.Recent (g : GateInput) (lookup : String) (authMs nowMs : Nat) : Prop where
  authenticated : g.decision authMs = .ok ()
  permitted : g.permitted = .ok ()
  recent : ∃ createdAtMs, g.timed = some (lookup, createdAtMs) ∧ nowMs - createdAtMs ≤ stalenessMs

/-- After the calls of the list, the message is refused at a gate. The last two gates are those of a submit. -/
inductive RefusedAt (Γ : Ctx) (d : Delivery) (g : GateInput) : GateKind → List CallEvent → Prop where
  | auth {authMs : Nat} {reason : String} : g.decision authMs = .error reason → RefusedAt Γ d g .auth [⟨.now, authMs⟩]
  | role {authMs : Nat} {reason : String} : g.decision authMs = .ok () → g.permitted = .error reason →
      RefusedAt Γ d g .role [⟨.now, authMs⟩]
  | stale {lookup : String} {createdAtMs authMs nowMs : Nat} : g.timed = some (lookup, createdAtMs) →
      g.decision authMs = .ok () → g.permitted = .ok () → nowMs - createdAtMs > stalenessMs →
      RefusedAt Γ d g .stale (gateReadings lookup authMs nowMs)
  | policy {envelope : TxSubmitMessage} {lookup : String} {authMs nowMs : Nat} {tx : Transaction} {reason : String} :
      d = .submit (.ok envelope) → g.Recent lookup authMs nowMs → Γ.deserialize envelope.serializedTx = .ok tx →
      Γ.validateTransaction ⟨envelope.serviceIdentity⟩ tx = .error reason →
      RefusedAt Γ d g .policy (gateReadings lookup authMs nowMs)
  | keyId {envelope : TxSubmitMessage} {lookup : String} {authMs nowMs : Nat} {tx : Transaction} :
      d = .submit (.ok envelope) → g.Recent lookup authMs nowMs → Γ.deserialize envelope.serializedTx = .ok tx →
      Γ.validateTransaction ⟨envelope.serviceIdentity⟩ tx = .ok () → envelope.keyId ≠ platformAdmin → envelope.keyId ≠ "" →
      RefusedAt Γ d g .keyId (gateReadings lookup authMs nowMs)

/-- A failure result: no success, and a text of what went wrong. -/
def Reply.isFailure : Reply → Bool
  | .tx r => !r.success && r.error.isSome
  | .cancel r => !r.success && r.error.isSome
  | .mint r => !r.success && r.error.isSome
  | .status r => !r.found && !r.confirmed && r.error.isSome

/-- What is left of a handler is the refusal of its message at a gate. -/
def GateInput.Refuses (g : GateInput) (gate : GateKind) (q : Handler Unit) : Prop :=
  ∃ reason reply kind, reply.isFailure = true ∧ reply.correlationId = g.correlationId ∧
    q = refuse g.correlationId g.serviceIdentity g.action gate.stage reason g.replySubject reply kind

namespace RefusalsAux

open HandlersAux

variable {Γ : Ctx} {d : Delivery} {g : GateInput} {G : Gates} {rest : Nat → Handler Unit} {authMs nowMs : Nat}

/-! ## The common gates -/

/-- What is left behind the role: the lookup, the age and the rest. -/
def behindRole (G : Gates) (rest : Nat → Handler Unit) : Handler Unit := do
  if ← cacheContains G.lookup then ack .ack
  else
    let nowMs ← readClock
    if nowMs - G.createdAtMs > stalenessMs then G.refuseStale nowMs
    else rest nowMs

/-- What is left behind the age, at a reading. -/
def behindAge (G : Gates) (rest : Nat → Handler Unit) (nowMs : Nat) : Handler Unit :=
  if nowMs - G.createdAtMs > stalenessMs then G.refuseStale nowMs else rest nowMs

theorem steps_auth {reason : String} (h : G.decision authMs = .error reason) :
    Prog.Steps (G.run rest) [⟨.now, authMs⟩] (G.refuseAuth reason) := by
  refine Prog.steps_perform.mpr (Or.inr ⟨authMs, [], rfl, ?_⟩)
  rw [h]
  exact .nil _

theorem steps_role {reason : String} (hauth : G.decision authMs = .ok ()) (hrole : G.permitted = .error reason) :
    Prog.Steps (G.run rest) [⟨.now, authMs⟩] G.refuseRole := by
  refine Prog.steps_perform.mpr (Or.inr ⟨authMs, [], rfl, ?_⟩)
  rw [hauth, hrole]
  exact .nil _

theorem steps_behindRole (hauth : G.decision authMs = .ok ()) (hrole : G.permitted = .ok ()) :
    Prog.Steps (G.run rest) [⟨.now, authMs⟩] (behindRole G rest) := by
  refine Prog.steps_perform.mpr (Or.inr ⟨authMs, [], rfl, ?_⟩)
  rw [hauth, hrole]
  exact .nil _

theorem steps_behindAge (hauth : G.decision authMs = .ok ()) (hrole : G.permitted = .ok ()) (nowMs : Nat) :
    Prog.Steps (G.run rest) (gateReadings G.lookup authMs nowMs) (behindAge G rest nowMs) := by
  refine (steps_behindRole hauth hrole).trans ?_
  refine Prog.steps_perform.mpr (Or.inr ⟨false, [⟨.now, nowMs⟩], rfl, ?_⟩)
  exact Prog.steps_perform.mpr (Or.inr ⟨nowMs, [], rfl, .nil _⟩)

/-- The gates are those of the message, and refuse its request. -/
structure Matches (g : GateInput) (G : Gates) : Prop where
  decision : G.decision = g.decision
  permitted : G.permitted = g.permitted
  timed : g.timed = some (G.lookup, G.createdAtMs)
  auth : ∀ reason, g.Refuses .auth (G.refuseAuth reason)
  role : g.Refuses .role G.refuseRole
  stale : ∀ nowMs, g.Refuses .stale (G.refuseStale nowMs)

/-- What is left of a handler that looks for stale envelopes, behind its gates. -/
def behindGates (Γ : Ctx) : Delivery → Nat → Handler Unit
  | .submit (.ok envelope), nowMs => submitChecked Γ envelope nowMs
  | .cancel (.ok envelope), nowMs => cancelRest envelope nowMs
  | .mint (.ok envelope), nowMs => mintRest Γ envelope nowMs
  | _, _ => return ()

/-- A handler that looks for stale envelopes is made of its gates and what is behind them. -/
theorem gates_of_timed {timed : String × Nat} (hd : d.gateInput Γ = some g) (ht : g.timed = some timed) :
    ∃ G, Matches g G ∧ dispatch Γ d = G.run (behindGates Γ d) := by
  have hrefuses : ∀ {stage reason : String} {reply : Reply} {kind : AckKind} (gate : GateKind), reply.isFailure = true →
      reply.correlationId = g.correlationId → stage = gate.stage →
      g.Refuses gate (refuse g.correlationId g.serviceIdentity g.action stage reason g.replySubject reply kind) := by
    rintro stage reason reply kind gate hfail hcorr rfl
    exact ⟨reason, reply, kind, hfail, hcorr, rfl⟩
  match d with
  | .submit (.ok envelope) =>
    cases hd
    refine ⟨submitGates Γ envelope, ⟨rfl, rfl, rfl, fun _ => ?_, ?_, fun _ => ?_⟩, handleSubmit_eq envelope⟩
    · exact hrefuses .auth rfl rfl rfl
    · exact hrefuses .role rfl rfl rfl
    · exact hrefuses .stale rfl rfl rfl
  | .cancel (.ok envelope) =>
    cases hd
    refine ⟨cancelGates Γ envelope, ⟨rfl, rfl, rfl, fun _ => ?_, ?_, fun _ => ?_⟩, handleCancel_eq envelope⟩
    · exact hrefuses .auth rfl rfl rfl
    · exact hrefuses .role rfl rfl rfl
    · exact hrefuses .stale rfl rfl rfl
  | .mint (.ok envelope) =>
    cases hd
    refine ⟨mintGates Γ envelope, ⟨rfl, rfl, rfl, fun _ => ?_, ?_, fun _ => ?_⟩, handleMint_eq envelope⟩
    · exact hrefuses .auth rfl rfl rfl
    · exact hrefuses .role rfl rfl rfl
    · exact hrefuses .stale rfl rfl rfl
  | .status (.ok envelope) =>
    cases hd
    cases ht

/-! ## Every exit -/

/-- A handler that looks for nothing is that of the status query. -/
theorem status_of_not_timed (hd : d.gateInput Γ = some g) (ht : g.timed = none) : ∃ envelope, d = .status (.ok envelope) := by
  match d with
  | .submit (.ok envelope) | .cancel (.ok envelope) | .mint (.ok envelope) =>
    cases hd
    cases ht
  | .status (.ok envelope) => exact ⟨envelope, rfl⟩

theorem refuses_auth {reason : String} (hd : d.gateInput Γ = some g) (h : g.decision authMs = .error reason) :
    ∃ q, Prog.Steps (dispatch Γ d) [⟨.now, authMs⟩] q ∧ g.Refuses .auth q := by
  cases ht : g.timed with
  | some timed =>
    obtain ⟨G, hG, hdispatch⟩ := gates_of_timed hd ht
    rw [hdispatch]
    exact ⟨_, steps_auth (hG.decision ▸ h), hG.auth reason⟩
  | none =>
    obtain ⟨envelope, rfl⟩ := status_of_not_timed hd ht
    cases hd
    refine ⟨_, Prog.steps_perform.mpr (Or.inr ⟨authMs, [], rfl, ?_⟩), authReason reason,
      .status (.failure envelope.correlationId (authReason reason)), .term, rfl, rfl, rfl⟩
    simp only at h
    rw [h]
    exact .nil _

theorem refuses_role {reason : String} (hd : d.gateInput Γ = some g) (hauth : g.decision authMs = .ok ())
    (hrole : g.permitted = .error reason) : ∃ q, Prog.Steps (dispatch Γ d) [⟨.now, authMs⟩] q ∧ g.Refuses .role q := by
  cases ht : g.timed with
  | some timed =>
    obtain ⟨G, hG, hdispatch⟩ := gates_of_timed hd ht
    rw [hdispatch]
    exact ⟨_, steps_role (hG.decision ▸ hauth) (hG.permitted ▸ hrole), hG.role⟩
  | none =>
    obtain ⟨envelope, rfl⟩ := status_of_not_timed hd ht
    cases hd
    refine ⟨_, Prog.steps_perform.mpr (Or.inr ⟨authMs, [], rfl, ?_⟩), "role not permitted to query status",
      .status (.failure envelope.correlationId ("Unauthorised service identity for status: " ++ envelope.serviceIdentity)),
      .term, rfl, rfl, rfl⟩
    simp only at hauth hrole
    rw [hauth, hrole]
    exact .nil _

/-- A message that is authenticated and permitted comes to the lookup of its duplicates. -/
theorem steps_to_lookup {createdAtMs : Nat} {lookup : String} (hd : d.gateInput Γ = some g)
    (ht : g.timed = some (lookup, createdAtMs)) (hauth : g.decision authMs = .ok ()) (hrole : g.permitted = .ok ()) :
    ∃ k, Prog.Steps (dispatch Γ d) [⟨.now, authMs⟩] (.call (.cacheContains lookup) k) := by
  obtain ⟨G, hG, hdispatch⟩ := gates_of_timed hd ht
  obtain ⟨rfl, rfl⟩ := Prod.mk.inj (Option.some.inj (ht.symm.trans hG.timed))
  rw [hdispatch]
  exact ⟨_, steps_behindRole (hG.decision ▸ hauth) (hG.permitted ▸ hrole)⟩

/-- Then, if it is no duplicate, it is refused as stale, or goes on behind the gates. -/
theorem steps_to_age {createdAtMs : Nat} {lookup : String} (hd : d.gateInput Γ = some g)
    (ht : g.timed = some (lookup, createdAtMs)) (hauth : g.decision authMs = .ok ()) (hrole : g.permitted = .ok ())
    (nowMs : Nat) : ∃ refusal, g.Refuses .stale refusal ∧
      Prog.Steps (dispatch Γ d) (gateReadings lookup authMs nowMs)
        (if nowMs - createdAtMs > stalenessMs then refusal else behindGates Γ d nowMs) := by
  obtain ⟨G, hG, hdispatch⟩ := gates_of_timed hd ht
  obtain ⟨rfl, rfl⟩ := Prod.mk.inj (Option.some.inj (ht.symm.trans hG.timed))
  refine ⟨_, hG.stale nowMs, ?_⟩
  rw [hdispatch]
  exact steps_behindAge (hG.decision ▸ hauth) (hG.permitted ▸ hrole) nowMs

/-- A recent message goes on behind the gates. -/
theorem steps_of_recent {lookup : String} (hd : d.gateInput Γ = some g) (hrecent : g.Recent lookup authMs nowMs) :
    Prog.Steps (dispatch Γ d) (gateReadings lookup authMs nowMs) (behindGates Γ d nowMs) := by
  obtain ⟨createdAtMs, ht, hage⟩ := hrecent.recent
  obtain ⟨refusal, -, hsteps⟩ := steps_to_age hd ht hrecent.authenticated hrecent.permitted nowMs
  rwa [if_neg (Nat.not_lt.mpr hage)] at hsteps

/-- A message that is refused at a gate has its handler at a refusal of that gate. -/
theorem refuses_of_refusedAt {gate : GateKind} {t : List CallEvent} (hd : d.gateInput Γ = some g) (h : RefusedAt Γ d g gate t) :
    ∃ q, Prog.Steps (dispatch Γ d) t q ∧ g.Refuses gate q := by
  cases h with
  | auth hauth => exact refuses_auth hd hauth
  | role hauth hrole => exact refuses_role hd hauth hrole
  | stale ht hauth hrole hstale =>
    obtain ⟨refusal, hrefuses, hsteps⟩ := steps_to_age hd ht hauth hrole _
    rw [if_pos hstale] at hsteps
    exact ⟨refusal, hsteps, hrefuses⟩
  | @policy envelope _ _ nowMs _ reason he hrecent hdecoded hrejected =>
    subst he
    have hsteps := steps_of_recent hd hrecent
    cases hd
    have hrefuses : submitChecked Γ envelope nowMs = refuse envelope.correlationId envelope.serviceIdentity "submit" "policy" reason
        envelope.replySubject (.tx (.failure envelope.correlationId ("Policy Engine rejection: " ++ reason))) .term := by
      simp only [submitChecked, hdecoded, hrejected]
    exact ⟨_, hsteps, reason, _, .term, rfl, rfl, hrefuses⟩
  | @keyId envelope _ _ nowMs _ he hrecent hdecoded hallowed hadmin hempty =>
    subst he
    have hsteps := steps_of_recent hd hrecent
    cases hd
    have hrefuses : submitChecked Γ envelope nowMs = refuse envelope.correlationId envelope.serviceIdentity "submit" "auth"
        ("Key ID not authorized: " ++ envelope.keyId) envelope.replySubject
        (.tx (.failure envelope.correlationId ("Key ID not authorized: " ++ envelope.keyId))) .term := by
      simp only [submitChecked, hdecoded, hallowed, if_pos (And.intro hadmin hempty)]
    exact ⟨_, hsteps, "Key ID not authorized: " ++ envelope.keyId, _, .term, rfl, rfl, hrefuses⟩

end RefusalsAux

end ChainBridge
