import ChainBridge.Lemmas.Refusals
import ChainBridge.Lemmas.Sample

/-!
# How long a captured envelope can be replayed

The three handlers that write refuse an envelope that is older than 55 seconds. The age is a saturating difference, so an envelope
whose timestamp is ahead of the clock has age zero: it passes from the start, and until 55 seconds after its timestamp.
-/

namespace ChainBridge

open Interleave

/-- What is left of a handler starts with the refusal of a stale envelope: a clock reading and an audit entry of that stage. -/
def RefusesStale (q : Handler Unit) : Prop :=
  ∃ nowMs entry a reason q', Prog.Steps q [⟨.now, nowMs⟩, ⟨.auditAppend entry, a⟩] q' ∧ entry.outcome = .rejected "stale" reason

/-- A delivery comes to the staleness gate with a clock reading, and goes on behind it. -/
def PassesStaleness (Γ : Ctx) (d : Delivery) (nowMs : Nat) : Prop :=
  ∃ authMs lookup q, authMs ≤ nowMs ∧ Prog.Steps (dispatch Γ d) (gateReadings lookup authMs nowMs) q ∧ ¬RefusesStale q

/-- Any two of the readings with which a delivery passes the gate are at most 55 seconds apart. -/
def WindowBounded (Γ : Ctx) (d : Delivery) (readings : List Nat) : Prop :=
  ∀ r ∈ readings, ∀ r' ∈ readings, PassesStaleness Γ d r → PassesStaleness Γ d r' → r' ≤ r + stalenessMs

/-- Clock readings in their order, from a first one on. -/
structure Readings (firstMs : Nat) (readings : List Nat) : Prop where
  ordered : readings.Pairwise (· ≤ ·)
  first : ∀ r ∈ readings, firstMs ≤ r
  u64 : ∀ r ∈ readings, r < 2 ^ 64

/-- The reading from which on an envelope passes for no more than 55 seconds: its timestamp, unless 64-bit time ends before its
window does. -/
def windowStart (createdAtMs : Nat) : Nat := min createdAtMs (2 ^ 64 - 1 - stalenessMs)

/-- The envelope can be used ahead of its timestamp: deliveries start before it, and there is a reading before it at which the
envelope is authenticated, with a role that is permitted. -/
structure UsableEarly (g : GateInput) (createdAtMs firstMs : Nat) : Prop where
  ahead : firstMs < windowStart createdAtMs
  admitted : ∃ authMs < windowStart createdAtMs, g.decision authMs = .ok ()
  permitted : g.permitted = .ok ()

namespace ReplayWindowAux

open HandlersAux RefusalsAux

variable {Γ : Ctx} {d : Delivery} {g : GateInput} {lookup : String} {createdAtMs authMs nowMs : Nat}

/-- A refusal at the staleness gate is one. -/
theorem refusesStale_of_refuses {q : Handler Unit} (h : g.Refuses .stale q) : RefusesStale q := by
  obtain ⟨reason, reply, kind, -, -, rfl⟩ := h
  exact ⟨0, _, .ok 0, reason, _, .cons _ _ (.cons _ _ (.nil _)), rfl⟩

/-- A refusal reads the clock first. -/
theorem not_lookup_of_refuses {gate : GateKind} {q q' : Handler Unit} (h : g.Refuses gate q) {found : Bool} {t : List CallEvent} :
    ¬Prog.Steps q (⟨.cacheContains lookup, found⟩ :: t) q' := by
  obtain ⟨reason, reply, kind, -, -, rfl⟩ := h
  intro hs
  cases hs

/-- A refusal at another stage is none. -/
theorem not_refusesStale_refuse {stage : String} (hstage : stage ≠ "stale")
    (correlationId claimedIdentity action reason subject : String) (reply : Reply) (kind : AckKind) :
    ¬RefusesStale (refuse correlationId claimedIdentity action stage reason subject reply kind) := by
  rintro ⟨nowMs, entry, a, reason', q', hs, hentry⟩
  obtain ⟨r, t₁, heq₁, h₁⟩ := (Prog.steps_call.mp hs).resolve_left (fun h => by cases h.1)
  cases heq₁
  obtain ⟨r', t₂, heq₂, -⟩ := (Prog.steps_call.mp h₁).resolve_left (fun h => by cases h.1)
  cases heq₂
  cases hentry
  exact hstage rfl

/-- A handler whose next call is not a clock reading does not refuse. -/
theorem not_refusesStale_call {c : Call} (hc : c ≠ .now) (k : c.Answer → Handler Unit) : ¬RefusesStale (.call c k) := by
  rintro ⟨nowMs, entry, a, reason, q', hs, -⟩
  cases hs
  exact hc rfl

/-- Behind the gates, no envelope is refused as stale. -/
theorem not_refusesStale_behindGates (hd : d.gateInput Γ = some g) (ht : g.timed = some (lookup, createdAtMs)) :
    ¬RefusesStale (behindGates Γ d nowMs) := by
  match d with
  | .submit (.ok envelope) =>
    simp only [behindGates, submitChecked]
    split
    · exact not_refusesStale_call (by simp) _
    split
    · exact not_refusesStale_refuse (by decide) _ _ _ _ _ _ _
    split
    · exact not_refusesStale_refuse (by decide) _ _ _ _ _ _ _
    · exact not_refusesStale_call (by simp) _
  | .cancel (.ok envelope) => exact not_refusesStale_call (by simp) _
  | .mint (.ok envelope) => exact not_refusesStale_call (by simp) _
  | .status (.ok envelope) =>
    cases hd
    cases ht

/-- A delivery that comes to the gate was authenticated and permitted, and looked its own duplicates up. -/
theorem admitted_of_steps {lookup' : String} {q : Handler Unit} (hd : d.gateInput Γ = some g)
    (ht : g.timed = some (lookup, createdAtMs)) (h : Prog.Steps (dispatch Γ d) (gateReadings lookup' authMs nowMs) q) :
    g.decision authMs = .ok () ∧ g.permitted = .ok () ∧ lookup' = lookup := by
  cases hauth : g.decision authMs with
  | error reason =>
    obtain ⟨q₁, hs₁, hrefuses⟩ := refuses_auth hd hauth
    exact (not_lookup_of_refuses hrefuses (hs₁.append_iff.mp h)).elim
  | ok u =>
    cases hrole : g.permitted with
    | error reason =>
      obtain ⟨q₁, hs₁, hrefuses⟩ := refuses_role hd hauth hrole
      exact (not_lookup_of_refuses hrefuses (hs₁.append_iff.mp h)).elim
    | ok u =>
      obtain ⟨k, hs₁⟩ := steps_to_lookup hd ht hauth hrole
      have hlookup := hs₁.append_iff.mp h
      cases hlookup
      exact ⟨rfl, rfl, rfl⟩

/-- The readings with which a delivery passes the gate: those up to 55 seconds after the timestamp, once the envelope was
authenticated. -/
theorem passesStaleness_iff (hd : d.gateInput Γ = some g) (ht : g.timed = some (lookup, createdAtMs)) (nowMs : Nat) :
    PassesStaleness Γ d nowMs ↔
      nowMs ≤ createdAtMs + stalenessMs ∧ g.permitted = .ok () ∧ ∃ authMs ≤ nowMs, g.decision authMs = .ok () := by
  constructor
  · rintro ⟨authMs, lookup', q, hle, hsteps, hpasses⟩
    obtain ⟨hauth, hrole, rfl⟩ := admitted_of_steps hd ht hsteps
    obtain ⟨refusal, hrefuses, hage⟩ := steps_to_age hd ht hauth hrole nowMs
    refine ⟨?_, hrole, authMs, hle, hauth⟩
    by_cases hstale : nowMs - createdAtMs > stalenessMs
    · rw [if_pos hstale] at hage
      have hend : Prog.Steps refusal [] q := hage.append_iff.mp ((List.append_nil _).symm ▸ hsteps)
      cases hend
      exact (hpasses (refusesStale_of_refuses hrefuses)).elim
    · omega
  · rintro ⟨hle, hrole, authMs, hauthMs, hauth⟩
    have hrecent : g.Recent lookup authMs nowMs := ⟨hauth, hrole, createdAtMs, ht, by omega⟩
    exact ⟨authMs, lookup, _, hauthMs, steps_of_recent hd hrecent, not_refusesStale_behindGates hd ht⟩

end ReplayWindowAux

open ReplayWindowAux

/-- Replay of an envelope is bounded to 55 seconds, for deliveries from a reading on, exactly when the envelope cannot be used ahead
of its timestamp: its timestamp is not ahead of the clock, or nothing that comes before it is authenticated and permitted. -/
theorem replay_window_iff {Γ : Ctx} {d : Delivery} {g : GateInput} {lookup : String} {createdAtMs : Nat}
    (hd : d.gateInput Γ = some g) (ht : g.timed = some (lookup, createdAtMs)) (firstMs : Nat) :
    (∀ readings, Readings firstMs readings → WindowBounded Γ d readings) ↔ ¬UsableEarly g createdAtMs firstMs := by
  have hpasses := passesStaleness_iff hd ht
  constructor
  · rintro hbounded ⟨hahead, ⟨authMs, hauthMs, hauth⟩, hrole⟩
    -- a use ahead of the timestamp, and the last one before the envelope is stale
    let early := max firstMs authMs
    let last := windowStart createdAtMs + stalenessMs
    have hstart : windowStart createdAtMs ≤ createdAtMs := Nat.min_le_left ..
    have hend : windowStart createdAtMs ≤ 2 ^ 64 - 1 - stalenessMs := Nat.min_le_right ..
    have hearly : early < windowStart createdAtMs := Nat.max_lt.mpr ⟨hahead, hauthMs⟩
    have hlast : last < 2 ^ 64 := by
      simp only [stalenessMs] at hend
      simp only [last, stalenessMs]
      omega
    have hreadings : Readings firstMs [early, last] := by
      constructor
      · simp only [List.pairwise_cons, List.mem_singleton, forall_eq, List.not_mem_nil, false_implies, implies_true, List.Pairwise.nil,
          and_true]
        omega
      · simp only [List.mem_cons, List.not_mem_nil, or_false, forall_eq_or_imp, forall_eq]
        omega
      · simp only [List.mem_cons, List.not_mem_nil, or_false, forall_eq_or_imp, forall_eq]
        omega
    have hpass : PassesStaleness Γ d early := (hpasses early).mpr ⟨by omega, hrole, authMs, Nat.le_max_right .., hauth⟩
    have hpass' : PassesStaleness Γ d last := (hpasses last).mpr ⟨by omega, hrole, authMs, by omega, hauth⟩
    have hle := hbounded _ hreadings early (by simp) last (by simp) hpass hpass'
    omega
  · intro hearly readings hreadings r hr r' hr' hpass hpass'
    obtain ⟨-, hrole, authMs, hauthMs, hauth⟩ := (hpasses r).mp hpass
    obtain ⟨hle, -⟩ := (hpasses r').mp hpass'
    have hfirst := hreadings.first r hr
    have hu64 := hreadings.u64 r' hr'
    have hstart : windowStart createdAtMs ≤ r := by
      by_contra hlt
      exact hearly ⟨by omega, ⟨authMs, by omega, hauth⟩, hrole⟩
    simp only [windowStart, stalenessMs] at hstart hle ⊢
    omega

namespace ReplayWindowAux

open SampleAux

variable {Γ : Ctx} {authMs nowMs : Nat}

theorem eq_ok_of_isOk {x : Except String Unit} (h : x.isOk = true) : x = .ok () := by
  cases x with
  | error e => cases h
  | ok u => rfl

theorem passes_mint {envelope : MintEnergyMessage}
    (hauth : envelopeDecision Γ envelope.auth envelope.serviceIdentity (Γ.canonicalMintBytes envelope) true authMs = .ok ())
    (hrole : Γ.requireAny (Γ.serviceRole ⟨envelope.serviceIdentity⟩) [.aggregatorBridge, .meterService] = .ok ())
    (hge : authMs ≤ nowMs) (hage : nowMs ≤ envelope.createdAtMs + stalenessMs) :
    PassesStaleness Γ (.mint (.ok envelope)) nowMs :=
  (passesStaleness_iff rfl rfl nowMs).mpr ⟨hage, hrole, authMs, hge, hauth⟩

/-- The signed mint passes from 100 seconds before its timestamp to 55 seconds after it. -/
theorem passes_signedMint (hge : 1799999900000 ≤ nowMs) (hle : nowMs ≤ 1800000055000) :
    PassesStaleness mintCtx (.mint (.ok signedMint)) nowMs := by
  have hauth : envelopeDecision mintCtx signedMint.auth signedMint.serviceIdentity (mintCtx.canonicalMintBytes signedMint) true
      1799999900000 = .ok () := eq_ok_of_isOk (by decide +kernel)
  have hrole : mintCtx.requireAny (mintCtx.serviceRole ⟨signedMint.serviceIdentity⟩) [.aggregatorBridge, .meterService] = .ok () :=
    eq_ok_of_isOk (by decide +kernel)
  have hage : nowMs ≤ signedMint.createdAtMs + stalenessMs := Nat.le_trans hle (by decide)
  exact passes_mint hauth hrole hge hage

end ReplayWindowAux

open SampleAux in
/-- A captured envelope can be used for longer: a mint that its publisher signed with a clock 100 seconds ahead passes at once, and
again 155 seconds later. -/
theorem early_mint_replayed_late : ¬∀ (Γ : Ctx) (d : Delivery) (g : GateInput) (lookup : String) (createdAtMs : Nat)
    (readings : List Nat), d.gateInput Γ = some g → g.timed = some (lookup, createdAtMs) → Readings 0 readings →
      WindowBounded Γ d readings := by
  intro hall
  have hreadings : Readings 0 [1799999900000, 1800000055000] := ⟨by decide, by decide, by decide⟩
  have hle := hall mintCtx (.mint (.ok signedMint)) _ _ _ _ rfl rfl hreadings 1799999900000 (by simp) 1800000055000 (by simp)
    (passes_signedMint (by decide) (by decide)) (passes_signedMint (by decide) (by decide))
  exact absurd hle (by decide)

open SampleAux in
/-- Once the clock has come to its timestamp, the same mint has 55 seconds left. -/
theorem mint_replay_bounded : Readings 1800000000000 [1800000000000, 1800000055000, 1800000060000] ∧
    WindowBounded mintCtx (.mint (.ok signedMint)) [1800000000000, 1800000055000, 1800000060000] := by
  have hreadings : Readings 1800000000000 [1800000000000, 1800000055000, 1800000060000] := ⟨by decide, by decide, by decide⟩
  refine ⟨hreadings, (replay_window_iff (Γ := mintCtx) (d := .mint (.ok signedMint)) rfl rfl 1800000000000).mpr ?_ _ hreadings⟩
  rintro ⟨hahead, -, -⟩
  exact absurd hahead (by decide)

end ChainBridge
