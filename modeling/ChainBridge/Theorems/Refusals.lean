import ChainBridge.Lemmas.Refusals
import ChainBridge.Lemmas.Sample

/-!
# A refusal at a gate

What a handler does with a message that a gate refuses: one audit entry, one failure result, one acknowledgement, and nothing else.
-/

namespace ChainBridge

open Interleave

/-- The calls of Vault, of the simulation and of the submission. -/
def Call.isChainCall : Call → Bool
  | .signMessage _ _ => true
  | .getPublicKey _ => true
  | .simulateTransaction _ => true
  | .sendTransaction _ => true
  | _ => false

/-- A refusal is accounted for, and has no effect: one audit entry, rejected at the stage of the gate, for the request; one failure
result for the request on its reply subject, then one acknowledgement; no call changes what the session holds; and neither Vault nor
the cluster is called for a transaction. -/
structure Accounted (g : GateInput) (gate : GateKind) (t : List CallEvent) : Prop where
  audited : ∃ reason createdAtMs, t.filterMap appendedEntry =
    [AuditEntry.new g.correlationId g.serviceIdentity g.action (.rejected gate.stage reason) createdAtMs]
  answered : ∃ reply kind, reply.isFailure = true ∧ reply.correlationId = g.correlationId ∧
    t.filterMap outgoing = [.publish g.replySubject reply, .ack kind]
  untouched : ∀ e ∈ t, ∀ (s : Session) a, (s.serve e.1 a).2 = s
  uncalled : ∀ e ∈ t, e.1.isChainCall = false

namespace RefusalsAux

variable {Γ : Ctx} {d : Delivery} {g : GateInput} {gate : GateKind} {pre : List CallEvent}

/-- A call that only reads. -/
structure Idle (e : CallEvent) : Prop where
  entry : appendedEntry e = none
  out : outgoing e = none
  session : ∀ (s : Session) a, (s.serve e.1 a).2 = s
  uncalled : e.1.isChainCall = false

theorem idle_now (nowMs : Nat) : Idle ⟨.now, nowMs⟩ := ⟨rfl, rfl, fun _ _ => rfl, rfl⟩

theorem idle_cacheContains (key : String) (found : Bool) : Idle ⟨.cacheContains key, found⟩ := ⟨rfl, rfl, fun _ _ => rfl, rfl⟩

theorem idle_gateReadings (lookup : String) (authMs nowMs : Nat) : ∀ e ∈ gateReadings lookup authMs nowMs, Idle e := by
  intro e he
  simp only [gateReadings, List.mem_cons, List.not_mem_nil, or_false] at he
  rcases he with rfl | rfl | rfl
  · exact idle_now authMs
  · exact idle_cacheContains lookup false
  · exact idle_now nowMs

/-- The calls before a refusal only read. -/
theorem idle_of_refusedAt (h : RefusedAt Γ d g gate pre) : ∀ e ∈ pre, Idle e := by
  have hnow : ∀ authMs, ∀ e ∈ [(⟨.now, authMs⟩ : CallEvent)], Idle e := by
    intro authMs e he
    rw [List.mem_singleton.mp he]
    exact idle_now authMs
  cases h with
  | auth _ => exact hnow _
  | role _ _ => exact hnow _
  | stale _ _ _ _ => exact idle_gateReadings _ _ _
  | policy _ _ _ _ => exact idle_gateReadings _ _ _
  | keyId _ _ _ _ _ _ => exact idle_gateReadings _ _ _

/-- The calls of a refusal. -/
theorem exec_refuse {correlationId claimedIdentity action stage reason subject : String} {reply : Reply} {kind : AckKind}
    {t : List CallEvent} {u : Unit} (h : Prog.Exec (refuse correlationId claimedIdentity action stage reason subject reply kind) t u) :
    ∃ createdAtMs a, t = [⟨.now, createdAtMs⟩,
      ⟨.auditAppend (.new correlationId claimedIdentity action (.rejected stage reason) (UInt64.ofNat createdAtMs)), a⟩,
      ⟨.publish subject reply, ()⟩, ⟨.ack kind, ()⟩] := by
  obtain ⟨createdAtMs, t₁, rfl, h₁⟩ := Prog.exec_call.mp h
  obtain ⟨a, t₂, rfl, h₂⟩ := Prog.exec_call.mp h₁
  obtain ⟨_, t₃, rfl, h₃⟩ := Prog.exec_call.mp h₂
  obtain ⟨_, t₄, rfl, h₄⟩ := Prog.exec_call.mp h₃
  obtain ⟨rfl, -⟩ := Prog.exec_ret.mp h₄
  exact ⟨createdAtMs, a, rfl⟩

/-- A refusal returns. -/
theorem exists_exec_refuse (correlationId claimedIdentity action stage reason subject : String) (reply : Reply) (kind : AckKind) :
    ∃ t, Prog.Exec (refuse correlationId claimedIdentity action stage reason subject reply kind) t () :=
  ⟨_, .cons _ 0 (.cons _ (.ok 0) (.cons _ () (.cons _ () (.nil _))))⟩

end RefusalsAux

open RefusalsAux

/-- Gate rejections are accounted for and have no effect. A message that parses and is refused at a gate, after the readings of the
gates: its handler returns, and in every execution the refusal is accounted for. -/
theorem gate_refusals_accounted {Γ : Ctx} {d : Delivery} {g : GateInput} {gate : GateKind} {pre : List CallEvent}
    (hd : d.gateInput Γ = some g) (h : RefusedAt Γ d g gate pre) :
    (∃ t, Prog.Exec (dispatch Γ d) (pre ++ t) ()) ∧
    ∀ t, Prog.Exec (dispatch Γ d) (pre ++ t) () → Accounted g gate (pre ++ t) := by
  obtain ⟨q, hsteps, reason, reply, kind, hfail, hcorr, rfl⟩ := refuses_of_refusedAt hd h
  constructor
  · obtain ⟨t, ht⟩ := exists_exec_refuse g.correlationId g.serviceIdentity g.action gate.stage reason g.replySubject reply kind
    exact ⟨t, hsteps.append_iff.mpr ht⟩
  · intro t ht
    obtain ⟨createdAtMs, a, rfl⟩ := exec_refuse (hsteps.append_iff.mp ht)
    have hidle := idle_of_refusedAt h
    have hentries : pre.filterMap appendedEntry = [] := List.filterMap_eq_nil_iff.mpr fun e he => (hidle e he).entry
    have hout : pre.filterMap outgoing = [] := List.filterMap_eq_nil_iff.mpr fun e he => (hidle e he).out
    constructor
    · refine ⟨reason, UInt64.ofNat createdAtMs, ?_⟩
      rw [List.filterMap_append, hentries]
      rfl
    · refine ⟨reply, kind, hfail, hcorr, ?_⟩
      rw [List.filterMap_append, hout]
      rfl
    · intro e he s a
      rcases List.mem_append.mp he with he | he
      · exact (hidle e he).session s a
      · simp only [List.mem_cons, List.not_mem_nil, or_false] at he
        rcases he with rfl | rfl | rfl | rfl <;> rfl
    · intro e he
      rcases List.mem_append.mp he with he | he
      · exact (hidle e he).uncalled
      · simp only [List.mem_cons, List.not_mem_nil, or_false] at he
        rcases he with rfl | rfl | rfl | rfl <;> rfl

open SampleAux in
/-- A submit that comes 99 seconds after its timestamp is refused as stale, and accounted for. -/
theorem stale_submit_accounted : ∃ g t, (Delivery.submit (.ok (submitOf datedTx "c" "k"))).gateInput (ctx [datedTx]) = some g ∧
    Prog.Exec (dispatch (ctx [datedTx]) (.submit (.ok (submitOf datedTx "c" "k")))) (gateReadings "c" 100000 100000 ++ t) () ∧
    Accounted g .stale (gateReadings "c" 100000 100000 ++ t) := by
  have hrole : HandlersAux.knownRole (ctx [datedTx]) (submitOf datedTx "c" "k").serviceIdentity = .ok () := by
    rw [HandlersAux.knownRole, if_neg (by decide)]
  have hage : 100000 - (submitOf datedTx "c" "k").createdAtMs > stalenessMs := by decide
  obtain ⟨⟨t, ht⟩, haccounted⟩ := gate_refusals_accounted (Γ := ctx [datedTx])
    (d := .submit (.ok (submitOf datedTx "c" "k"))) rfl (.stale rfl rfl hrole hage)
  exact ⟨_, t, rfl, ht, haccounted t ht⟩

end ChainBridge
