import ChainBridge.Lemmas.Courses
import ChainBridge.Lemmas.StoreRuns
import ChainBridge.Theorems.Dedup

/-!
# No claim is orphaned

A claim expires, another handler takes the key over, and the late one then records or removes what is not its own any more. However
these steps fall, a claim that is in flight in the store belongs to a handler that has not finished: whoever finishes a key leaves
no claim there, and whoever claims it is the one to finish. A handler that runs to its end has finished its claim.
-/

namespace ChainBridge

open Interleave

namespace OrphansAux

open ClaimsAux DedupAux HandlersAux StoreAux

variable {Γ : Ctx}

/-! ## A handler that has returned -/

/-- A call that closes a claim. -/
def Call.closes : Call → Bool
  | .dedupInsert _ _ => true
  | .dedupRemove _ => true
  | _ => false

/-- A call that may open a claim. -/
def Call.opens : Call → Bool
  | .claim _ _ _ => true
  | _ => false

theorem heldClaim_append (t u : List CallEvent) : heldClaim (t ++ u) = u.foldl nextClaim (heldClaim t) := by
  rw [heldClaim, List.foldl_append, heldClaim]

theorem nextClaim_offStore (held : Option (String × Nat)) {e : CallEvent} (h : Call.onStore e.1 = false) :
    nextClaim held e = held := by
  obtain ⟨c, a⟩ := e
  cases c <;> first | rfl | cases h

theorem foldl_nextClaim_offStore (held : Option (String × Nat)) {t : List CallEvent}
    (h : ∀ e ∈ t, Call.onStore e.1 = false) : t.foldl nextClaim held = held := by
  induction t generalizing held with
  | nil => rfl
  | cons e t ih =>
    obtain ⟨he, ht⟩ := List.forall_mem_cons.mp h
    rw [List.foldl_cons, nextClaim_offStore held he]
    exact ih held ht

/-- A claim that is not held stays so without a new claim, and one that is held is not once it is closed. -/
theorem foldl_nextClaim_closed {t : List CallEvent} (hopen : ∀ e ∈ t, Call.opens e.1 = false) (held : Option (String × Nat))
    (h : held = none ∨ ∃ e ∈ t, Call.closes e.1 = true) : t.foldl nextClaim held = none := by
  induction t generalizing held with
  | nil =>
    rcases h with rfl | ⟨e, he, -⟩
    · rfl
    · cases he
  | cons e t ih =>
    obtain ⟨he, ht⟩ := List.forall_mem_cons.mp hopen
    refine ih ht (nextClaim held e) ?_
    obtain ⟨c, a⟩ := e
    cases hc : Call.closes c with
    | true =>
      refine Or.inl ?_
      cases c <;> first | rfl | cases hc
    | false =>
      have hsame : nextClaim held ⟨c, a⟩ = held := by
        refine nextClaim_offStore held ?_
        cases c <;> first | rfl | (cases hc; done) | cases he
      rw [hsame]
      refine h.imp_right fun ⟨e', he', hcloses⟩ => ?_
      rcases List.mem_cons.mp he' with rfl | he'
      · rw [hc] at hcloses
        cases hcloses
      · exact ⟨e', he', hcloses⟩

theorem onStore_of_work {c : Call} (h : c.isWork = true) : Call.onStore c = false := by
  cases c <;> first | rfl | cases h

theorem onStore_of_gate {c : Call} (h : c.isGate = true) : Call.onStore c = false := by
  cases c <;> first | rfl | cases h

/-- The calls that finish an attempt open no claim, and close the claim of the key. -/
theorem heldClaim_finished {correlationId replySubject : String} {key : Option String} {nowMs : Nat} {reply : Reply}
    {done : Option (String × Nat)} {t : List CallEvent}
    (h : Prog.Exec (Prog.performAll (finishCalls correlationId replySubject key nowMs reply done) : Handler Unit) t ())
    {held : Option (String × Nat)} (hheld : key = none → held = none) : t.foldl nextClaim held = none := by
  have hcalls := Prog.exec_performAll h
  have hmem : ∀ e ∈ t, e.1 ∈ finishCalls correlationId replySubject key nowMs reply done := fun e he =>
    hcalls ▸ List.mem_map_of_mem he
  refine foldl_nextClaim_closed (fun e he => ?_) held ?_
  · have hfinish := CoursesAux.isFinish_of_finishCalls _ (hmem e he)
    cases hc : e.1 <;> first | rfl | (rw [hc] at hfinish; cases hfinish)
  · cases key with
    | none => exact Or.inl (hheld rfl)
    | some key =>
      refine Or.inr ?_
      have hclose : ∃ c ∈ t.map (·.1), Call.closes c = true := by
        rw [hcalls]
        cases done with
        | none => exact ⟨_, List.mem_cons_self, rfl⟩
        | some out => exact ⟨_, List.mem_cons_of_mem _ List.mem_cons_self, rfl⟩
      obtain ⟨c, hc, hcloses⟩ := hclose
      obtain ⟨e, he, rfl⟩ := List.mem_map.mp hc
      exact ⟨e, he, hcloses⟩

/-- A claim that was answered is not held, whatever is done then outside the store. -/
theorem heldClaim_replayed {key : Option String} {correlationId : String} {authMs nowMs : Nat} {result : TxResultMessage}
    {t : List CallEvent} (h : ∀ e ∈ t, Call.onStore e.1 = false) :
    heldClaim (claimTrace key correlationId authMs nowMs (some result) ++ t) = none := by
  have hclaim : heldClaim (claimTrace key correlationId authMs nowMs (some result)) = none := by
    cases key <;> rfl
  rw [heldClaim_append, hclaim]
  exact foldl_nextClaim_offStore none h

/-- A claim that went through is not held after the attempt is finished. -/
theorem heldClaim_attempted {key : Option String} {correlationId replySubject : String} {authMs nowMs : Nat} {reply : Reply}
    {done : Option (String × Nat)} {t₁ t₂ : List CallEvent} (hwork : ∀ e ∈ t₁, e.1.isWork = true)
    (hfinish : Prog.Exec (Prog.performAll (finishCalls correlationId replySubject key nowMs reply done) : Handler Unit) t₂ ()) :
    heldClaim (claimTrace key correlationId authMs nowMs none ++ (t₁ ++ t₂)) = none := by
  rw [heldClaim_append, List.foldl_append, foldl_nextClaim_offStore _ fun e he => onStore_of_work (hwork e he)]
  refine heldClaim_finished hfinish fun hkey => ?_
  subst hkey
  rfl

theorem heldClaim_of_gates {t : List CallEvent} (h : ∀ e ∈ t, e.1.isGate = true) : heldClaim t = none :=
  foldl_nextClaim_offStore none fun e he => onStore_of_gate (h e he)

/-- The calls that report the answer to a claim leave the store alone. -/
theorem offStore_replay {subject : String} {reply : Reply} {t : List CallEvent} {q : Handler Unit}
    (h : Prog.Steps (do publish subject reply; ack .ack) t q) : ∀ e ∈ t, Call.onStore e.1 = false := by
  have hoff : OffStore (do publish subject reply; ack .ack) := ⟨rfl, fun _ => ⟨rfl, fun _ => trivial⟩⟩
  exact (Prog.only_steps hoff h).1

/-- A handler that has returned holds no claim. -/
theorem heldClaim_of_returned {d : Delivery} {t : List CallEvent} (h : Prog.Exec (dispatch Γ d) t ()) : heldClaim t = none := by
  cases d with
  | submit payload =>
    rcases steps_handleSubmit h with hgates | ⟨envelope, authMs, nowMs, tx, a, t', -, -, -, rfl, h'⟩
    · exact heldClaim_of_gates hgates
    cases a with
    | some result => exact heldClaim_replayed (offStore_replay h')
    | none =>
      rw [submitClaimed, submitEffect_eq] at h'
      obtain ⟨t₁, t₂, r, rfl, hsign, hfinish⟩ := Prog.exec_bind.mp h'
      have hretry : Work (submitWithRetry Γ envelope) (fun _ => True) :=
        work_of_signing (only_retrySpawn (signing_signAndSubmit ..) retryDelays)
      rw [submitFinish_eq] at hfinish
      exact heldClaim_attempted (Prog.only_steps hretry hsign).1 hfinish
  | mint payload =>
    rcases steps_handleMint h with hgates | ⟨envelope, authMs, nowMs, a, t', -, -, rfl, h'⟩
    · exact heldClaim_of_gates hgates
    cases a with
    | some result => exact heldClaim_replayed (offStore_replay h')
    | none =>
      rw [mintClaimed, mintEffect_eq] at h'
      obtain ⟨t₁, t₂, r, rfl, hbuild, hfinish⟩ := Prog.exec_bind.mp h'
      rw [mintFinish_eq] at hfinish
      exact heldClaim_attempted (Prog.only_steps (work_buildAndSubmitGenerationMint ..) hbuild).1 hfinish
  | cancel payload => exact foldl_nextClaim_offStore none (Prog.only_steps (offStore_handleCancel payload) h).1
  | status payload =>
    have hoff := offStore_of_request (Γ := Γ) (d := .status payload) rfl
    exact foldl_nextClaim_offStore none (Prog.only_steps hoff h).1
  | unknown subject => exact heldClaim_of_gates (Prog.only_steps (gate_ack .ack) h).1

/-! ## Claims in flight -/

/-- What a view of a session satisfies. -/
structure OrphansInv (v : BridgeView) : Prop where
  faithful : Faithful v
  shown : Shown v
  tended : (claimsOf v).Tended (lastWrite · v.log)

theorem orphansInv_init (w : Session) (hw : w.dedupStore = .empty) : OrphansInv (View.init w) where
  faithful := faithful_init w
  shown := fun _ => rfl
  tended := fun key rec hrec => by
    have hempty : w.dedupStore.get? key = some rec := hrec
    rw [hw] at hempty
    cases hempty

theorem OrphansInv.step {v u : BridgeView} {l : BridgeLabel} (hv : OrphansInv v) (hin : InSession l)
    (h : View.Step (bridge Γ) (protocol Γ) v l u) : OrphansInv u where
  faithful := hv.faithful.step h
  shown := hv.shown.step hin h
  tended := by
    have htended := hv.tended.step (claims_step hv.faithful h)
    simp only [write_eventOf] at htended
    rw [h.log_eq]
    simp only [lastWrite_snoc]
    exact htended

variable {w : Session} {p : BridgePool}

/-- A claim in flight was written by a handler that holds it, and whose key it is. -/
theorem holder_of_inFlight (h : Pool.Reach (bridge Γ) (fun _ _ l => InSession l) (Pool.init w) p) (hw : w.dedupStore = .empty)
    {key : String} {rec : DedupRecord} (hrec : p.world.dedupStore.get? key = some rec) (hin : rec.state = .inFlight) :
    ∃ t nowMs, lastWrite key p.log = some (t, rec) ∧ heldClaim (traceOf t p.log) = some (key, nowMs) ∧
      keyOf t p.log = some key := by
  obtain ⟨phase, hv, -⟩ := h.invariant (dispatch_wp Γ) OrphansInv (orphansInv_init w hw) fun v l u hv hc hs => hv.step hc hs
  obtain ⟨t, nowMs, accepted, hwrote, hholder⟩ := hv.tended key rec hrec hin
  refine ⟨t, nowMs, hwrote, ?_, ?_⟩
  · rw [hv.shown t, hholder]
    rfl
  · have hphase : (phase t).bind Progress.holding = some ⟨key, nowMs, accepted⟩ := hholder
    rw [Option.bind_eq_some_iff] at hphase
    obtain ⟨s, hs, hholding⟩ := hphase
    have hkey : keyOf t p.log = s.key := hv.faithful.keyOf_eq hs
    rw [hkey]
    unfold Progress.holding at hholding
    split at hholding
    · rename_i hk _
      cases hholding
      exact hk
    · rename_i hk _
      cases hholding
      exact hk
    · cases hholding

/-- In a session, a handler whose program is at its end has returned. -/
theorem exec_of_thread (h : Pool.Reach (bridge Γ) (fun _ _ l => InSession l) (Pool.init w) p) {t : Nat} {d : Delivery}
    (ht : p.threads t = some (d, .ret ())) : Prog.Exec (dispatch Γ d) (traceOf t p.log) () := by
  obtain ⟨q, hsteps, rfl | ⟨-, m, hm, hcut⟩⟩ := ((Pool.known_some ht).mp (h.known t)).steps
  · exact hsteps
  · obtain ⟨w', log, hin⟩ := h.mem_log hm
    cases m with
    | reconnect => exact hin.elim
    | _ => cases hcut

end OrphansAux

open OrphansAux

/-- No claim is orphaned. In every state of a session, a claim in flight was written by a handler that has not taken its finish
step. Once every handler of a key has taken it, a new request with the key is replayed from a completed effect or goes through;
and a handler that has returned has taken it. -/
theorem no_orphan_claims {Γ : Ctx} {clock : Nat} {blockhash : Option (Hash × Nat)} {p : BridgePool}
    (h : Pool.Reach (bridge Γ) (fun _ _ l => InSession l) (Pool.init (.fresh clock blockhash)) p) :
    (∀ key rec, p.world.dedupStore.get? key = some rec → rec.state = .inFlight →
      ∃ t nowMs, lastWrite key p.log = some (t, rec) ∧ heldClaim (traceOf t p.log) = some (key, nowMs)) ∧
    (∀ key, (∀ t, keyOf t p.log = some key → heldClaim (traceOf t p.log) = none) → ∀ c nowMs,
      (claimOrReplay p.world.dedupStore (some key) c nowMs).1 = none ∨
      ∃ signature slot, (claimOrReplay p.world.dedupStore (some key) c nowMs).1 = some (replayOf (.done signature slot) c)) ∧
    ∀ t d, p.threads t = some (d, .ret ()) → heldClaim (traceOf t p.log) = none := by
  refine ⟨fun key rec hrec hin => ?_, fun key hfinished c nowMs => ?_, fun t d ht => heldClaim_of_returned (exec_of_thread h ht)⟩
  · obtain ⟨t, nowMs, hwrote, hheld, -⟩ := holder_of_inFlight h rfl hrec hin
    exact ⟨t, nowMs, hwrote, hheld⟩
  · cases hout : (claimOrReplay p.world.dedupStore (some key) c nowMs).1 with
    | none => exact Or.inl rfl
    | some r =>
      obtain ⟨k, rec, hk, hrec, -, rfl, -⟩ := claimOrReplay_replays hout
      obtain rfl := Option.some.inj hk
      cases hstate : rec.state with
      | done signature slot => exact Or.inr ⟨signature, slot, rfl⟩
      | inFlight =>
        obtain ⟨t, n, -, hheld, hkey⟩ := holder_of_inFlight h rfl hrec hstate
        rw [hfinished t hkey] at hheld
        cases hheld

namespace OrphansAux

open SampleAux

/-- A submit that has lost its claim to a second one, after 120 seconds, and has still not finished. -/
def takenOverScript : Script :=
  [.deliver 0 (.submit (.ok (submitOf datedTx "c1" "k")))] ++ calls 0 4 ++
    [.env (.tick 121000), .deliver 1 (.submit (.ok { submitOf datedTx "c2" "k" with createdAtMs := 121000 }))] ++ calls 1 4 ++
    calls 0 4

end OrphansAux

open SampleAux in
/-- The claim of the second submit, which took the key over, is held by it. -/
theorem taken_over_claim_is_held : ∃ p : BridgePool,
    Pool.Reach (bridge (ctx [datedTx])) (fun _ _ l => InSession l) (Pool.init (.fresh 1000 none)) p ∧
    p.world.dedupStore.get? "submit:k" = some (claimAt 121000) ∧
    ∃ t nowMs, lastWrite "submit:k" p.log = some (t, claimAt 121000) ∧
      heldClaim (traceOf t p.log) = some ("submit:k", nowMs) := by
  have hrun : ((Pool.init (.fresh 1000 none) : BridgePool).exec (bridge (ctx [datedTx])) (fun _ _ l => sessionStep l)
      takenOverScript).any (fun p => decide (p.world.dedupStore.get? "submit:k" = some (claimAt 121000))) = true := by
    decide +kernel
  obtain ⟨p, hp, htest⟩ := Pool.exists_reach_of_exec (C := fun _ _ l => InSession l)
    (fun _ _ _ h => inSession_of_sessionStep h) hrun
  have hstored := of_decide_eq_true htest
  exact ⟨p, hp, hstored, (no_orphan_claims hp).1 _ _ hstored rfl⟩

end ChainBridge
