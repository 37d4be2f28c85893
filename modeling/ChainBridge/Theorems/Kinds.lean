import ChainBridge.Lemmas.Claims
import ChainBridge.Lemmas.Courses
import ChainBridge.Lemmas.Sample

/-!
# Duplicates and the kinds of requests

Submits, mints and cancels record their correlation ids in one map, with no mark of the kind but the prefix that a cancel adds for
itself. So a request is dropped as a duplicate for a request of another kind when the ids meet. Where no submit shares its id
with a mint, and no request is named by the mark of a cancellation, every drop is for an earlier request of its own kind, or for
a cancellation of its id.
-/

namespace ChainBridge

open Interleave

/-- A submit with this correlation id had a submission accepted. -/
def SubmitSucceeded (log : History) (c : String) : Prop :=
  ∃ u envelope sig, .deliver u (.submit (.ok envelope)) ∈ log ∧ envelope.correlationId = c ∧ Accepted (traceOf u log) sig

/-- A mint with this correlation id had a submission accepted, and a poll confirmed it. -/
def MintSucceeded (log : History) (c : String) : Prop :=
  ∃ u envelope sig slot answer, .deliver u (.mint (.ok envelope)) ∈ log ∧ envelope.correlationId = c ∧
    Accepted (traceOf u log) sig ∧ .call u ⟨.getSignatureStatuses sig, answer⟩ ∈ log ∧
    pollVerdict answer = some (.confirmed slot)

/-- A cancel of this correlation id passed every gate at its readings. -/
def CancelAccepted (Γ : Ctx) (log : History) (c : String) : Prop :=
  ∃ u envelope authMs nowMs rest, .deliver u (.cancel (.ok envelope)) ∈ log ∧ envelope.correlationId = c ∧
    traceOf u log = ⟨.now, authMs⟩ :: ⟨.cacheContains (cancelKey c), false⟩ :: ⟨.now, nowMs⟩ :: rest ∧
    envelopeDecision Γ envelope.auth envelope.serviceIdentity (Γ.canonicalCancelBytes envelope) false authMs = .ok () ∧
    Γ.serviceRole ⟨envelope.serviceIdentity⟩ ≠ .unknown ∧ nowMs - envelope.createdAtMs ≤ stalenessMs

/-- A request may be dropped as a duplicate: one of its kind with its id succeeded, or a cancel of its id was accepted. -/
def DropJustified (Γ : Ctx) (log : History) : Delivery → Prop
  | .submit (.ok envelope) =>
    SubmitSucceeded log envelope.correlationId ∨ CancelAccepted Γ log envelope.correlationId
  | .mint (.ok envelope) => MintSucceeded log envelope.correlationId ∨ CancelAccepted Γ log envelope.correlationId
  | .cancel (.ok envelope) => CancelAccepted Γ log envelope.correlationId
  | _ => True

/-- A request that has just found its key, and is dropped, is justified by the history before. -/
def DropsWithinKind (Γ : Ctx) (log : History) : Prop :=
  ∀ before t key d, log = before ++ [.call t ⟨.cacheContains key, true⟩] → .deliver t d ∈ before → DropJustified Γ before d

/-- The correlation id under which a request is recorded. -/
def Delivery.requestId : Delivery → Option String
  | .submit (.ok envelope) => some envelope.correlationId
  | .mint (.ok envelope) => some envelope.correlationId
  | .cancel (.ok envelope) => some envelope.correlationId
  | _ => none

/-- A submit and a mint share their correlation id, or a request has the mark of the other one's cancellation for its id. -/
inductive Meets : Delivery → Delivery → Prop where
  | shared {s : TxSubmitMessage} {m : MintEnergyMessage} (h : s.correlationId = m.correlationId) :
      Meets (.submit (.ok s)) (.mint (.ok m))
  | marked {c : TxCancelMessage} {d : Delivery} (h : d.requestId = some (cancelKey c.correlationId)) :
      Meets (.cancel (.ok c)) d

/-- A delivery whose id meets no id delivered before. The condition is sufficient, not exact: ids that meet do no harm while
neither is recorded. -/
def KindsApart (_ : Session) (log : History) (l : BridgeLabel) : Prop :=
  ∀ t d, l = .deliver t d → ∀ u d', .deliver u d' ∈ log → ¬Meets d d' ∧ ¬Meets d' d

namespace KindsAux

open HandlersAux CoursesAux ClaimsAux

variable {Γ : Ctx} {p : BridgePool} {clock : Nat} {blockhash : Option (Hash × Nat)}

/-- No request is named by the mark of its own cancellation. -/
theorem cancelKey_ne (c : String) : cancelKey c ≠ c := by
  intro h
  have hlen := congrArg String.length h
  simp [cancelKey, String.length_append] at hlen

theorem cancelKey_inj {c c' : String} (h : cancelKey c = cancelKey c') : c = c' := (String.append_right_inj _).mp h

theorem not_meets_self (d : Delivery) : ¬Meets d d := by
  intro h
  cases h with
  | marked h =>
    simp only [Delivery.requestId, Option.some.injEq] at h
    exact cancelKey_ne _ h.symm

/-- In a run that keeps the kinds apart no two ids meet. -/
theorem not_meets {w : Session} (h : Pool.Reach (bridge Γ) KindsApart (Pool.init w) p) {u u' : Nat} {d d' : Delivery}
    (hd : .deliver u d ∈ p.log) (hd' : .deliver u' d' ∈ p.log) : ¬Meets d d' := by
  induction h with
  | refl => cases hd
  | @step p q l _ hc hs ih =>
    rw [hs.log_eq, List.mem_append, List.mem_singleton] at hd hd'
    rcases hd with hd | hd <;> rcases hd' with hd' | hd'
    · exact ih hd hd'
    · exact (hc u' d' hd'.symm u d hd).2
    · exact (hc u d hd.symm u' d' hd').1
    · have heq := hd.trans hd'.symm
      cases heq
      exact not_meets_self d

/-! ## Where a key in the cache comes from -/

/-- A key that is stored was recorded by some handler. -/
theorem recorded_of_cached {C : Session → History → BridgeLabel → Prop}
    (h : Pool.Reach (bridge Γ) C (Pool.init (.fresh clock blockhash)) p) {key : String}
    (hkey : p.world.idempotencyCache.contains key = true) : ∃ u expiryMs, .call u ⟨.cacheInsert key expiryMs, ()⟩ ∈ p.log := by
  induction h with
  | refl => cases hkey
  | @step p q l _ hc hs ih =>
    have hold : p.world.idempotencyCache.contains key = true → ∃ u expiryMs,
        .call u ⟨.cacheInsert key expiryMs, ()⟩ ∈ q.log := by
      intro hbefore
      obtain ⟨u, expiryMs, hmem⟩ := ih hbefore
      rw [hs.log_eq]
      exact ⟨u, expiryMs, List.mem_append_left _ hmem⟩
    cases hs with
    | deliver t m hn => exact hold hkey
    | @call t m c k r hthread =>
      cases c with
      | cacheInsert key' expiryMs =>
        by_cases heq : key = key'
        · subst heq
          exact ⟨t, expiryMs, List.mem_append_right _ List.mem_cons_self⟩
        · refine hold ?_
          have hsame := p.world.idempotencyCache.get?_insert_of_ne expiryMs heq
          rw [KeyMap.contains, ← hsame]
          exact hkey
      | _ => exact hold hkey
    | @env w e he =>
      cases e with
      | reconnect =>
        cases he
        cases hkey
      | tick clock =>
        simp only [bridge, Session.move, Option.ite_none_right_eq_some, Option.some.injEq] at he
        obtain ⟨-, rfl⟩ := he
        exact hold hkey
      | sweep nowMs =>
        simp only [bridge, Session.move, Option.ite_none_right_eq_some, Option.some.injEq] at he
        obtain ⟨-, rfl⟩ := he
        exact hold hkey
      | refresh hash height =>
        cases he
        exact hold hkey

/-- Whose key is recorded, and what the history says of it. -/
inductive Recorded (Γ : Ctx) (log : History) (key : String) : Delivery → Prop where
  | submit {s : TxSubmitMessage} (hkey : key = s.correlationId) (h : SubmitSucceeded log key) :
      Recorded Γ log key (.submit (.ok s))
  | mint {m : MintEnergyMessage} (hkey : key = m.correlationId) (h : MintSucceeded log key) :
      Recorded Γ log key (.mint (.ok m))
  | cancel {c : TxCancelMessage} (hkey : key = cancelKey c.correlationId ∨ key = c.correlationId)
      (h : CancelAccepted Γ log c.correlationId) : Recorded Γ log key (.cancel (.ok c))

theorem recorded_of_cacheInsert {C : Session → History → BridgeLabel → Prop} {w : Session}
    (h : Pool.Reach (bridge Γ) C (Pool.init w) p) {u : Nat} {key : String} {expiryMs : Nat} {a : Unit}
    (he : .call u ⟨.cacheInsert key expiryMs, a⟩ ∈ p.log) : ∃ d, .deliver u d ∈ p.log ∧ Recorded Γ p.log key d := by
  obtain ⟨d, q, hdelivered, hsteps⟩ := h.steps he
  have hd : .deliver u d ∈ p.log := (hdelivered d).mpr rfl
  have hmem := Pool.mem_traceOf.mpr he
  refine ⟨d, hd, ?_⟩
  cases d with
  | submit payload =>
    cases payload with
    | error e => cases (Prog.only_steps (gate_ack .term) hsteps).1 _ hmem
    | ok s =>
      obtain ⟨rfl, t₁, reply, out, hsub, r, haccepted, -, hdone⟩ := (course_submit hsteps).cacheInsert hmem
      cases r with
      | error stage => cases hdone
      | ok o =>
        obtain ⟨tx, hsent⟩ := (haccepted o.1).mpr ⟨o.2, rfl⟩
        exact .submit rfl ⟨u, s, o.1, hd, rfl, tx, hsub _ hsent⟩
  | mint payload =>
    cases payload with
    | error e => cases (Prog.only_steps (gate_ack .term) hsteps).1 _ hmem
    | ok m =>
      obtain ⟨rfl, t₁, reply, out, hsub, r, haccepted, -, hdone⟩ := (course_mint hsteps).cacheInsert hmem
      cases r with
      | error stage => cases hdone
      | ok o =>
        obtain ⟨⟨tx, hsent⟩, answer, hpoll, hconf⟩ := (haccepted o.1 o.2).mp rfl
        exact .mint rfl ⟨u, m, o.1, o.2, answer, hd, rfl, ⟨tx, hsub _ hsent⟩, Pool.mem_traceOf.mp (hsub _ hpoll), hconf⟩
  | cancel payload =>
    rcases steps_handleCancel hsteps with hgates | ⟨c, authMs, nowMs, t', rfl, hpasses, htrace, hrest⟩
    · cases hgates _ hmem
    · have hkey : key = cancelKey c.correlationId ∨ key = c.correlationId := by
        rw [htrace] at hmem
        rcases List.mem_append.mp hmem with hmem | hmem
        · simp [Gates.passed] at hmem
        · rw [cancelRest_eq] at hrest
          have hcall := mem_of_performAll hrest hmem
          simp only [List.mem_cons, Call.cacheInsert.injEq, reduceCtorEq, List.not_mem_nil, or_false] at hcall
          exact hcall.imp (fun h => h.1) fun h => h.1
      refine .cancel hkey ⟨u, c, authMs, nowMs, t', hd, rfl, htrace, hpasses.authenticated, ?_, hpasses.recent⟩
      intro hunknown
      have hknown := hpasses.permitted
      simp [cancelGates, knownRole, hunknown] at hknown
  | status payload =>
    have hstatus : (handleStatus Γ payload).Only (fun c => ∀ k n, c ≠ .cacheInsert k n) (fun _ => True) :=
      only_handleStatus (fun _ _ h => by cases h) (fun _ _ _ h => by cases h) (fun _ _ _ h => by cases h)
        (fun _ _ _ _ h => by cases h) (fun _ _ _ h => by cases h) payload
    exact ((Prog.only_steps hstatus hsteps).1 _ hmem key expiryMs rfl).elim
  | unknown subject => cases (Prog.only_steps (gate_ack .ack) hsteps).1 _ hmem

/-! ## What a handler looks up -/

/-- The key a request looks up. -/
def lookupKey : Delivery → Option String
  | .submit (.ok envelope) => some envelope.correlationId
  | .mint (.ok envelope) => some envelope.correlationId
  | .cancel (.ok envelope) => some (cancelKey envelope.correlationId)
  | _ => none

/-- The program looks up this key only. -/
abbrev LooksUp (o : Option String) {α : Type} (p : Handler α) : Prop :=
  p.Only (fun c => ∀ key, c = .cacheContains key → o = some key) (fun _ => True)

theorem looksUp_of_only {o : Option String} {α : Type} {p : Handler α} {K : Call → Prop} {R : α → Prop} (hp : p.Only K R)
    (hK : ∀ key, ¬K (.cacheContains key)) : LooksUp o p :=
  Prog.only_mono hp (fun _ hc key heq => (hK key (heq ▸ hc)).elim) fun _ _ => trivial

theorem looksUp_refuse (o : Option String) (correlationId claimedIdentity action stage reason subject : String) (reply : Reply)
    (kind : AckKind) : LooksUp o (refuse correlationId claimedIdentity action stage reason subject reply kind) :=
  only_refuse (fun _ h => by cases h) (fun _ _ h => by cases h) (fun _ _ _ h => by cases h) (fun _ _ h => by cases h) ..

theorem looksUp_performAll (o : Option String) {is : List Call} (h : ∀ key, .cacheContains key ∉ is) :
    LooksUp o (Prog.performAll is) :=
  Prog.only_performAll fun _ hi key heq => (h key (heq ▸ hi)).elim

theorem looksUp_of_work (o : Option String) {α : Type} {p : Handler α} (hp : Work p (fun _ => True)) : LooksUp o p :=
  looksUp_of_only hp fun key h => by cases h

theorem cacheContains_not_mem_finishCalls (correlationId replySubject : String) (key : Option String) (nowMs : Nat) (reply : Reply)
    (done : Option (String × Nat)) (k : String) :
    .cacheContains k ∉ finishCalls correlationId replySubject key nowMs reply done := by
  cases done <;> cases key <;> simp [finishCalls]

theorem looksUp_submitChecked (o : Option String) (envelope : TxSubmitMessage) (nowMs : Nat) :
    LooksUp o (submitChecked Γ envelope nowMs) := by
  unfold submitChecked
  simp only
  split
  · exact ⟨fun _ h => (by cases h), fun _ => ⟨fun _ h => (by cases h), fun _ => trivial⟩⟩
  split
  · exact looksUp_refuse ..
  split
  · exact looksUp_refuse ..
  refine Prog.only_perform.mpr ⟨fun _ h => (by cases h), fun a => ?_⟩
  cases a with
  | some result => exact ⟨fun _ h => (by cases h), fun _ => ⟨fun _ h => (by cases h), fun _ => trivial⟩⟩
  | none =>
    simp only [submitEffect_eq]
    refine Prog.only_bind (looksUp_of_work o (work_of_signing (only_retrySpawn (signing_signAndSubmit ..) retryDelays)))
      fun r _ => ?_
    rw [submitFinish_eq]
    exact looksUp_performAll o fun k => cacheContains_not_mem_finishCalls _ _ _ _ _ _ k

theorem looksUp_mintRest (o : Option String) (envelope : MintEnergyMessage) (nowMs : Nat) :
    LooksUp o (mintRest Γ envelope nowMs) := by
  refine Prog.only_perform.mpr ⟨fun _ h => (by cases h), fun a => ?_⟩
  cases a with
  | some result => exact ⟨fun _ h => (by cases h), fun _ => ⟨fun _ h => (by cases h), fun _ => trivial⟩⟩
  | none =>
    rw [mintClaimed, mintEffect_eq]
    refine Prog.only_bind (looksUp_of_work o (work_buildAndSubmitGenerationMint ..)) fun r _ => ?_
    rw [mintFinish_eq]
    exact looksUp_performAll o fun k => cacheContains_not_mem_finishCalls _ _ _ _ _ _ k

/-- A handler with gates looks its key up, and nothing else when its rest looks nothing up. -/
theorem looksUp_run {g : Gates} {rest : Nat → Handler Unit} (hauth : ∀ reason, LooksUp (some g.lookup) (g.refuseAuth reason))
    (hrole : LooksUp (some g.lookup) g.refuseRole) (hstale : ∀ nowMs, LooksUp (some g.lookup) (g.refuseStale nowMs))
    (hrest : ∀ nowMs, LooksUp (some g.lookup) (rest nowMs)) : LooksUp (some g.lookup) (g.run rest) :=
  Gates.only_run (fun _ h => by cases h) (fun key h => by cases h; rfl) (fun _ h => by cases h) hauth hrole hstale hrest

theorem looksUp_dispatch (d : Delivery) : LooksUp (lookupKey d) (dispatch Γ d) := by
  have hack : ∀ kind, LooksUp none (ack kind) := fun kind => ⟨fun _ h => (by cases h), fun _ => trivial⟩
  cases d with
  | submit payload =>
    cases payload with
    | error e => exact hack .term
    | ok envelope =>
      rw [dispatch, handleSubmit_eq]
      exact looksUp_run (g := submitGates Γ envelope) (fun _ => looksUp_refuse ..) (looksUp_refuse ..)
        (fun _ => looksUp_refuse ..) fun nowMs => looksUp_submitChecked ..
  | cancel payload =>
    cases payload with
    | error e => exact hack .term
    | ok envelope =>
      rw [dispatch, handleCancel_eq]
      refine looksUp_run (g := cancelGates Γ envelope) (fun _ => looksUp_refuse ..) (looksUp_refuse ..)
        (fun _ => looksUp_refuse ..) fun nowMs => ?_
      rw [cancelRest_eq]
      exact looksUp_performAll _ fun key => by simp
  | mint payload =>
    cases payload with
    | error e => exact hack .term
    | ok envelope =>
      rw [dispatch, handleMint_eq]
      exact looksUp_run (g := mintGates Γ envelope) (fun _ => looksUp_refuse ..) (looksUp_refuse ..)
        (fun _ => looksUp_refuse ..) fun nowMs => looksUp_mintRest ..
  | status payload =>
    exact only_handleStatus (fun _ h => by cases h) (fun _ _ h => by cases h) (fun _ _ h => by cases h)
      (fun _ _ _ h => by cases h) (fun _ _ h => by cases h) payload
  | unknown subject => exact hack .ack

/-- A request whose key was recorded by a request that it does not meet is justified. -/
theorem justified_of_recorded {log : History} {key : String} {d d' : Delivery} (hlookup : lookupKey d = some key)
    (hrec : Recorded Γ log key d') (hmeets : ¬Meets d d') (hmeets' : ¬Meets d' d) : DropJustified Γ log d := by
  unfold lookupKey at hlookup
  split at hlookup
  · rename_i s
    cases hlookup
    cases hrec with
    | submit hkey h => exact Or.inl h
    | mint hkey h => exact (hmeets (.shared hkey)).elim
    | @cancel c hkey h =>
      rcases hkey with hkey | hkey
      · exact (hmeets' (.marked (congrArg some hkey))).elim
      · exact Or.inr (hkey ▸ h)
  · rename_i m
    cases hlookup
    cases hrec with
    | submit hkey h => exact (hmeets' (.shared hkey.symm)).elim
    | mint hkey h => exact Or.inl h
    | @cancel c hkey h =>
      rcases hkey with hkey | hkey
      · exact (hmeets' (.marked (congrArg some hkey))).elim
      · exact Or.inr (hkey ▸ h)
  · rename_i c
    cases hlookup
    cases hrec with
    | submit hkey h => exact (hmeets (.marked (congrArg some hkey.symm))).elim
    | mint hkey h => exact (hmeets (.marked (congrArg some hkey.symm))).elim
    | @cancel c' hkey h =>
      rcases hkey with hkey | hkey
      · have hid := cancelKey_inj hkey
        rw [DropJustified, hid]
        exact h
      · exact (hmeets (.marked (congrArg some hkey.symm))).elim
  · cases hlookup

end KindsAux

open KindsAux in
/-- In every run whose deliveries keep the kinds apart, a request is dropped as a duplicate only for a request of its kind that
succeeded under its id, or for an accepted cancel of its id. -/
theorem drops_within_kind {Γ : Ctx} {clock : Nat} {blockhash : Option (Hash × Nat)} {p : BridgePool}
    (h : Pool.Reach (bridge Γ) KindsApart (Pool.init (.fresh clock blockhash)) p) : DropsWithinKind Γ p.log := by
  intro before t key d hlog hd
  obtain ⟨p₁, q₁, hr, hc, hs, rfl⟩ := h.step_of_split hlog
  obtain ⟨m, k, r, hthread, hfound, -⟩ := hs.call_inv
  obtain rfl : m = d := (hr.steps_of_deliver hd).1 m (hr.deliver_of_thread hthread)
  obtain ⟨u, expiryMs, hinsert⟩ := recorded_of_cached hr hfound.symm
  obtain ⟨d', hd', hrec⟩ := recorded_of_cacheInsert hr hinsert
  have hlookup := (Prog.only_steps (looksUp_dispatch m) (hr.steps_of_thread hthread)).2.1 key rfl
  exact justified_of_recorded hlookup hrec (not_meets hr hd hd') (not_meets hr hd' hd)

namespace KindsAux

open SampleAux

/-- A submit, and a mint under the same correlation id once the submit has succeeded. -/
def sharedIdScript : Script :=
  [.deliver 0 (.submit (.ok { submitOf mintTx "mint-1" "k" with createdAtMs := 1800000000000 }))] ++ calls 0 15 ++
    [.deliver 1 (.mint (.ok signedMint))] ++ calls 1 2

/-- A submit, and the same again once it has succeeded. -/
def repeatedScript : Script :=
  [.deliver 0 (.submit (.ok (submitOf datedTx "c" "k")))] ++ calls 0 13 ++
    [.deliver 1 (.submit (.ok (submitOf datedTx "c" "k")))] ++ calls 1 2

/-- The label of a request of handler 1 that found its key. -/
def isFound : BridgeLabel → Bool
  | .call 1 ⟨.cacheContains _, true⟩ => true
  | _ => false

/-- The delivery of the signed mint to handler 1. -/
def isMint : BridgeLabel → Bool
  | .deliver 1 (.mint (.ok envelope)) => decide (envelope = signedMint)
  | _ => false

/-- A label that is no cancel and no poll. -/
def isOther : BridgeLabel → Bool
  | .deliver _ (.cancel _) => false
  | .call _ ⟨.getSignatureStatuses _, _⟩ => false
  | _ => true

theorem eq_of_isFound {l : BridgeLabel} (h : isFound l = true) : ∃ key, l = .call 1 ⟨.cacheContains key, true⟩ := by
  unfold isFound at h
  split at h
  · exact ⟨_, rfl⟩
  · cases h

theorem eq_of_isMint {l : BridgeLabel} (h : isMint l = true) : l = .deliver 1 (.mint (.ok signedMint)) := by
  unfold isMint at h
  split at h
  · rw [of_decide_eq_true h]
  · cases h

/-- Nothing but polls and cancels justifies that a mint is dropped. -/
theorem not_justified_of_other {log : History} (h : log.all isOther = true) {m : MintEnergyMessage} :
    ¬DropJustified Γ log (.mint (.ok m)) := by
  rintro (⟨u, m', sig, slot, answer, -, -, -, hpoll, -⟩ | ⟨u, c, -, -, -, hd, -⟩)
  · cases List.all_eq_true.mp h _ hpoll
  · cases List.all_eq_true.mp h _ hd

theorem kindsApart_of_repeated {w : Session} {log : History} {l : BridgeLabel}
    (h : (isRepeated l && log.all isRepeated) = true) : KindsApart w log l := by
  obtain ⟨hl, hlog⟩ := Bool.and_eq_true_iff.mp h
  rintro t d rfl u d' hd'
  rw [eq_of_isRepeated hl, eq_of_isRepeated (List.all_eq_true.mp hlog _ hd')]
  exact ⟨fun hm => (by cases hm), fun hm => (by cases hm)⟩

end KindsAux

open KindsAux SampleAux in
/-- A submit that is delivered again after it succeeded is dropped for itself. -/
theorem repeated_submit_dropped : ∃ p : BridgePool,
    Pool.Reach (bridge (ctx [datedTx])) KindsApart (Pool.init (.fresh 1000 none)) p ∧ DropsWithinKind (ctx [datedTx]) p.log ∧
    ∃ before key, p.log = before ++ [.call 1 ⟨.cacheContains key, true⟩] := by
  have hrun : ((Pool.init (.fresh 1000 none) : BridgePool).exec (bridge (ctx [datedTx]))
      (fun _ log l => isRepeated l && log.all isRepeated) repeatedScript).any (fun p => p.log.getLast?.any isFound) = true := by
    decide +kernel
  obtain ⟨p, hp, htest⟩ := Pool.exists_reach_of_exec (fun _ _ _ h => kindsApart_of_repeated h) hrun
  obtain ⟨l, hlast, hfound⟩ := (Option.any_eq_true _ _).mp htest
  obtain ⟨key, rfl⟩ := eq_of_isFound hfound
  obtain ⟨before, hlog⟩ := List.getLast?_eq_some_iff.mp hlast
  exact ⟨p, hp, drops_within_kind hp, before, key, hlog⟩

open KindsAux SampleAux in
/-- A mint is dropped as the duplicate of a submit that has its correlation id: no mint succeeded, and nothing was cancelled. -/
theorem mint_dropped_for_submit : ¬∀ (Γ : Ctx) (clock : Nat) (blockhash : Option (Hash × Nat)) (p : BridgePool),
    Pool.Reach (bridge Γ) (fun _ _ _ => True) (Pool.init (.fresh clock blockhash)) p → DropsWithinKind Γ p.log := by
  intro h
  have hrun : ((Pool.init (.fresh 1800000001000 none) : BridgePool).exec (bridge mintCtx) (fun _ _ _ => true) sharedIdScript).any
      (fun p => p.log.getLast?.any isFound && (p.log.dropLast.all isOther && p.log.dropLast.any isMint)) = true := by
    decide +kernel
  obtain ⟨p, hp, htest⟩ := Pool.exists_reach_of_exec (C := fun _ _ _ => True) (fun _ _ _ _ => trivial) hrun
  simp only [Bool.and_eq_true, List.any_eq_true, Option.any_eq_true] at htest
  obtain ⟨⟨l, hlast, hfound⟩, hother, l', hmem, hmint⟩ := htest
  obtain ⟨key, rfl⟩ := eq_of_isFound hfound
  rw [eq_of_isMint hmint] at hmem
  obtain ⟨before, hlog⟩ := List.getLast?_eq_some_iff.mp hlast
  have hbefore : p.log.dropLast = before := by
    rw [hlog, List.dropLast_concat]
  rw [hbefore] at hother hmem
  exact not_justified_of_other hother (h _ _ _ p hp before 1 key _ hlog hmem)

end ChainBridge
