import ChainBridge.Lemmas.Answering
import ChainBridge.Theorems.Cancel
import ChainBridge.Theorems.Kinds
import ChainBridge.Theorems.Signing

/-!
# Every write request is answered before it is acknowledged

A handler acknowledges its delivery once, after it has published one result, or silently when it finds its key in the cache. The
silent acknowledgement is right when the key was recorded for a request of the same kind and id whose result is out. It is wrong
for a key that another kind of request recorded, for one whose handler has not published yet, and a handler that aborts answers
nothing.
-/

namespace ChainBridge

open Interleave

/-- When a handler acknowledges, it has not acknowledged before, and has published one result, which answers its request on its
subject; or it has published nothing, and a result that answers it is in the history. -/
def AnsweredBefore (log : History) (t : Nat) (request : WriteRequest) : Prop :=
  (∀ e ∈ traceOf t log, e.1.isAck = false) ∧
  ((∃ reply, (traceOf t log).filter (fun e => e.1.isPublish) = [⟨.publish request.replySubject reply, ()⟩] ∧
      reply.Answers request) ∨
    (∀ e ∈ traceOf t log, e.1.isPublish = false) ∧
      ∃ u subject reply, .call u ⟨.publish subject reply, ()⟩ ∈ log ∧ reply.Answers request)

/-- Every handler of a write request returns, with one acknowledgement, and acknowledges only what is answered. -/
structure RequestsAnswered (Γ : Ctx) (p : BridgePool) : Prop where
  returns : ∀ t d request k, d.writeRequest = some request → p.threads t ≠ some (d, .call .panic k)
  once : ∀ t d request, .deliver t d ∈ p.log → d.writeRequest = some request → Prog.Exec (dispatch Γ d) (traceOf t p.log) () →
    ((traceOf t p.log).filter fun e => e.1.isAck).length = 1
  answered : ∀ before t kind a d request, p.log = before ++ [.call t ⟨.ack kind, a⟩] → .deliver t d ∈ before →
    d.writeRequest = some request → AnsweredBefore before t request

/-- The transaction that a request signs is within the bounds of the signing path's index expressions. This is asked of every
request, also of one that its gates refuse: the condition is sufficient, not exact. -/
def Indexed (Γ : Ctx) : Delivery → Prop
  | .submit (.ok envelope) => ∀ tx, Γ.deserialize envelope.serializedTx = .ok tx →
    Γ.validateTransaction ⟨envelope.serviceIdentity⟩ tx = .ok () → envelope.keyId = platformAdmin → Indexable Γ tx
  | .mint (.ok envelope) => ∀ payer recipient amount serialized tx,
    Γ.energyKwhToBaseUnits envelope.energyKwh = .ok amount → Γ.pubkeyFromStr envelope.recipientWallet = .ok recipient →
    mintTransaction Γ payer recipient amount envelope.meterId envelope.windowStartMs = .ok serialized →
    Γ.deserialize serialized = .ok tx → Γ.validateTransaction ⟨envelope.serviceIdentity⟩ tx = .ok () → Indexable Γ tx
  | _ => True

/-- Two handlers are for requests of one kind with one id. -/
def SameRequest (log : History) (t u : Nat) : Prop :=
  ∀ d d', .deliver t d ∈ log → .deliver u d' ∈ log →
    d'.writeRequest.map (fun r => (r.kind, r.correlationId)) = d.writeRequest.map fun r => (r.kind, r.correlationId)

/-- A delivery is indexed, and a handler that finds its key finds what only handlers of its own kind and id recorded, after they
published. The condition is sufficient, not exact: one result that is out is enough, whatever other handlers recorded the key. -/
def AnswerStep (Γ : Ctx) (_ : Session) (log : History) : BridgeLabel → Prop
  | .deliver _ d => Indexed Γ d
  | .call t ⟨.cacheContains key, true⟩ => ∀ u expiryMs, .call u ⟨.cacheInsert key expiryMs, ()⟩ ∈ log →
    SameRequest log t u ∧ ∃ subject reply, .call u ⟨.publish subject reply, ()⟩ ∈ log
  | _ => True

namespace AnswersAux

open AnsweringAux HandlersAux SigningAux

variable {Γ : Ctx} {request : WriteRequest} {clock : Nat} {blockhash : Option (Hash × Nat)} {p : BridgePool}

/-- An indexed request does not abort. -/
theorem attempts_of_indexed {d : Delivery} (h : Indexed Γ d) : Attempts False Γ d := by
  have hsigns : ∀ {serialized keyId identity c}, Safe (signAndSubmit Γ serialized keyId identity c) →
      Signs False (signAndSubmit Γ serialized keyId identity c) := by
    intro serialized keyId identity c hsafe
    exact Prog.only_mono (Prog.only_and (work_of_signing (signing_signAndSubmit ..)) hsafe) (fun _ hc => hc) fun _ _ => trivial
  unfold Attempts
  split
  · exact hsigns ((safe_signAndSubmit_iff ..).mpr h)
  · intro payer recipient amount serialized ha hr hm
    exact hsigns ((safe_signAndSubmit_iff ..).mpr fun tx hd hv _ => h payer recipient amount serialized tx ha hr hm hd hv)
  · trivial

/-- The calls of a handler of a write request keep to its answer. -/
theorem says_of_reach (h : Pool.Reach (bridge Γ) (AnswerStep Γ) (Pool.init (.fresh clock blockhash)) p) {t : Nat}
    {d : Delivery} (hd : .deliver t d ∈ p.log) (hrequest : d.writeRequest = some request) {q : Handler Unit}
    (hsteps : Prog.Steps (dispatch Γ d) (traceOf t p.log) q) :
    Says request ((answering False request).after .waiting (traceOf t p.log)) (traceOf t p.log) ∧
      q.wp (answering False request) ((answering False request).after .waiting (traceOf t p.log)) (fun s _ => s = .acked) := by
  obtain ⟨w, log, hindexed⟩ := h.mem_log hd
  exact says_of_steps hrequest (attempts_of_indexed hindexed) hsteps

/-- A handler that found its key finds a result for its request in the history. -/
theorem answered_of_found (h : Pool.Reach (bridge Γ) (AnswerStep Γ) (Pool.init (.fresh clock blockhash)) p) {t : Nat}
    {d : Delivery} (hd : .deliver t d ∈ p.log) (hrequest : d.writeRequest = some request) {key : String}
    (hfound : .call t ⟨.cacheContains key, true⟩ ∈ p.log) :
    ∃ u subject reply, .call u ⟨.publish subject reply, ()⟩ ∈ p.log ∧ reply.Answers request := by
  obtain ⟨p₁, q₁, hr₁, hc₁, hs₁, hprefix⟩ := h.step_of_mem_log hfound
  have hbefore : ∀ l ∈ p₁.log, l ∈ p.log := by
    intro l hl
    refine hprefix.subset ?_
    rw [hs₁.log_eq]
    exact List.mem_append_left _ hl
  obtain ⟨m, k, r, hthread, hcached, -⟩ := hs₁.call_inv
  obtain ⟨u, expiryMs, hinsert⟩ := KindsAux.recorded_of_cached hr₁ hcached.symm
  obtain ⟨hsame, subject, reply, hpublish⟩ := hc₁ u expiryMs hinsert
  obtain ⟨d', hd', hrec⟩ := KindsAux.recorded_of_cacheInsert hr₁ hinsert
  have hm := hr₁.deliver_of_thread hthread
  obtain rfl : m = d := (h.steps_of_deliver hd).1 m (hbefore _ hm)
  -- the request of the handler that recorded the key has the kind and the id of this one
  have htopic := hsame m d' hm hd'
  rw [hrequest] at htopic
  obtain ⟨request', hrequest', hpair⟩ := Option.map_eq_some_iff.mp htopic
  obtain ⟨hkind, hid⟩ := Prod.mk.inj hpair
  obtain ⟨q, hsteps⟩ := (hr₁.steps_of_deliver hd').2
  have hsaid := (says_of_reach hr₁ hd' hrequest' hsteps).1
  have hanswers := answers_of_forRequest hr₁ (hsaid.results subject reply (Pool.mem_traceOf.mpr hpublish))
  exact ⟨u, subject, reply, hbefore _ hpublish, hanswers.1.trans hkind, hanswers.2.trans hid⟩

end AnswersAux

open AnswersAux AnsweringAux in
/-- In every run whose deliveries are indexed and whose silent acknowledgements meet only what requests of the same kind and id
recorded after they published, every handler of a write request returns, acknowledges once, and only what is answered. -/
theorem requests_answered {Γ : Ctx} {clock : Nat} {blockhash : Option (Hash × Nat)} {p : BridgePool}
    (h : Pool.Reach (bridge Γ) (AnswerStep Γ) (Pool.init (.fresh clock blockhash)) p) : RequestsAnswered Γ p := by
  refine ⟨fun t d request k hrequest hthread => ?_, fun t d request hd hrequest hexec => ?_,
    fun before t kind a d request hlog hd hrequest => ?_⟩
  · exact (says_of_reach h (h.deliver_of_thread hthread) hrequest (h.steps_of_thread hthread)).2.1
  · obtain ⟨hsaid, hq⟩ := says_of_reach h hd hrequest hexec
    exact hsaid.acked hq
  · obtain ⟨p₁, q₁, hr, -, hs, rfl⟩ := h.step_of_split hlog
    obtain ⟨m, k, -, hthread, -⟩ := hs.call_inv
    obtain rfl : m = d := (hr.steps_of_deliver hd).1 m (hr.deliver_of_thread hthread)
    obtain ⟨hsaid, hallow, -⟩ := says_of_reach hr hd hrequest (hr.steps_of_thread hthread)
    rcases hallow with hstate | hstate
    · refine ⟨hsaid.unacked (by rw [hstate]; nofun), Or.inr ⟨hsaid.silent (by rw [hstate]; nofun) (by rw [hstate]; nofun), ?_⟩⟩
      obtain ⟨key, hfound⟩ := hsaid.found hstate
      exact answered_of_found hr hd hrequest (Pool.mem_traceOf.mp hfound)
    · obtain ⟨reply, hpublished⟩ := hsaid.published hstate
      have hmem : (⟨.publish request.replySubject reply, ()⟩ : CallEvent) ∈ traceOf t p₁.log := by
        refine ((List.mem_filter (p := fun e => e.1.isPublish)).mp ?_).1
        rw [hpublished]
        exact List.mem_cons_self
      have hanswers := answers_of_forRequest hr (hsaid.results request.replySubject reply hmem)
      exact ⟨hsaid.unacked (by rw [hstate]; nofun), Or.inl ⟨reply, hpublished, hanswers⟩⟩

namespace AnswersAux

open SampleAux KindsAux CancelAux

/-- A submit, and the same again once it has succeeded, to the acknowledgement. -/
def redeliveredScript : Script := repeatedScript ++ calls 1 1

/-- A cancellation to its end, and a submit with its id, to the acknowledgement. -/
def cancelledScript : Script :=
  [.deliver 0 (.cancel (.ok cancelC))] ++ calls 0 6 ++ [.deliver 1 (.submit (.ok (submitOf datedTx "c" "k")))] ++ calls 1 3

/-- Whether a label is the acknowledgement of handler 1. -/
def isAcked : BridgeLabel → Bool
  | .call 1 ⟨.ack _, _⟩ => true
  | _ => false

theorem eq_of_isAcked {l : BridgeLabel} (h : isAcked l = true) : ∃ kind, l = .call 1 ⟨.ack kind, ()⟩ := by
  unfold isAcked at h
  split at h
  · exact ⟨_, rfl⟩
  · cases h

/-- Whether a label is a result published by a handler. -/
def publishedBy (u : Nat) : BridgeLabel → Bool
  | .call v ⟨.publish _ _, _⟩ => decide (v = u)
  | _ => false

theorem eq_of_publishedBy {u : Nat} {l : BridgeLabel} (h : publishedBy u l = true) :
    ∃ subject reply, l = .call u ⟨.publish subject reply, ()⟩ := by
  unfold publishedBy at h
  split at h
  · rw [of_decide_eq_true h]
    exact ⟨_, _, rfl⟩
  · cases h

/-- Whether a label records a key for a handler that has published. -/
def recordsAfter (log : History) : BridgeLabel → Bool
  | .call u ⟨.cacheInsert _ _, _⟩ => log.any (publishedBy u)
  | _ => true

/-- A test for the steps of a run of the repeated submit. -/
def redeliveredStep (_ : Session) (log : History) (l : BridgeLabel) : Bool :=
  isRepeated l && log.all isRepeated && match l with
    | .call _ ⟨.cacheContains _, true⟩ => log.all (recordsAfter log)
    | _ => true

theorem indexed_repeated : Indexed (ctx [datedTx]) (.submit (.ok (submitOf datedTx "c" "k"))) := by
  intro tx hd _ _
  have hbytes : (ctx [datedTx]).deserialize (submitOf datedTx "c" "k").serializedTx = .ok datedTx := by
    simp [ctx, submitOf]
  cases hbytes.symm.trans hd
  decide

theorem sameRequest_of_repeated {log : History} (h : log.all isRepeated = true) (t u : Nat) : SameRequest log t u := by
  intro d d' hd hd'
  rw [eq_of_isRepeated (List.all_eq_true.mp h _ hd), eq_of_isRepeated (List.all_eq_true.mp h _ hd')]

theorem answerStep_of_redelivered {w : Session} {log : History} {l : BridgeLabel} (h : redeliveredStep w log l = true) :
    AnswerStep (ctx [datedTx]) w log l := by
  simp only [redeliveredStep, Bool.and_eq_true] at h
  obtain ⟨⟨hl, hlog⟩, hfound⟩ := h
  unfold AnswerStep
  split
  · rw [eq_of_isRepeated hl]
    exact indexed_repeated
  · intro u expiryMs hmem
    obtain ⟨l', hl', hpublished⟩ := List.any_eq_true.mp (List.all_eq_true.mp hfound _ hmem)
    obtain ⟨subject, reply, rfl⟩ := eq_of_publishedBy hpublished
    exact ⟨sameRequest_of_repeated hlog _ _, subject, reply, hl'⟩
  · trivial

/-- Whether a label is a result of a submit. -/
def isTxResult : BridgeLabel → Bool
  | .call _ ⟨.publish _ (.tx _), _⟩ => true
  | _ => false

/-- Whether a label is the delivery of the submit to handler 1. -/
def isSecond : BridgeLabel → Bool
  | .deliver 1 d => isRepeated (.deliver 1 d)
  | _ => false

theorem eq_of_isSecond {l : BridgeLabel} (h : isSecond l = true) : l = .deliver 1 (.submit (.ok (submitOf datedTx "c" "k"))) := by
  unfold isSecond at h
  split at h
  · rw [eq_of_isRepeated h]
  · cases h

/-- A request for a submit is not answered in a history without results of submits. -/
theorem not_answeredBefore {log : History} (h : log.all (fun l => !isTxResult l) = true) {t : Nat} {c subject : String} :
    ¬AnsweredBefore log t ⟨.submit, c, subject⟩ := by
  have hnone : ∀ u subject reply, .call u ⟨.publish subject reply, ()⟩ ∈ log → reply.kind ≠ .submit := by
    intro u subject reply hmem hkind
    cases reply with
    | tx r => cases List.all_eq_true.mp h _ hmem
    | _ => cases hkind
  rintro ⟨-, ⟨reply, hfilter, hkind, -⟩ | ⟨-, u, subject, reply, hmem, hkind, -⟩⟩
  · have hmem : (⟨.publish subject reply, ()⟩ : CallEvent) ∈ traceOf t log := by
      refine ((List.mem_filter (p := fun e => e.1.isPublish)).mp ?_).1
      rw [hfilter]
      exact List.mem_cons_self
    exact hnone t subject reply (Pool.mem_traceOf.mp hmem) hkind
  · exact hnone u subject reply hmem hkind

end AnswersAux

open AnswersAux KindsAux SampleAux in
/-- A submit that is delivered again after its result is out is acknowledged silently. -/
theorem redelivered_submit_answered : ∃ p : BridgePool,
    Pool.Reach (bridge (ctx [datedTx])) (AnswerStep (ctx [datedTx])) (Pool.init (.fresh 1000 none)) p ∧
    RequestsAnswered (ctx [datedTx]) p ∧ ∃ before kind, p.log = before ++ [.call 1 ⟨.ack kind, ()⟩] := by
  have hrun : ((Pool.init (.fresh 1000 none) : BridgePool).exec (bridge (ctx [datedTx])) redeliveredStep redeliveredScript).any
      (fun p => p.log.getLast?.any isAcked) = true := by
    decide +kernel
  obtain ⟨p, hp, htest⟩ := Pool.exists_reach_of_exec (fun _ _ _ h => answerStep_of_redelivered h) hrun
  obtain ⟨l, hlast, hacked⟩ := (Option.any_eq_true _ _).mp htest
  obtain ⟨kind, rfl⟩ := eq_of_isAcked hacked
  obtain ⟨before, hlog⟩ := List.getLast?_eq_some_iff.mp hlast
  exact ⟨p, hp, requests_answered hp, before, kind, hlog⟩

open AnswersAux SampleAux in
/-- A submit with the id of an accepted cancellation is acknowledged with no result: its publisher waits for nothing. -/
theorem cancelled_submit_unanswered : ¬∀ (Γ : Ctx) (clock : Nat) (blockhash : Option (Hash × Nat)) (p : BridgePool),
    Pool.Reach (bridge Γ) (fun _ _ _ => True) (Pool.init (.fresh clock blockhash)) p → RequestsAnswered Γ p := by
  intro h
  have hrun : ((Pool.init (.fresh 1000 none) : BridgePool).exec (bridge (ctx [datedTx])) (fun _ _ _ => true) cancelledScript).any
      (fun p => p.log.getLast?.any isAcked && (p.log.dropLast.all (fun l => !isTxResult l) && p.log.dropLast.any isSecond)) =
        true := by
    decide +kernel
  obtain ⟨p, hp, htest⟩ := Pool.exists_reach_of_exec (C := fun _ _ _ => True) (fun _ _ _ _ => trivial) hrun
  simp only [Bool.and_eq_true, List.any_eq_true, Option.any_eq_true] at htest
  obtain ⟨⟨l, hlast, hacked⟩, hnone, l', hmem, hsecond⟩ := htest
  obtain ⟨kind, rfl⟩ := eq_of_isAcked hacked
  rw [eq_of_isSecond hsecond] at hmem
  obtain ⟨before, hlog⟩ := List.getLast?_eq_some_iff.mp hlast
  have hbefore : p.log.dropLast = before := by
    rw [hlog, List.dropLast_concat]
  rw [hbefore] at hnone hmem
  exact not_answeredBefore hnone ((h _ _ _ p hp).answered before 1 kind () _ _ hlog hmem rfl)

end ChainBridge
