import ChainBridge.History
import ChainBridge.Lemmas.Handlers

/-!
# How a handler answers its request

A handler of a write request publishes at most one result, for its own request, and acknowledges after it; or it finds its key and
acknowledges without one. The monitor follows the answer call by call, and `Says` is what its state says of the calls made.
-/

namespace ChainBridge

open Interleave

/-- The kinds of requests. -/
inductive RequestKind where
  | submit | cancel | mint | status
  deriving DecidableEq

/-- The kind of request a result answers. -/
def Reply.kind : Reply → RequestKind
  | .tx _ => .submit
  | .cancel _ => .cancel
  | .mint _ => .mint
  | .status _ => .status

/-- The correlation id a result carries. -/
def Reply.correlationId : Reply → String
  | .tx r => r.correlationId
  | .cancel r => r.correlationId
  | .mint r => r.correlationId
  | .status r => r.correlationId

/-- What a publisher waits for: a result of this kind with this id on this subject. -/
structure WriteRequest where
  kind : RequestKind
  correlationId : String
  replySubject : String

/-- The request of a submit, a mint or a cancel whose payload parses. -/
def Delivery.writeRequest : Delivery → Option WriteRequest
  | .submit (.ok envelope) => some ⟨.submit, envelope.correlationId, envelope.replySubject⟩
  | .mint (.ok envelope) => some ⟨.mint, envelope.correlationId, envelope.replySubject⟩
  | .cancel (.ok envelope) => some ⟨.cancel, envelope.correlationId, envelope.replySubject⟩
  | _ => none

/-- A result published. -/
def Call.isPublish : Call → Bool
  | .publish _ _ => true
  | _ => false

/-- An acknowledgement. -/
def Call.isAck : Call → Bool
  | .ack _ => true
  | _ => false

/-- A call that tells the outside of the outcome: a published result or the acknowledgement. -/
def outgoing (e : CallEvent) : Option Call := if e.1.isPublish || e.1.isAck then some e.1 else none

/-- The result answers the request. -/
def Reply.Answers (reply : Reply) (request : WriteRequest) : Prop :=
  reply.kind = request.kind ∧ reply.correlationId = request.correlationId

/-! ## How a handler answers -/

/-- Where a handler stands with its answer. -/
inductive AnswerState where
  /-- It has published nothing. -/
  | waiting
  /-- It has found its key. -/
  | found
  /-- Its claim was answered with a result for this id. -/
  | replaying (correlationId : String)
  | published
  | acked

namespace AnsweringAux

open SilentAux HandlersAux

/-- The calls a handler may make: it publishes one result and acknowledges once; whether it may abort is a parameter. -/
def AnswerState.allow (panics : Prop) (request : WriteRequest) (s : AnswerState) : Call → Prop
  | .publish subject reply => subject = request.replySubject ∧ reply.kind = request.kind ∧
    match s with
    | .waiting => reply.correlationId = request.correlationId
    | .replaying c => reply.correlationId = c
    | _ => False
  | .ack _ => s = .found ∨ s = .published
  | .claim _ correlationId _ => s = .waiting ∧ correlationId = request.correlationId
  | .panic => panics
  | _ => s = .waiting

def AnswerState.next (s : AnswerState) : (c : Call) → c.Answer → AnswerState
  | .publish _ _, _ => .published
  | .ack _, _ => .acked
  | .cacheContains _, true => .found
  | .claim _ _ _, some result => .replaying result.correlationId
  | _, _ => s

/-- The monitor of a handler's answer. -/
def answering (panics : Prop) (request : WriteRequest) : Monitor Call Call.Answer AnswerState where
  allow := AnswerState.allow panics request
  next := AnswerState.next

/-- The calls of the work, which aborts only if it may. -/
abbrev Signs {α : Type} (panics : Prop) (p : Handler α) : Prop :=
  p.Only (fun c => c.isWork = true ∧ (c = .panic → panics)) (fun _ => True)

/-- The signing path of a request aborts only if it may. -/
def Attempts (panics : Prop) (Γ : Ctx) : Delivery → Prop
  | .submit (.ok envelope) =>
    Signs panics (signAndSubmit Γ envelope.serializedTx envelope.keyId ⟨envelope.serviceIdentity⟩ envelope.correlationId)
  | .mint (.ok envelope) => ∀ payer recipient amount serialized,
    Γ.energyKwhToBaseUnits envelope.energyKwh = .ok amount → Γ.pubkeyFromStr envelope.recipientWallet = .ok recipient →
    mintTransaction Γ payer recipient amount envelope.meterId envelope.windowStartMs = .ok serialized →
    Signs panics (signAndSubmit Γ serialized platformAdmin ⟨envelope.serviceIdentity⟩ envelope.correlationId)
  | _ => True

variable {Γ : Ctx} {panics : Prop} {request : WriteRequest}

/-- A request that may abort does nothing else that is not work. -/
theorem attempts_true (Γ : Ctx) (d : Delivery) : Attempts True Γ d := by
  have hsigns : ∀ serialized keyId identity c, Signs True (signAndSubmit Γ serialized keyId identity c) := by
    intro serialized keyId identity c
    exact Prog.only_mono (work_of_signing (signing_signAndSubmit ..)) (fun _ hc => ⟨hc, fun _ => trivial⟩) fun _ h => h
  unfold Attempts
  split
  · exact hsigns ..
  · exact fun _ _ _ _ _ _ _ => hsigns ..
  · trivial

/-- The signing path and the poll leave the answer open. -/
theorem wp_work {α : Type} {p : Handler α} (hp : Signs panics p)
    {Q : AnswerState → α → Prop} (hQ : ∀ a, Q .waiting a) : p.wp (answering panics request) .waiting Q := by
  refine Prog.wp_of_only (I := fun s => s = .waiting) hp ?_ rfl fun s a hs _ => hs ▸ hQ a
  rintro s rfl c ⟨hwork, hpanic⟩
  cases c with
  | panic => exact ⟨hpanic rfl, fun a => a.elim⟩
  | _ => first | exact ⟨rfl, fun _ => rfl⟩ | cases hwork

theorem wp_publishAck {subject : String} {reply : Reply} (hsubject : subject = request.replySubject)
    (hreply : reply.Answers request) (kind : AckKind) :
    (Prog.performAll [.publish subject reply, .ack kind]).wp (answering panics request) .waiting (fun s _ => s = .acked) :=
  ⟨⟨hsubject, hreply.1, hreply.2⟩, fun _ => ⟨Or.inr rfl, fun _ => rfl⟩⟩

theorem wp_refuse {subject : String} {reply : Reply} (hsubject : subject = request.replySubject)
    (hreply : reply.Answers request) (correlationId claimedIdentity action stage reason : String) (kind : AckKind) :
    (refuse correlationId claimedIdentity action stage reason subject reply kind).wp (answering panics request) .waiting
      (fun s _ => s = .acked) :=
  ⟨rfl, fun _ => ⟨rfl, fun _ => wp_publishAck hsubject hreply kind⟩⟩

theorem wp_finish {correlationId subject : String} {reply : Reply} (hsubject : subject = request.replySubject)
    (hreply : reply.Answers request) (key : Option String) (nowMs : Nat) (done : Option (String × Nat)) :
    (Prog.performAll (finishCalls correlationId subject key nowMs reply done)).wp (answering panics request) .waiting
      (fun s _ => s = .acked) := by
  have hend : (Prog.performAll [.publish subject reply, .ack .ack]).wp (answering panics request) .waiting
      (fun s _ => s = .acked) := wp_publishAck hsubject hreply .ack
  cases done with
  | none =>
    cases key with
    | none => exact hend
    | some key => exact ⟨rfl, fun _ => hend⟩
  | some out =>
    cases key with
    | none => exact ⟨rfl, fun _ => hend⟩
    | some key => exact ⟨rfl, fun _ => ⟨rfl, fun _ => hend⟩⟩

/-- A handler with gates answers when its refusals and its rest do. -/
theorem wp_run {g : Gates} {rest : Nat → Handler Unit}
    (hauth : ∀ reason, (g.refuseAuth reason).wp (answering panics request) .waiting (fun s _ => s = .acked))
    (hrole : g.refuseRole.wp (answering panics request) .waiting (fun s _ => s = .acked))
    (hstale : ∀ nowMs, (g.refuseStale nowMs).wp (answering panics request) .waiting (fun s _ => s = .acked))
    (hrest : ∀ nowMs, (rest nowMs).wp (answering panics request) .waiting (fun s _ => s = .acked)) :
    (g.run rest).wp (answering panics request) .waiting (fun s _ => s = .acked) := by
  refine (Prog.wp_perform_bind ..).mpr ⟨rfl, fun authMs => ?_⟩
  cases g.decision authMs with
  | error reason => exact hauth reason
  | ok u =>
    cases g.permitted with
    | error e => exact hrole
    | ok u =>
      refine (Prog.wp_perform_bind ..).mpr ⟨rfl, fun found => ?_⟩
      cases found with
      | true => exact ⟨Or.inl rfl, fun _ => rfl⟩
      | false =>
        refine (Prog.wp_perform_bind ..).mpr ⟨rfl, fun nowMs => ?_⟩
        split
        · exact hstale nowMs
        · exact hrest nowMs

theorem wp_handleSubmit (envelope : TxSubmitMessage) (hattempts : Attempts panics Γ (.submit (.ok envelope))) :
    (handleSubmit Γ (.ok envelope)).wp (answering panics ⟨.submit, envelope.correlationId, envelope.replySubject⟩) .waiting
      (fun s _ => s = .acked) := by
  rw [handleSubmit_eq]
  refine wp_run (fun reason => wp_refuse rfl ⟨rfl, rfl⟩ ..) (wp_refuse rfl ⟨rfl, rfl⟩ ..)
    (fun nowMs => wp_refuse rfl ⟨rfl, rfl⟩ ..) fun nowMs => ?_
  unfold submitChecked
  simp only
  split
  · exact wp_publishAck rfl ⟨rfl, rfl⟩ .term
  split
  · exact wp_refuse rfl ⟨rfl, rfl⟩ ..
  split
  · exact wp_refuse rfl ⟨rfl, rfl⟩ ..
  refine (Prog.wp_perform_bind ..).mpr ⟨⟨rfl, rfl⟩, fun a => ?_⟩
  cases a with
  | some result => exact ⟨⟨rfl, rfl, rfl⟩, fun _ => ⟨Or.inr rfl, fun _ => rfl⟩⟩
  | none =>
    simp only [submitEffect_eq]
    rw [Prog.wp_bind]
    refine wp_work (only_retrySpawn hattempts retryDelays) fun r => ?_
    rw [submitFinish_eq]
    exact wp_finish rfl ⟨rfl, by cases r <;> rfl⟩ ..

theorem wp_handleMint (envelope : MintEnergyMessage) (hattempts : Attempts panics Γ (.mint (.ok envelope))) :
    (handleMint Γ (.ok envelope)).wp (answering panics ⟨.mint, envelope.correlationId, envelope.replySubject⟩) .waiting
      (fun s _ => s = .acked) := by
  rw [handleMint_eq]
  refine wp_run (fun reason => wp_refuse rfl ⟨rfl, rfl⟩ ..) (wp_refuse rfl ⟨rfl, rfl⟩ ..)
    (fun nowMs => wp_refuse rfl ⟨rfl, rfl⟩ ..) fun nowMs => ?_
  refine (Prog.wp_perform_bind ..).mpr ⟨⟨rfl, rfl⟩, fun a => ?_⟩
  cases a with
  | some result => exact ⟨⟨rfl, rfl, rfl⟩, fun _ => ⟨Or.inr rfl, fun _ => rfl⟩⟩
  | none =>
    rw [mintClaimed, mintEffect_eq, Prog.wp_bind]
    refine wp_work ?_ fun r => ?_
    · exact only_buildAndSubmitGenerationMint ⟨rfl, nofun⟩ hattempts fun sig => only_resolveConfirmation ⟨rfl, nofun⟩ 24
    · rw [mintFinish_eq]
      exact wp_finish rfl ⟨rfl, by cases r <;> rfl⟩ ..

theorem wp_handleCancel (envelope : TxCancelMessage) :
    (handleCancel Γ (.ok envelope)).wp (answering panics ⟨.cancel, envelope.correlationId, envelope.replySubject⟩) .waiting
      (fun s _ => s = .acked) := by
  rw [handleCancel_eq]
  refine wp_run (fun reason => wp_refuse rfl ⟨rfl, rfl⟩ ..) (wp_refuse rfl ⟨rfl, rfl⟩ ..)
    (fun nowMs => wp_refuse rfl ⟨rfl, rfl⟩ ..) fun nowMs => ?_
  exact ⟨rfl, fun _ => ⟨rfl, fun _ => wp_publishAck rfl ⟨rfl, rfl⟩ .ack⟩⟩

theorem wp_dispatch {d : Delivery} (hrequest : d.writeRequest = some request) (hattempts : Attempts panics Γ d) :
    (dispatch Γ d).wp (answering panics request) .waiting (fun s _ => s = .acked) := by
  unfold Delivery.writeRequest at hrequest
  split at hrequest
  · cases hrequest
    exact wp_handleSubmit _ hattempts
  · cases hrequest
    exact wp_handleMint _ hattempts
  · cases hrequest
    exact wp_handleCancel _
  · cases hrequest

/-! ## What the state says of the calls -/

/-- The result is for the request, or repeats the answer to the handler's claim. -/
def ForRequest (request : WriteRequest) (t : List CallEvent) (reply : Reply) : Prop :=
  reply.kind = request.kind ∧ (reply.correlationId = request.correlationId ∨ ∃ key nowMs result,
    (⟨.claim key request.correlationId nowMs, some result⟩ : CallEvent) ∈ t ∧ reply.correlationId = result.correlationId)

theorem ForRequest.snoc {t : List CallEvent} {reply : Reply} (h : ForRequest request t reply) (e : CallEvent) :
    ForRequest request (t ++ [e]) reply := by
  refine ⟨h.1, h.2.imp_right ?_⟩
  rintro ⟨key, nowMs, result, hmem, hid⟩
  exact ⟨key, nowMs, result, List.mem_append_left _ hmem, hid⟩

/-- The calls of a handler in a state of its answer. -/
structure Says (request : WriteRequest) (s : AnswerState) (t : List CallEvent) : Prop where
  results : ∀ subject reply, (⟨.publish subject reply, ()⟩ : CallEvent) ∈ t → ForRequest request t reply
  found : s = .found → ∃ key, (⟨.cacheContains key, true⟩ : CallEvent) ∈ t
  replaying : ∀ c, s = .replaying c → ∃ key nowMs result,
    (⟨.claim key request.correlationId nowMs, some result⟩ : CallEvent) ∈ t ∧ c = result.correlationId
  published : s = .published → ∃ reply, t.filter (fun e => e.1.isPublish) = [⟨.publish request.replySubject reply, ()⟩]
  silent : s ≠ .published → s ≠ .acked → ∀ e ∈ t, e.1.isPublish = false
  unacked : s ≠ .acked → ∀ e ∈ t, e.1.isAck = false
  acked : s = .acked → (t.filter fun e => e.1.isAck).length = 1
  single : (t.filter fun e => e.1.isPublish).length ≤ 1
  dropped : ∀ key, (⟨.cacheContains key, true⟩ : CallEvent) ∈ t → (s = .found ∨ s = .acked) ∧ ∀ e ∈ t, e.1.isPublish = false

theorem says_nil : Says request .waiting [] :=
  ⟨fun _ _ h => (by cases h), nofun, nofun, nofun, fun _ _ _ h => (by cases h), fun _ _ h => (by cases h), nofun, Nat.zero_le 1,
    fun _ h => (by cases h)⟩

/-- A call that neither publishes nor acknowledges, made while the answer is open. -/
theorem Says.call {t : List CallEvent} (h : Says request .waiting t) {e : CallEvent} (hp : e.1.isPublish = false)
    (ha : e.1.isAck = false) {s : AnswerState} (hs : s ≠ .published ∧ s ≠ .acked)
    (hfound : s = .found ↔ ∃ key, e = ⟨.cacheContains key, true⟩)
    (hreplay : ∀ c, s = .replaying c → ∃ key nowMs result,
      e = ⟨.claim key request.correlationId nowMs, some result⟩ ∧ c = result.correlationId) : Says request s (t ++ [e]) := by
  have hlast : e ∈ t ++ [e] := List.mem_append_right _ List.mem_cons_self
  have hsilent : ∀ e' ∈ t ++ [e], e'.1.isPublish = false :=
    List.forall_mem_append.mpr ⟨h.silent nofun nofun, List.forall_mem_singleton.mpr hp⟩
  refine ⟨fun subject reply hmem => ?_, fun hs' => ?_, fun c hs' => ?_, fun hs' => (hs.1 hs').elim, fun _ _ => hsilent,
    fun _ => ?_, fun hs' => (hs.2 hs').elim, ?_, fun key hmem => ⟨Or.inl ?_, hsilent⟩⟩
  · rcases List.mem_append.mp hmem with hmem | hmem
    · exact (h.results subject reply hmem).snoc e
    · rw [← List.mem_singleton.mp hmem] at hp
      cases hp
  · obtain ⟨key, rfl⟩ := hfound.mp hs'
    exact ⟨key, hlast⟩
  · obtain ⟨key, nowMs, result, rfl, hid⟩ := hreplay c hs'
    exact ⟨key, nowMs, result, hlast, hid⟩
  · exact List.forall_mem_append.mpr ⟨h.unacked nofun, List.forall_mem_singleton.mpr ha⟩
  · rw [List.filter_eq_nil_iff.mpr fun e' he' => by simp [hsilent e' he']]
    exact Nat.zero_le 1
  · rcases List.mem_append.mp hmem with hmem | hmem
    · rcases (h.dropped key hmem).1 with hs' | hs' <;> cases hs'
    · exact hfound.mpr ⟨key, (List.mem_singleton.mp hmem).symm⟩

/-- The result is published. -/
theorem Says.publish {t : List CallEvent} {s : AnswerState} (h : Says request s t)
    (hs : s ≠ .found ∧ s ≠ .published ∧ s ≠ .acked) {reply : Reply} (hreply : ForRequest request t reply) :
    Says request .published (t ++ [⟨.publish request.replySubject reply, ()⟩]) := by
  have hnone : t.filter (fun e => e.1.isPublish) = [] := List.filter_eq_nil_iff.mpr fun e he => by
    simp [h.silent hs.2.1 hs.2.2 e he]
  have hone : (t ++ [(⟨.publish request.replySubject reply, ()⟩ : CallEvent)]).filter (fun e => e.1.isPublish) =
      [⟨.publish request.replySubject reply, ()⟩] := by
    rw [List.filter_append, hnone]
    rfl
  refine ⟨fun subject reply' hmem => ?_, nofun, nofun, fun _ => ⟨reply, hone⟩, fun h => (h rfl).elim, fun _ => ?_, nofun, ?_,
    fun key hmem => ?_⟩
  · rcases List.mem_append.mp hmem with hmem | hmem
    · exact (h.results subject reply' hmem).snoc _
    · cases List.mem_singleton.mp hmem
      exact hreply.snoc _
  · exact List.forall_mem_append.mpr ⟨h.unacked hs.2.2, List.forall_mem_singleton.mpr rfl⟩
  · rw [hone]
    exact Nat.le_refl 1
  · rcases List.mem_append.mp hmem with hmem | hmem
    · rcases (h.dropped key hmem).1 with hs' | hs'
      · exact (hs.1 hs').elim
      · exact (hs.2.2 hs').elim
    · cases List.mem_singleton.mp hmem

/-- The delivery is acknowledged. -/
theorem Says.ack {t : List CallEvent} {s : AnswerState} (h : Says request s t) (hs : s ≠ .acked) (kind : AckKind) :
    Says request .acked (t ++ [⟨.ack kind, ()⟩]) := by
  have hnone : t.filter (fun e => e.1.isAck) = [] := List.filter_eq_nil_iff.mpr fun e he => by
    simp [h.unacked hs e he]
  refine ⟨fun subject reply hmem => ?_, nofun, nofun, nofun, fun _ h => (h rfl).elim, fun h => (h rfl).elim, fun _ => ?_, ?_,
    fun key hmem => ⟨Or.inr rfl, ?_⟩⟩
  · rcases List.mem_append.mp hmem with hmem | hmem
    · exact (h.results subject reply hmem).snoc _
    · cases List.mem_singleton.mp hmem
  · rw [List.filter_append, hnone]
    rfl
  · rw [List.filter_append]
    exact Nat.le_trans (Nat.le_of_eq (congrArg List.length (List.append_nil _))) h.single
  · rcases List.mem_append.mp hmem with hmem | hmem
    · exact List.forall_mem_append.mpr ⟨(h.dropped key hmem).2, List.forall_mem_singleton.mpr rfl⟩
    · cases List.mem_singleton.mp hmem

theorem Says.next {t : List CallEvent} {s : AnswerState} (h : Says request s t) {c : Call}
    (hc : AnswerState.allow panics request s c)
    (a : c.Answer) : Says request (AnswerState.next s c a) (t ++ [⟨c, a⟩]) := by
  cases c with
  | publish subject reply =>
    obtain ⟨rfl, hkind, hid⟩ := hc
    cases s with
    | waiting => exact h.publish ⟨nofun, nofun, nofun⟩ ⟨hkind, Or.inl hid⟩
    | replaying c =>
      obtain ⟨key, nowMs, result, hmem, rfl⟩ := h.replaying c rfl
      exact h.publish ⟨nofun, nofun, nofun⟩ ⟨hkind, Or.inr ⟨key, nowMs, result, hmem, hid⟩⟩
    | _ => exact hid.elim
  | ack kind =>
    refine h.ack ?_ kind
    rcases hc with rfl | rfl <;> nofun
  | claim key correlationId nowMs =>
    obtain ⟨rfl, rfl⟩ := hc
    cases a with
    | none => exact h.call rfl rfl ⟨nofun, nofun⟩ ⟨nofun, nofun⟩ nofun
    | some result =>
      refine h.call rfl rfl ⟨nofun, nofun⟩ ⟨nofun, nofun⟩ fun c hs => ?_
      cases hs
      exact ⟨key, nowMs, result, rfl, rfl⟩
  | cacheContains key =>
    cases hc
    cases a with
    | false => exact h.call rfl rfl ⟨nofun, nofun⟩ ⟨nofun, nofun⟩ nofun
    | true => exact h.call rfl rfl ⟨nofun, nofun⟩ ⟨fun _ => ⟨key, rfl⟩, fun _ => rfl⟩ nofun
  | panic => exact a.elim
  | _ =>
    cases hc
    exact h.call rfl rfl ⟨nofun, nofun⟩ ⟨nofun, nofun⟩ nofun

/-- A partial execution of a handler of a write request keeps to its answer. -/
theorem says_of_steps {d : Delivery} (hrequest : d.writeRequest = some request) (hattempts : Attempts panics Γ d)
    {t : List CallEvent} {q : Handler Unit} (h : Prog.Steps (dispatch Γ d) t q) :
    Says request ((answering panics request).after .waiting t) t ∧
      q.wp (answering panics request) ((answering panics request).after .waiting t) (fun s _ => s = .acked) := by
  have hwp := wp_dispatch hrequest hattempts
  exact ⟨Prog.wp_steps_invariant (I := Says request) hwp says_nil (fun s past c a hI hc => hI.next hc a) h,
    Prog.wp_steps hwp h⟩

/-- A claim is answered with a result for the id of the claim. -/
theorem correlationId_of_claim {C : Session → History → BridgeLabel → Prop} {w : Session}
    {p : BridgePool} (h : Pool.Reach (bridge Γ) C (Pool.init w) p) {t : Nat} {key : Option String} {c : String} {nowMs : Nat}
    {result : TxResultMessage} (hmem : .call t ⟨.claim key c nowMs, some result⟩ ∈ p.log) : result.correlationId = c := by
  obtain ⟨p₁, q₁, -, -, hs, -⟩ := h.step_of_mem_log hmem
  obtain ⟨m, k, a, -, hanswer, -⟩ := hs.call_inv
  exact replayed_correlationId hanswer.symm

/-- The claim of a handler is answered for its own id, so what it publishes answers its request. -/
theorem answers_of_forRequest {C : Session → History → BridgeLabel → Prop} {w : Session}
    {p : BridgePool} (h : Pool.Reach (bridge Γ) C (Pool.init w) p) {u : Nat} {reply : Reply}
    (hreply : ForRequest request (traceOf u p.log) reply) : reply.Answers request := by
  refine ⟨hreply.1, ?_⟩
  rcases hreply.2 with hid | ⟨key, nowMs, result, hmem, hid⟩
  · exact hid
  · exact hid.trans (correlationId_of_claim h (Pool.mem_traceOf.mp hmem))

end AnsweringAux

end ChainBridge
