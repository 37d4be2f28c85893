import ChainBridge.Theorems.Process

/-!
# What a gRPC caller may have done, and what it is told

Every call of a method is made for a caller whose role the method permits, under the rule of the method. The response is what the
method made of its own calls: a submission is reported exactly when one was accepted, and an error is one of a few that the request
itself determines, so nothing of what Vault, the provider or the audit store said gets out in it.
-/

namespace ChainBridge

open Interleave

/-- The error of an argument that does not parse. -/
def argumentInvalid {α : Type} (parsed : Except String α) (what : String) : Option ConnectError :=
  match parsed with
  | .error e => some ⟨.invalidArgument, what ++ e⟩
  | .ok _ => none

/-- The error of the argument of a request. -/
def RpcRequest.argumentError (Γ : Ctx) : RpcRequest → Option ConnectError
  | .getBalance pubkey => argumentInvalid (Γ.pubkeyFromStr pubkey) "Invalid pubkey: "
  | .getAccountData pubkey => argumentInvalid (Γ.pubkeyFromStr pubkey) "Invalid pubkey: "
  | .getRecentPrioritizationFees accountKeys => argumentInvalid (parseAccountKeys Γ accountKeys) ""
  | .getTokenAccountBalance pubkey => argumentInvalid (Γ.pubkeyFromStr pubkey) "Invalid pubkey: "
  | .getSignatureStatus signature => argumentInvalid (Γ.signatureFromStr signature) "Invalid signature: "
  | .requestAirdrop pubkey _ => argumentInvalid (Γ.pubkeyFromStr pubkey) "Invalid pubkey: "
  | .getTransactionDetails signature => argumentInvalid (Γ.signatureFromStr signature) "Invalid signature: "
  | _ => none

/-- The errors of a request that is permitted and parses. -/
def RpcRequest.failures : RpcRequest → List ConnectError
  | .submitTransaction _ =>
    [⟨.invalidArgument, "Invalid transaction format"⟩, ⟨.permissionDenied, "Policy Engine rejection"⟩,
     ⟨.permissionDenied, "Key ID not authorized"⟩, ⟨.failedPrecondition, "Transaction would fail simulation"⟩,
     ⟨.unavailable, "Transaction submission failed"⟩]
  | .getBalance _ => [⟨.internal, "Failed to fetch balance"⟩]
  | .getAccountData _ => [⟨.internal, "Failed to fetch account data"⟩]
  | .getLatestBlockhash => [⟨.internal, "Failed to fetch blockhash"⟩]
  | .getRecentPrioritizationFees _ => [⟨.internal, "Failed to fetch prioritization fees"⟩]
  | .getTokenAccountBalance _ => [⟨.internal, "Failed to fetch token balance"⟩]
  | .getSignatureStatus _ => [⟨.internal, "Failed to fetch signature status"⟩]
  | .getSlot => [⟨.internal, "Failed to fetch current slot"⟩]
  | .requestAirdrop _ _ => [⟨.internal, "Airdrop request failed"⟩]
  | .getTransactionDetails _ => [⟨.internal, "Failed to fetch transaction details"⟩]
  | .getEpochInfo => [⟨.internal, "Failed to fetch epoch info"⟩]

/-- The errors a request may be answered with: the refusal of its role, else that of its argument, else those of its method. -/
def RpcRequest.errors (Γ : Ctx) (R : RpcEnv) (headers : HeaderMap) (request : RpcRequest) : List ConnectError :=
  match Γ.requireAny (extractRole Γ R.dev headers) request.roles with
  | .error msg => [⟨.permissionDenied, msg⟩]
  | .ok () => ((request.argumentError Γ).map fun e => [e]).getD request.failures

/-- A submission was accepted under this signature, in a method. -/
def RpcAccepted (t : List RpcEvent) (sig : Signature) : Prop :=
  ∃ tx, (⟨.shared (.sendTransaction tx), .ok sig⟩ : RpcEvent) ∈ t

namespace MediationAux

open RpcAux HandlersAux

variable {Γ : Ctx} {R : RpcEnv} {headers : HeaderMap} {α β : Type}

/-! ## The errors -/

/-- A method whose errors are among these, whatever its calls are answered. -/
abbrev Errors {ι : Type} {ρ : ι → Type} (es : List ConnectError) (p : Prog ι ρ (Except ConnectError α)) : Prop :=
  p.Only (fun _ => True) (fun r => ∀ e, r = .error e → e ∈ es)

theorem errors_ok {ι : Type} {ρ : ι → Type} (es : List ConnectError) (a : α) :
    Errors es (.ret (.ok a) : Prog ι ρ (Except ConnectError α)) := by
  intro e he
  cases he

theorem errors_error {ι : Type} {ρ : ι → Type} {es : List ConnectError} {e : ConnectError} (he : e ∈ es) :
    Errors es (.ret (.error e) : Prog ι ρ (Except ConnectError α)) := by
  intro e' he'
  cases he'
  exact he

/-- The gate of a method: an error is its refusal, or one of what follows when the role is permitted. -/
theorem errors_withRole (request : RpcRequest) {method : RpcProg (Except ConnectError α)}
    (h : Errors (((request.argumentError Γ).map fun e => [e]).getD request.failures) method) :
    Errors (request.errors Γ R headers) (withRole Γ R.dev headers request.roles method) := by
  unfold RpcRequest.errors withRole
  cases Γ.requireAny (extractRole Γ R.dev headers) request.roles with
  | error msg => exact errors_error List.mem_cons_self
  | ok u => exact h

/-- The argument of a method: an error is that of the argument, or one of what follows when it parses. -/
theorem errors_withArgument {parsed : Except String α} {what : String} {es : List ConnectError}
    {method : α → RpcProg (Except ConnectError β)} (h : ∀ a, Errors es (method a)) :
    Errors (((argumentInvalid parsed what).map fun e => [e]).getD es) (withArgument parsed what method) := by
  unfold argumentInvalid withArgument
  cases parsed with
  | error e => exact errors_error List.mem_cons_self
  | ok a => exact h a

theorem errors_share {es : List ConnectError} {p : Handler (Except ConnectError α)} {f : α → β}
    (hp : Errors es p) : Errors es (do return (← share p).map f : RpcProg (Except ConnectError β)) := by
  induction p with
  | ret r =>
    cases r with
    | ok a => exact errors_ok es (f a)
    | error e => exact errors_error (hp e rfl)
  | call c k ih => exact ⟨trivial, fun r => ih r (hp.2 r)⟩

/-- The error of a failed stage is one of those of `submit_transaction`. -/
theorem connectError_mem (request : SubmitTransactionRequest) (stage : SignSubmitStage) :
    stage.connectError ∈ (RpcRequest.submitTransaction request).failures := by
  cases stage <;> simp [SignSubmitStage.connectError, RpcRequest.failures]

theorem errors_submitTransaction (request : SubmitTransactionRequest) :
    Errors ((RpcRequest.submitTransaction request).errors Γ R headers) (submitTransaction Γ R.dev headers request) := by
  unfold RpcRequest.errors submitTransaction
  simp only [RpcRequest.roles]
  cases Γ.requireAny (extractRole Γ R.dev headers) submitRoles with
  | error msg => exact errors_error List.mem_cons_self
  | ok u =>
    refine Prog.only_bind (Prog.only_mono (signing_signAndSubmit ..) (fun _ _ => trivial) fun _ h => h) fun r _ => ?_
    cases r with
    | ok out => exact errors_ok _ _
    | error stage => exact errors_error (connectError_mem request stage)

theorem errors_getTokenAccountBalance (pubkey : String) :
    Errors ((RpcRequest.getTokenAccountBalance pubkey).errors Γ R headers) (getTokenAccountBalance Γ R.dev headers pubkey) := by
  unfold RpcRequest.errors getTokenAccountBalance
  simp only [RpcRequest.roles, RpcRequest.argumentError, RpcRequest.failures, argumentInvalid]
  cases Γ.requireAny (extractRole Γ R.dev headers) readRoles with
  | error msg => exact errors_error List.mem_cons_self
  | ok u =>
    cases Γ.pubkeyFromStr pubkey with
    | error msg => exact errors_error List.mem_cons_self
    | ok pk =>
      refine Prog.only_perform.mpr ⟨trivial, fun a => ?_⟩
      cases a with
      | ok balance => exact errors_ok _ _
      | error msg => exact errors_error List.mem_cons_self

theorem errors_getSignatureStatus (signature : String) :
    Errors ((RpcRequest.getSignatureStatus signature).errors Γ R headers)
      (getSignatureStatus Γ R.valueToString R.dev headers signature) := by
  unfold RpcRequest.errors getSignatureStatus
  simp only [RpcRequest.roles, RpcRequest.argumentError, RpcRequest.failures, argumentInvalid]
  cases Γ.requireAny (extractRole Γ R.dev headers) readRoles with
  | error msg => exact errors_error List.mem_cons_self
  | ok u =>
    cases Γ.signatureFromStr signature with
    | error msg => exact errors_error List.mem_cons_self
    | ok sig =>
      refine Prog.only_perform.mpr ⟨trivial, fun a => ?_⟩
      rcases a with msg | _ | ⟨_ | status, rest⟩
      · exact errors_error List.mem_cons_self
      · exact errors_ok _ _
      · exact errors_ok _ _
      · exact errors_ok _ _

/-- A method fails with an error of its request, whatever its calls are answered. -/
theorem errors_serveRequest (request : RpcRequest) :
    Errors (request.errors Γ R headers) (serveRequest Γ R headers request) := by
  cases request with
  | submitTransaction request => exact errors_share (errors_submitTransaction request)
  | getTokenAccountBalance pubkey => exact errors_share (errors_getTokenAccountBalance pubkey)
  | getSignatureStatus signature => exact errors_share (errors_getSignatureStatus signature)
  | getBalance pubkey =>
    refine errors_withRole (.getBalance pubkey) (errors_withArgument fun pk => ⟨trivial, fun a => ?_⟩)
    cases a with
    | ok lamports => exact errors_ok _ _
    | error e => exact errors_error List.mem_cons_self
  | getAccountData pubkey =>
    refine errors_withRole (.getAccountData pubkey) (errors_withArgument fun pk => ⟨trivial, fun a => ?_⟩)
    cases a with
    | ok account => exact errors_ok _ _
    | error e =>
      show Errors _ (ite _ _ _)
      split
      · exact errors_ok _ _
      · exact errors_error List.mem_cons_self
  | getLatestBlockhash =>
    refine errors_withRole .getLatestBlockhash ⟨trivial, fun a => ?_⟩
    cases a with
    | ok out => exact errors_ok _ _
    | error e => exact errors_error List.mem_cons_self
  | getRecentPrioritizationFees accountKeys =>
    refine errors_withRole (.getRecentPrioritizationFees accountKeys)
      (errors_withArgument fun keys => ⟨trivial, fun a => ?_⟩)
    cases a with
    | ok fees => exact errors_ok _ _
    | error e => exact errors_error List.mem_cons_self
  | getSlot =>
    refine errors_withRole .getSlot ⟨trivial, fun a => ?_⟩
    cases a with
    | ok slot => exact errors_ok _ _
    | error e => exact errors_error List.mem_cons_self
  | requestAirdrop pubkey lamports =>
    refine errors_withRole (.requestAirdrop pubkey lamports) (errors_withArgument fun pk => ⟨trivial, fun a => ?_⟩)
    cases a with
    | ok sig => exact errors_ok _ _
    | error e => exact errors_error List.mem_cons_self
  | getTransactionDetails signature =>
    refine errors_withRole (.getTransactionDetails signature)
      (errors_withArgument fun sig => ⟨trivial, fun a => ?_⟩)
    cases a with
    | ok tx => exact errors_ok _ _
    | error e =>
      show Errors _ (ite _ _ _)
      split
      · exact errors_ok _ _
      · exact errors_error List.mem_cons_self
  | getEpochInfo =>
    refine errors_withRole .getEpochInfo ⟨trivial, fun a => ?_⟩
    cases a with
    | ok info => exact errors_ok _ _
    | error e => exact errors_error List.mem_cons_self

/-! ## The response -/

/-- A method does not respond by itself. -/
theorem not_rule_respond {request : RpcRequest} {past : List RpcEvent} {result : Except ConnectError RpcResponse} :
    ¬RpcRule Γ R headers request past (.respond result) := by
  intro h
  have hmethod := h.method
  cases request with
  | submitTransaction request =>
    obtain ⟨cur, c', -, hc, -, -⟩ := hmethod
    cases hc
  | _ =>
    have hcall := hmethod.2
    simp [RpcRequest.providerCall] at hcall

/-- When a request responds, its method has returned the result. -/
theorem exec_of_respond {m : RpcMessage} {ts : List RpcEvent} {result : Except ConnectError RpcResponse}
    {k : (RpcCall.respond result).Answer → RpcProg Unit}
    (h : Prog.Steps (m.program Γ R) ts (.call (.respond result) k)) :
    Prog.Exec (serveRequest Γ R (m.received Γ) m.request) ts result := by
  have hmethod : (serveRequest Γ R (m.received Γ) m.request).wp
      (Monitor.history (RpcRule Γ R (m.received Γ) m.request)) [] (fun _ _ => True) := wp_serveRequest m.request
  rcases Prog.steps_bind.mp h with ⟨p', hp', he⟩ | ⟨t₁, t₂, r, rfl, h₁, h₂⟩
  · cases p' with
    | ret r =>
      cases he
      exact hp'
    | call c k' =>
      cases he
      exact (not_rule_respond (Prog.wp_steps hmethod hp').1).elim
  · rcases Prog.steps_call.mp h₂ with ⟨rfl, he⟩ | ⟨a, t', rfl, h₃⟩
    · cases he
      rw [List.append_nil]
      exact h₁
    · cases (Prog.steps_ret.mp h₃).2

theorem rpcAccepted_map {t : List CallEvent} {sig : Signature} : RpcAccepted (t.map shareEvent) sig ↔ Accepted t sig := by
  constructor
  · rintro ⟨tx, hmem⟩
    obtain ⟨⟨c, a⟩, he, heq⟩ := List.mem_map.mp hmem
    cases heq
    exact ⟨tx, he⟩
  · rintro ⟨tx, hmem⟩
    exact ⟨tx, List.mem_map.mpr ⟨_, hmem, rfl⟩⟩

/-- `submit_transaction` reports a submission exactly when one was accepted, under the signature it was accepted with. -/
theorem exec_submit {request : SubmitTransactionRequest} {ts : List RpcEvent} {result : Except ConnectError RpcResponse}
    (h : Prog.Exec (serveRequest Γ R headers (.submitTransaction request)) ts result) :
    (∀ sig, RpcAccepted ts sig → ∃ slot, result = .ok (.submitTransaction ⟨true, Γ.signatureToString sig, "", slot⟩)) ∧
    ∀ response, result = .ok response → ∃ sig slot, RpcAccepted ts sig ∧
      response = .submitTransaction ⟨true, Γ.signatureToString sig, "", slot⟩ := by
  obtain ⟨t₁, t₂, r, rfl, h₁, h₂⟩ := Prog.exec_bind.mp h
  obtain ⟨rfl, rfl⟩ := Prog.exec_ret.mp h₂
  obtain ⟨t, rfl, ht⟩ := exec_share h₁
  simp only [List.append_nil, rpcAccepted_map]
  unfold submitTransaction at ht
  split at ht
  · obtain ⟨rfl, rfl⟩ := Prog.exec_ret.mp ht
    exact ⟨fun sig ⟨tx, hmem⟩ => (by cases hmem), fun response hr => (by cases hr)⟩
  · obtain ⟨u₁, u₂, out, rfl, hsign, h₃⟩ := Prog.exec_bind.mp ht
    have haccepted := exec_signAndSubmit hsign
    cases out with
    | error stage =>
      obtain ⟨rfl, rfl⟩ := Prog.exec_ret.mp h₃
      refine ⟨fun sig ha => ?_, fun response hr => (by cases hr)⟩
      rw [List.append_nil, haccepted sig] at ha
      obtain ⟨n, hn⟩ := ha
      cases hn
    | ok out =>
      obtain ⟨rfl, rfl⟩ := Prog.exec_ret.mp h₃
      simp only [List.append_nil]
      refine ⟨fun sig ha => ?_, fun response hr => ?_⟩
      · obtain ⟨n, hn⟩ := (haccepted sig).mp ha
        cases hn
        exact ⟨n, rfl⟩
      · cases hr
        exact ⟨out.1, out.2, (haccepted out.1).mpr ⟨out.2, rfl⟩, rfl⟩

end MediationAux

open RpcAux in
/-- In every run of the process, a method calls anything but its client only for a caller whose role it permits. One that reads
makes a single call, its own; `submit_transaction` makes the calls of the signing path, and asks for a signature or submits only
under the rule of the path. -/
theorem rpc_calls_mediated {Γ : Ctx} {R : RpcEnv} {w : Session} {x : Process} (h : Process.Reach Γ R w x)
    {before after : List (BridgeLabel ⊕ RpcLabel)} {t : Nat} {e : RpcEvent}
    (hlog : x.log = before ++ .inr (.call t e) :: after) (he : e.1.isRespond = false) :
    ∃ m, .deliver t m ∈ Twin.rightLog before ∧
      RpcRule Γ R (m.received Γ) m.request (traceOf t (Twin.rightLog before)) e.1 := by
  obtain ⟨m, k, hm, hsteps⟩ := h.right_call hlog
  have hallow := (Prog.wp_steps (wp_program m) hsteps).1
  rw [Monitor.after_history, List.nil_append] at hallow
  rcases hallow with hrespond | hrule
  · rw [hrespond] at he
    cases he
  · exact ⟨m, hm, hrule⟩

/-- What a client is told of its request: what the method made of the calls it made for it. An error is one the request determines;
a submission is reported exactly when one was accepted, under its signature. -/
structure Told (Γ : Ctx) (R : RpcEnv) (m : RpcMessage) (ts : List RpcEvent) (result : Except ConnectError RpcResponse) : Prop where
  computed : Prog.Exec (serveRequest Γ R (m.received Γ) m.request) ts result
  errors : ∀ e, result = .error e → e ∈ m.request.errors Γ R (m.received Γ)
  reported : ∀ request, m.request = .submitTransaction request → ∀ sig, RpcAccepted ts sig →
    ∃ slot, result = .ok (.submitTransaction ⟨true, Γ.signatureToString sig, "", slot⟩)
  accepted : ∀ request, m.request = .submitTransaction request → ∀ response, result = .ok response →
    ∃ sig slot, RpcAccepted ts sig ∧ response = .submitTransaction ⟨true, Γ.signatureToString sig, "", slot⟩

open MediationAux in
/-- In every run of the process, a response is what its method made of the calls of its own thread. The error in it depends on the
request alone, whatever Vault, the provider and the audit store said, and a submission is reported exactly when one was accepted. -/
theorem rpc_responses_told {Γ : Ctx} {R : RpcEnv} {w : Session} {x : Process} (h : Process.Reach Γ R w x)
    {before after : List (BridgeLabel ⊕ RpcLabel)} {t : Nat} {result : Except ConnectError RpcResponse}
    (hlog : x.log = before ++ .inr (.call t ⟨.respond result, ()⟩) :: after) :
    ∃ m, .deliver t m ∈ Twin.rightLog before ∧ Told Γ R m (traceOf t (Twin.rightLog before)) result := by
  obtain ⟨m, k, hm, hsteps⟩ := h.right_call hlog
  have hexec := exec_of_respond hsteps
  refine ⟨m, hm, hexec, (Prog.only_steps (errors_serveRequest m.request) hexec).2, fun request hrequest => ?_,
    fun request hrequest => ?_⟩
  · rw [hrequest] at hexec
    exact (exec_submit hexec).1
  · rw [hrequest] at hexec
    exact (exec_submit hexec).2

namespace MediationAux

open ProcessAux SampleAux

/-- A submission over gRPC, and a read of an account that does not exist. -/
def clientScript : ProcessScript :=
  [.inr (.deliver 0 (plainRequest (.submitTransaction ⟨encodeTransaction datedTx, platformAdmin⟩))),
   .inr (.deliver 1 (plainRequest (.getAccountData "8qbHbw2BbbTHBW1sbeqakYXVKRQM8Ne7pLK7m6CVfeR")))] ++
    List.replicate 1 (.inr (.call 1 rpcAnswer)) ++ List.replicate 6 (.inr (.call 0 rpcAnswer))

/-- Whether a step reports a submission. -/
def reportsSubmission : BridgeLabel ⊕ RpcLabel → Bool
  | .inr (.call _ ⟨.respond (.ok (.submitTransaction _)), _⟩) => true
  | _ => false

theorem clientRun : ∃ x, Process.Reach (ctx [datedTx]) devEnv (.fresh 1000 none) x ∧
    x.log.any methodEffect = true ∧ x.log.any reportsSubmission = true := by
  have hrun : ((Twin.init (.fresh 1000 none) : Process).exec (bridge (ctx [datedTx])) (rpcServer (ctx [datedTx]) devEnv)
      clientScript).any (fun x => x.log.any methodEffect && x.log.any reportsSubmission) = true := by
    decide +kernel
  obtain ⟨x, hx, htest⟩ := Twin.exists_reach_of_exec hrun
  rw [Bool.and_eq_true] at htest
  exact ⟨x, hx, htest.1, htest.2⟩

end MediationAux

open MediationAux ProcessAux SampleAux in
/-- A signature that is asked for over gRPC is asked for under the rule of the method. -/
theorem rpc_signature_mediated : ∃ (x : Process) (before after : List (BridgeLabel ⊕ RpcLabel)) (t : Nat) (e : RpcEvent),
    Process.Reach (ctx [datedTx]) devEnv (.fresh 1000 none) x ∧ x.log = before ++ .inr (.call t e) :: after ∧
      e.1.isRespond = false ∧ ∃ m, .deliver t m ∈ Twin.rightLog before ∧
        RpcRule (ctx [datedTx]) devEnv (m.received (ctx [datedTx])) m.request (traceOf t (Twin.rightLog before)) e.1 := by
  obtain ⟨x, hx, heffect, -⟩ := clientRun
  obtain ⟨l, hl, hsign⟩ := List.any_eq_true.mp heffect
  obtain ⟨before, after, hlog⟩ := List.append_of_mem hl
  rcases l with l | (⟨t, m⟩ | ⟨t, c, a⟩ | e)
  · cases hsign
  · cases hsign
  · have hcall : c.isRespond = false := by
      cases c <;> first | rfl | cases hsign
    exact ⟨x, before, after, t, ⟨c, a⟩, hx, hlog, hcall, rpc_calls_mediated hx hlog hcall⟩
  · exact e.elim

open MediationAux ProcessAux SampleAux in
/-- A submission that is reported over gRPC was accepted. -/
theorem rpc_submission_told : ∃ (x : Process) (before after : List (BridgeLabel ⊕ RpcLabel)) (t : Nat)
    (result : Except ConnectError RpcResponse), Process.Reach (ctx [datedTx]) devEnv (.fresh 1000 none) x ∧
      x.log = before ++ .inr (.call t ⟨.respond result, ()⟩) :: after ∧ result.isOk = true ∧
      ∃ m, .deliver t m ∈ Twin.rightLog before ∧ Told (ctx [datedTx]) devEnv m (traceOf t (Twin.rightLog before)) result := by
  obtain ⟨x, hx, -, hreports⟩ := clientRun
  obtain ⟨l, hl, hreport⟩ := List.any_eq_true.mp hreports
  obtain ⟨before, after, hlog⟩ := List.append_of_mem hl
  rcases l with l | (⟨t, m⟩ | ⟨t, c, a⟩ | e)
  · cases hreport
  · cases hreport
  · cases c with
    | respond result =>
      have hok : result.isOk = true := by
        rcases result with e | response
        · cases hreport
        · rfl
      exact ⟨x, before, after, t, result, hx, hlog, hok, rpc_responses_told hx hlog⟩
    | _ => cases hreport
  · exact e.elim

end ChainBridge
