import ChainBridge.Lemmas.Handlers
import ChainBridge.Lib.Cost
import ChainBridge.Process

/-!
# What the gRPC methods do

Every method but `submit_transaction` passes its role gate, parses its argument and makes one call of the provider.
`submit_transaction` passes its gate and goes on as the signing path. `RpcRule` says of each call of a method what is known when
it is made; the calls are made under it whatever the answers (`wp_serveRequest`).
-/

namespace ChainBridge

open Interleave

/-- The roles that a method permits. -/
def RpcRequest.roles : RpcRequest → List ServiceRole
  | .submitTransaction _ => submitRoles
  | .getBalance _ => readRoles
  | .getAccountData _ => readRoles
  | .getLatestBlockhash => serviceRoles
  | .getRecentPrioritizationFees _ => serviceRoles
  | .getTokenAccountBalance _ => readRoles
  | .getSignatureStatus _ => readRoles
  | .getSlot => serviceRoles
  | .requestAirdrop _ _ => airdropRoles
  | .getTransactionDetails _ => readRoles
  | .getEpochInfo => epochRoles

/-- The one call a method that does not submit makes, if its argument parses. -/
def RpcRequest.providerCall (Γ : Ctx) : RpcRequest → Option RpcCall
  | .submitTransaction _ => none
  | .getBalance pubkey => (Γ.pubkeyFromStr pubkey).toOption.map .getBalance
  | .getAccountData pubkey => (Γ.pubkeyFromStr pubkey).toOption.map .getAccount
  | .getLatestBlockhash => some (.shared .getLatestBlockhash)
  | .getRecentPrioritizationFees accountKeys =>
    (parseAccountKeys Γ accountKeys).toOption.map .getRecentPrioritizationFees
  | .getTokenAccountBalance pubkey => (Γ.pubkeyFromStr pubkey).toOption.map fun pk => .shared (.getTokenAccountBalance pk)
  | .getSignatureStatus signature => (Γ.signatureFromStr signature).toOption.map fun sig => .shared (.getSignatureStatuses sig)
  | .getSlot => some .getSlot
  | .requestAirdrop pubkey lamports => (Γ.pubkeyFromStr pubkey).toOption.map fun pk => .requestAirdrop pk lamports
  | .getTransactionDetails signature => (Γ.signatureFromStr signature).toOption.map .getTransaction
  | .getEpochInfo => some .getEpochInfo

/-- A response to the client. -/
def RpcCall.isRespond : RpcCall → Bool
  | .respond _ => true
  | _ => false

/-- The role of the caller is permitted for the request. -/
def Permitted (Γ : Ctx) (R : RpcEnv) (headers : HeaderMap) (request : RpcRequest) : Prop :=
  Γ.requireAny (extractRole Γ R.dev headers) request.roles = .ok ()

open SigningAux in
/-- What is known when a method makes a call after these: it submits, and the call is one of the signing path under its rule; or
it reads, and this is its only call. -/
def MethodRule (Γ : Ctx) (headers : HeaderMap) (past : List RpcEvent) (c : RpcCall) : RpcRequest → Prop
  | .submitTransaction request => ∃ cur c', past = cur.map shareEvent ∧ c = .shared c' ∧ c'.isSigning = true ∧
      AttemptRule Γ request.serializedTransaction request.keyId (submitIdentity Γ headers) cur c'
  | request => past = [] ∧ request.providerCall Γ = some c

/-- The calls of a request: the caller is permitted, and the method keeps to its rule. -/
structure RpcRule (Γ : Ctx) (R : RpcEnv) (headers : HeaderMap) (request : RpcRequest) (past : List RpcEvent) (c : RpcCall) :
    Prop where
  permitted : Permitted Γ R headers request
  method : MethodRule Γ headers past c request

namespace RpcAux

open SilentAux SigningAux HandlersAux

variable {Γ : Ctx} {R : RpcEnv} {headers : HeaderMap} {α β : Type}

/-! ## Shared parts -/

theorem share_bind (p : Handler α) (f : α → Handler β) : share (p >>= f) = (share p >>= fun a => share (f a)) := by
  induction p with
  | ret a => rfl
  | call c k ih => exact congrArg (Prog.call (RpcCall.shared c)) (funext fun r => ih r)

/-- A shared part keeps to what a history monitor allows when the part does under the same rule. -/
theorem wp_share {A : List CallEvent → Call → Prop} {B : List RpcEvent → RpcCall → Prop}
    (hAB : ∀ past c, A past c → B (past.map shareEvent) (.shared c)) {p : Handler α} {past : List CallEvent}
    {Q : List CallEvent → α → Prop} (h : p.wp (Monitor.history A) past Q) :
    (share p).wp (Monitor.history B) (past.map shareEvent) (fun past' a => ∃ cur, past' = cur.map shareEvent ∧ Q cur a) := by
  induction p generalizing past with
  | ret a => exact ⟨past, rfl, h⟩
  | call c k ih =>
    refine ⟨hAB past c h.1, fun r => ?_⟩
    have hpast : past.map shareEvent ++ [shareEvent ⟨c, r⟩] = (past ++ [(⟨c, r⟩ : CallEvent)]).map shareEvent := by simp
    show (share (k r)).wp (Monitor.history B) (past.map shareEvent ++ [shareEvent ⟨c, r⟩]) _
    rw [hpast]
    exact ih r (h.2 r)

theorem within_share {f : RpcCall → Nat} {p : Handler α} {n : Nat} {left : α → Nat}
    (h : p.Within (fun c => f (.shared c)) n left) : (share p).Within f n left := by
  induction p generalizing n with
  | ret a => exact h
  | call c k ih =>
    obtain ⟨m, hm, hk⟩ := h
    exact ⟨m, hm, fun r => ih r (hk r)⟩

theorem exec_share {p : Handler α} {ts : List RpcEvent} {a : α} (h : Prog.Exec (share p) ts a) :
    ∃ t, ts = t.map shareEvent ∧ Prog.Exec p t a := by
  induction p generalizing ts with
  | ret b =>
    obtain ⟨rfl, rfl⟩ := Prog.exec_ret.mp h
    exact ⟨[], rfl, .nil _⟩
  | call c k ih =>
    obtain ⟨r, ts', rfl, h'⟩ := Prog.exec_call.mp h
    obtain ⟨t, rfl, ht⟩ := ih r h'
    exact ⟨⟨c, r⟩ :: t, rfl, Prog.exec_call.mpr ⟨r, t, rfl, ht⟩⟩

/-! ## Gates and arguments -/

section Gate

variable {M : Monitor RpcCall RpcCall.Answer (List RpcEvent)} {past : List RpcEvent}

theorem wp_withRole {roles : List ServiceRole} {method : RpcProg (Except ConnectError α)}
    (h : Γ.requireAny (extractRole Γ R.dev headers) roles = .ok () → method.wp M past (fun _ _ => True)) :
    (withRole Γ R.dev headers roles method).wp M past (fun _ _ => True) := by
  unfold withRole
  split
  · trivial
  · rename_i hrole
    exact h hrole

theorem wp_withArgument {parsed : Except String α} {what : String} {method : α → RpcProg (Except ConnectError β)}
    (h : ∀ a, parsed = .ok a → (method a).wp M past (fun _ _ => True)) :
    (withArgument parsed what method).wp M past (fun _ _ => True) := by
  unfold withArgument
  split
  · trivial
  · exact h _ rfl

end Gate

/-! ## The calls of a method -/

/-- A method that reads: under its gate and with its argument parsed, one call of the provider, then the result. -/
theorem wp_read {request : RpcRequest} {c : RpcCall} {f : c.Answer → RpcProg (Except ConnectError β)}
    (hread : ∀ past c, MethodRule Γ headers past c request ↔ past = [] ∧ request.providerCall Γ = some c)
    (hperm : Permitted Γ R headers request) (hc : request.providerCall Γ = some c)
    (hf : ∀ a, ∃ result, f a = .ret result) :
    (Prog.perform c >>= f).wp (Monitor.history (RpcRule Γ R headers request)) [] (fun _ _ => True) := by
  refine ⟨⟨hperm, (hread [] c).mpr ⟨rfl, hc⟩⟩, fun a => ?_⟩
  obtain ⟨result, hresult⟩ := hf a
  show (f a).wp _ _ _
  rw [hresult]
  trivial

/-- `submit_transaction`: under its gate, the calls of the signing path. -/
theorem wp_submitTransaction (request : SubmitTransactionRequest) :
    (share (submitTransaction Γ R.dev headers request)).wp
      (Monitor.history (RpcRule Γ R headers (.submitTransaction request))) [] (fun _ _ => True) := by
  unfold submitTransaction
  cases hrole : Γ.requireAny (extractRole Γ R.dev headers) submitRoles with
  | error msg => trivial
  | ok u =>
    have hsign := Prog.wp_history_and
      (signing_signAndSubmit request.serializedTransaction request.keyId (submitIdentity Γ headers) "")
      (wp_signAndSubmit (allows_attemptRule Γ request.serializedTransaction request.keyId (submitIdentity Γ headers)) ""
        (Q := fun _ _ => True) fun _ _ => trivial)
    have hshared := wp_share (B := RpcRule Γ R headers (.submitTransaction request))
      (fun past c hc => ⟨hrole, past, c, rfl, rfl, hc.1, hc.2⟩) hsign
    show (share (signAndSubmit Γ _ _ _ _ >>= _)).wp _ [] _
    rw [share_bind, Prog.wp_bind]
    refine Prog.wp_mono hshared fun past r _ => ?_
    cases r <;> trivial

theorem wp_getTokenAccountBalance (pubkey : String) :
    (share (getTokenAccountBalance Γ R.dev headers pubkey)).wp
      (Monitor.history (RpcRule Γ R headers (.getTokenAccountBalance pubkey))) [] (fun _ _ => True) := by
  unfold getTokenAccountBalance
  cases hperm : Γ.requireAny (extractRole Γ R.dev headers) readRoles with
  | error msg => trivial
  | ok u =>
    cases hpk : Γ.pubkeyFromStr pubkey with
    | error e => trivial
    | ok pk =>
      refine ⟨⟨hperm, rfl, ?_⟩, fun a => ?_⟩
      · rw [RpcRequest.providerCall, hpk]
        rfl
      · cases a <;> trivial

theorem wp_getSignatureStatus (signature : String) :
    (share (getSignatureStatus Γ R.valueToString R.dev headers signature)).wp
      (Monitor.history (RpcRule Γ R headers (.getSignatureStatus signature))) [] (fun _ _ => True) := by
  unfold getSignatureStatus
  cases hperm : Γ.requireAny (extractRole Γ R.dev headers) readRoles with
  | error msg => trivial
  | ok u =>
    cases hsig : Γ.signatureFromStr signature with
    | error e => trivial
    | ok sig =>
      refine ⟨⟨hperm, rfl, ?_⟩, fun a => ?_⟩
      · rw [RpcRequest.providerCall, hsig]
        rfl
      · rcases a with e | _ | ⟨_ | status, rest⟩ <;> trivial

/-- A method keeps to its rule, whatever its calls are answered. -/
theorem wp_serveRequest (request : RpcRequest) :
    (serveRequest Γ R headers request).wp (Monitor.history (RpcRule Γ R headers request)) [] (fun _ _ => True) := by
  cases request with
  | submitTransaction request =>
    exact (Prog.wp_bind ..).mpr (Prog.wp_mono (wp_submitTransaction request) fun _ _ _ => trivial)
  | getBalance pubkey =>
    refine wp_withRole fun hperm => wp_withArgument fun pk hpk => wp_read (fun _ _ => Iff.rfl) hperm ?_ fun a => ?_
    · rw [RpcRequest.providerCall, hpk]
      rfl
    · cases a <;> exact ⟨_, rfl⟩
  | getAccountData pubkey =>
    refine wp_withRole fun hperm => wp_withArgument fun pk hpk => wp_read (fun _ _ => Iff.rfl) hperm ?_ fun a => ?_
    · rw [RpcRequest.providerCall, hpk]
      rfl
    · cases a with
      | ok account => exact ⟨_, rfl⟩
      | error e =>
        simp only
        split <;> exact ⟨_, rfl⟩
  | getLatestBlockhash =>
    refine wp_withRole fun hperm => wp_read (fun _ _ => Iff.rfl) hperm rfl fun a => ?_
    cases a <;> exact ⟨_, rfl⟩
  | getRecentPrioritizationFees accountKeys =>
    refine wp_withRole fun hperm => wp_withArgument fun keys hkeys => wp_read (fun _ _ => Iff.rfl) hperm ?_ fun a => ?_
    · rw [RpcRequest.providerCall, hkeys]
      rfl
    · cases a <;> exact ⟨_, rfl⟩
  | getTokenAccountBalance pubkey =>
    exact (Prog.wp_bind ..).mpr (Prog.wp_mono (wp_getTokenAccountBalance pubkey) fun _ _ _ => trivial)
  | getSignatureStatus signature =>
    exact (Prog.wp_bind ..).mpr (Prog.wp_mono (wp_getSignatureStatus signature) fun _ _ _ => trivial)
  | getSlot =>
    refine wp_withRole fun hperm => wp_read (fun _ _ => Iff.rfl) hperm rfl fun a => ?_
    cases a <;> exact ⟨_, rfl⟩
  | requestAirdrop pubkey lamports =>
    refine wp_withRole fun hperm => wp_withArgument fun pk hpk => wp_read (fun _ _ => Iff.rfl) hperm ?_ fun a => ?_
    · rw [RpcRequest.providerCall, hpk]
      rfl
    · cases a <;> exact ⟨_, rfl⟩
  | getTransactionDetails signature =>
    refine wp_withRole fun hperm => wp_withArgument fun sig hsig => wp_read (fun _ _ => Iff.rfl) hperm ?_ fun a => ?_
    · rw [RpcRequest.providerCall, hsig]
      rfl
    · cases a with
      | ok tx => exact ⟨_, rfl⟩
      | error e =>
        simp only
        split <;> exact ⟨_, rfl⟩
  | getEpochInfo =>
    refine wp_withRole fun hperm => wp_read (fun _ _ => Iff.rfl) hperm rfl fun a => ?_
    cases a <;> exact ⟨_, rfl⟩

/-- A request: its method keeps to its rule, and then it responds. -/
theorem wp_program (m : RpcMessage) :
    (m.program Γ R).wp (Monitor.history fun past c => c.isRespond = true ∨ RpcRule Γ R (m.received Γ) m.request past c) []
      (fun _ _ => True) := by
  have hmethod : (serveRequest Γ R (m.received Γ) m.request).wp
      (Monitor.history (RpcRule Γ R (m.received Γ) m.request)) [] (fun _ _ => True) := wp_serveRequest m.request
  refine (Prog.wp_bind ..).mpr ?_
  exact Prog.wp_mono (Prog.wp_history_mono hmethod fun _ _ h => Or.inr h) fun _ _ _ => ⟨Or.inl rfl, fun _ => trivial⟩

/-- The call of a method that reads leaves the session, and neither signs nor submits. -/
theorem inert_providerCall {request : RpcRequest} {c : RpcCall} (h : request.providerCall Γ = some c) :
    (∀ s a, (Session.serveRpc s c a).2 = s) ∧ ∀ c', c = .shared c' → c'.isEffect = false := by
  have hmap : ∀ {γ : Type} {parsed : Except String γ} {f : γ → RpcCall}, parsed.toOption.map f = some c → ∃ a, f a = c := by
    intro γ parsed f hf
    obtain ⟨a, -, ha⟩ := Option.map_eq_some_iff.mp hf
    exact ⟨a, ha⟩
  cases request with
  | submitTransaction request => cases h
  | getLatestBlockhash =>
    cases h
    exact ⟨fun _ _ => rfl, fun c' hc => by cases hc; rfl⟩
  | getSlot =>
    cases h
    exact ⟨fun _ _ => rfl, fun c' hc => by cases hc⟩
  | getEpochInfo =>
    cases h
    exact ⟨fun _ _ => rfl, fun c' hc => by cases hc⟩
  | _ =>
    obtain ⟨a, rfl⟩ := hmap h
    exact ⟨fun _ _ => rfl, fun c' hc => by cases hc <;> rfl⟩

theorem inert_signing {c : Call} (h : c.isSigning = true) (s : Session) (a : c.Answer) : (s.serve c a).2 = s := by
  cases c <;> first | rfl | cases h

/-- A call of a method leaves the session as it is. -/
theorem inert_rule {request : RpcRequest} {past : List RpcEvent} {c : RpcCall} (h : RpcRule Γ R headers request past c)
    (s : Session) (a : c.Answer) : (s.serveRpc c a).2 = s := by
  have hmethod := h.method
  cases request with
  | submitTransaction request =>
    obtain ⟨cur, c', -, rfl, hsigning, -⟩ := hmethod
    exact inert_signing hsigning s a
  | _ => exact (inert_providerCall hmethod.2).1 s a

/-- A request leaves the session as it is: it makes no call that claims, records or remembers. -/
theorem quiet_rpcServer {Γ : Ctx} {R : RpcEnv} {w : Session} {x : Process} {l : RpcLabel}
    {q : Pool RpcCall RpcCall.Answer Session RpcMessage Empty} (h : Process.Reach Γ R w x)
    (hs : Pool.Step (rpcServer Γ R) x.right l q) : q.world = x.right.world := by
  cases hs with
  | deliver t m hn => rfl
  | env e he => exact e.elim
  | @call t m c k r hc =>
    obtain ⟨p, hp, -, hthreads, -⟩ := h.right
    rw [← hthreads] at hc
    rcases (Prog.wp_steps (wp_program m) (hp.steps_of_thread hc)).1 with hrespond | hrule
    · cases c <;> first | rfl | cases hrespond
    · exact inert_rule hrule _ _

end RpcAux

end ChainBridge
