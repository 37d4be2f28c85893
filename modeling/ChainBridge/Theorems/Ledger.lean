import ChainBridge.Lib.Ledger
import ChainBridge.Theorems.Process

/-!
# The audit trail as a ledger of submissions

Handlers and methods submit side by side, and each records what the chain accepted in one audit store. The rows of the store
that report a submission are, together, the submissions that were accepted, each under the correlation id and the identity of
the message that asked for it; what may be missing is the last submission of a handler or a method that has not come to its
record.
-/

namespace ChainBridge

open Interleave

/-- Under whose name audit entries are made: a correlation id and an identity. -/
structure Author where
  correlationId : String
  identity : SpiffeIdentity

/-- The author of the entries that the handler of a message makes; a payload that does not parse makes none. -/
def Delivery.author : Delivery → Option Author
  | .submit (.ok envelope) => some ⟨envelope.correlationId, ⟨envelope.serviceIdentity⟩⟩
  | .cancel (.ok envelope) => some ⟨envelope.correlationId, ⟨envelope.serviceIdentity⟩⟩
  | .mint (.ok envelope) => some ⟨envelope.correlationId, ⟨envelope.serviceIdentity⟩⟩
  | .status (.ok envelope) => some ⟨envelope.correlationId, ⟨envelope.serviceIdentity⟩⟩
  | _ => none

/-- The author of the entries that a method makes: the identity of the connection, with no correlation id. -/
def RpcMessage.author (Γ : Ctx) (m : RpcMessage) : Option Author :=
  match m.request with
  | .submitTransaction _ => some ⟨"", submitIdentity Γ (m.received Γ)⟩
  | _ => none

/-- What the trail says of an accepted submission: for whom it was made, and the signature. -/
structure Receipt where
  correlationId : String
  identity : String
  signature : String
  deriving DecidableEq

/-- The receipt of a submission that was accepted for an author. -/
def Author.receipt (Γ : Ctx) (a : Author) (sig : Signature) : Receipt :=
  { correlationId := a.correlationId, identity := a.identity.uri, signature := Γ.signatureToString sig }

/-- The receipt in an audit entry that reports a submission. -/
def AuditEntry.receipt (e : AuditEntry) : Option Receipt :=
  match e.outcome with
  | .submitted signature _ => some { correlationId := e.correlationId, identity := e.identity, signature }
  | _ => none

/-- The signature of a submission that was accepted. -/
def acceptedSignature : CallEvent → Option Signature
  | ⟨.sendTransaction _, .ok sig⟩ => some sig
  | _ => none

/-- Who makes a call: a handler or a method, by its thread. -/
abbrev Caller : Type := Nat ⊕ Nat

/-- A step of the process as a call of the handlers, with who makes it. -/
def sharedCall : BridgeLabel ⊕ RpcLabel → Option (Caller × CallEvent)
  | .inl (.call t e) => some (.inl t, e)
  | .inr (.call t ⟨.shared c, a⟩) => some (.inr t, ⟨c, a⟩)
  | _ => none

/-- The author for whom a caller works, by the message that started it. -/
def authorOf (Γ : Ctx) (log : List (BridgeLabel ⊕ RpcLabel)) : Caller → Option Author
  | .inl t => ((delivered (Twin.leftLog log)).lookup t).bind Delivery.author
  | .inr t => ((delivered (Twin.rightLog log)).lookup t).bind (RpcMessage.author Γ)

/-- The receipt of a call, if it is a submission that was accepted for an author. -/
def receiptOf (Γ : Ctx) (author : Option Author) (e : CallEvent) : Option Receipt :=
  (acceptedSignature e).bind fun sig => author.map fun a => a.receipt Γ sig

/-- The calls of a caller in a history. -/
def callsOf (who : Caller) (log : List (BridgeLabel ⊕ RpcLabel)) : List CallEvent :=
  (stepsBy who (log.filterMap sharedCall)).map (·.2)

/-- The receipts of the submissions accepted in a history, of all callers, in that order. -/
def acceptedReceipts (Γ : Ctx) (log : List (BridgeLabel ⊕ RpcLabel)) : List Receipt :=
  (log.filterMap sharedCall).filterMap fun s => receiptOf Γ (authorOf Γ log s.1) s.2

/-- What the in-memory store holds after a history: the entries appended to it, in that order. -/
def auditTrail (Γ : Ctx) (log : List (BridgeLabel ⊕ RpcLabel)) : InMemoryAuditStore :=
  ((log.filterMap sharedCall).filterMap fun s => appendedEntry s.2).foldl (fun store e => (store.append Γ e).2) []

/-- The receipts in the rows of the store. -/
def InMemoryAuditStore.receipts (store : InMemoryAuditStore) : List Receipt := store.filterMap fun row => row.2.2.receipt

/-- The ids of the rows count from 1, and each row is hashed with the hash of the row before it. -/
def InMemoryAuditStore.Linked (Γ : Ctx) (store : InMemoryAuditStore) : Prop :=
  ∀ (i : Nat) (row : Int × AuditHash × AuditEntry), store[i]? = some row →
    row.1 = (i : Int) + 1 ∧ row.2.1 = row.2.2.entryHash Γ (InMemoryAuditStore.latestHash (store.take i))

/-- A rejection that an author records. -/
def Author.Rejects (a : Author) (e : AuditEntry) : Prop :=
  ∃ action stage reason createdAtMs, e = .new a.correlationId a.identity.uri action (.rejected stage reason) createdAtMs

/-- The entry of a submission that was accepted for an author. -/
def Author.submitted (Γ : Ctx) (a : Author) (sig : Signature) (createdAtMs : Nat) : AuditEntry :=
  .new a.correlationId a.identity.uri "sign_and_submit" (.submitted (Γ.signatureToString sig) 0) (UInt64.ofNat createdAtMs)

/-- What a caller owes the trail: nothing; the time of the entry of a submission that was accepted; or that entry. -/
inductive Owed where
  | nothing
  | clock (sig : Signature)
  | entry (sig : Signature) (createdAtMs : Nat)

/-- The submission that is owed. -/
def Owed.signature : Owed → Option Signature
  | .nothing => none
  | .clock sig => some sig
  | .entry sig _ => some sig

/-- What a caller owes, by its last calls: nothing since the submission but the reading of the clock. -/
def Owed.Pending (past : List CallEvent) : Owed → Prop
  | .nothing => True
  | .clock sig => ∃ before tx, past = before ++ [⟨.sendTransaction tx, .ok sig⟩]
  | .entry sig createdAtMs => ∃ before tx, past = before ++ [⟨.sendTransaction tx, .ok sig⟩, ⟨.now, createdAtMs⟩]

/-- What the store tells of a history. All submissions that were accepted have their row, each under its author, but for one at
most of each caller that is owed; every row is its author's; and the rows are one chain. -/
structure TrailTells (Γ : Ctx) (log : List (BridgeLabel ⊕ RpcLabel)) (owed : List (Caller × Receipt)) : Prop where
  recorded : (acceptedReceipts Γ log).Perm ((auditTrail Γ log).receipts ++ owed.map (·.2))
  attributed : ∀ s ∈ log.filterMap sharedCall, (acceptedSignature s.2).isSome = true → (authorOf Γ log s.1).isSome = true
  once : (owed.map (·.1)).Nodup
  owing : ∀ p ∈ owed, ∃ (a : Author) (sig : Signature) (o : Owed), authorOf Γ log p.1 = some a ∧ p.2 = a.receipt Γ sig ∧
    o.signature = some sig ∧ o.Pending (callsOf p.1 log)
  authored : ∀ row ∈ auditTrail Γ log, ∃ who a, authorOf Γ log who = some a ∧ row.2.2.correlationId = a.correlationId ∧
    row.2.2.identity = a.identity.uri
  linked : (auditTrail Γ log).Linked Γ

/-- What a caller may do: who owes nothing may do anything but append entries that are no rejections of its author, and who
owes an entry may do nothing but read the clock for it and append it. -/
def Owed.allow (Γ : Ctx) (author : Option Author) : Owed → Call → Prop
  | .nothing, .sendTransaction _ => author.isSome = true
  | .nothing, .auditAppend e => ∃ a, author = some a ∧ a.Rejects e
  | .nothing, _ => True
  | .clock _, c => c = .now
  | .entry sig createdAtMs, c => ∃ a, author = some a ∧ c = .auditAppend (a.submitted Γ sig createdAtMs)

/-- What a caller owes after a call. -/
def Owed.next : Owed → (c : Call) → c.Answer → Owed
  | .nothing, .sendTransaction _, .ok sig => .clock sig
  | .clock sig, .now, createdAtMs => .entry sig createdAtMs
  | .entry _ _, .auditAppend _, _ => .nothing
  | owed, _, _ => owed

/-- The monitor of what a caller owes. -/
def ledger (Γ : Ctx) (author : Option Author) : Monitor Call Call.Answer Owed := ⟨Owed.allow Γ author, Owed.next⟩

/-- The monitor for the methods: their own calls are made when nothing is owed. -/
def rpcLedger (Γ : Ctx) (author : Option Author) : Monitor RpcCall RpcCall.Answer Owed where
  allow
    | owed, .shared c => owed.allow Γ author c
    | owed, _ => owed = .nothing
  next
    | owed, .shared c, a => owed.next c a
    | owed, _, _ => owed

namespace LedgerAux

open SilentAux HandlersAux RpcAux

variable {Γ : Ctx} {author : Option Author} {α β : Type}

/-! ## What a handler owes -/

/-- A call that leaves nothing owed: no submission, and no entry but a rejection of the author. -/
def Plain (author : Option Author) : Call → Prop
  | .sendTransaction _ => False
  | .auditAppend e => ∃ a, author = some a ∧ a.Rejects e
  | _ => True

/-- A part that owes nothing, all along. -/
theorem wp_plain {p : Handler α} {R : α → Prop} (hp : p.Only (Plain author) R) {Q : Owed → α → Prop}
    (hQ : ∀ a, R a → Q .nothing a) : p.wp (ledger Γ author) .nothing Q := by
  refine Prog.wp_of_only hp (I := fun s => s = .nothing) (fun s hs c hc => ?_) rfl fun s a hs ha => hs ▸ hQ a ha
  subst hs
  cases c <;> first | exact ⟨trivial, fun _ => rfl⟩ | exact ⟨hc, fun _ => rfl⟩ | exact hc.elim

theorem plain_of_checked {p : Handler α} {R : α → Prop} (hp : Checked p R) : p.Only (Plain author) R :=
  Prog.only_mono hp (fun c hc => by rw [hc]; trivial) fun _ h => h

/-- The entry of a rejection. -/
theorem plain_reject {a : Author} (action stage reason : String) :
    (recordAudit a.correlationId a.identity action (.rejected stage reason)).Only (Plain (some a)) (fun _ => True) :=
  ⟨trivial, fun _ => ⟨⟨a, rfl, action, stage, reason, _, rfl⟩, fun _ => trivial⟩⟩

theorem plain_rejectThen {a : Author} (action stage reason : String) (r : α) :
    (do recordAudit a.correlationId a.identity action (.rejected stage reason); return r : Handler α).Only (Plain (some a))
      (fun _ => True) :=
  Prog.only_bind (plain_reject action stage reason) fun _ _ => trivial

theorem plain_selectBlockhash (tx : Transaction) : (selectBlockhash tx).Only (Plain author) (fun _ => True) := by
  unfold selectBlockhash
  split
  · refine Prog.only_perform.mpr ⟨trivial, fun cached => ?_⟩
    cases cached with
    | some entry => trivial
    | none =>
      refine Prog.only_perform.mpr ⟨trivial, fun answer => ?_⟩
      cases answer <;> trivial
  · trivial

theorem plain_presignSimulate {a : Author} (tx : Transaction) :
    (presignSimulate Γ a.identity a.correlationId tx).Only (Plain (some a)) (fun _ => True) := by
  unfold presignSimulate
  split
  · trivial
  · refine Prog.only_perform.mpr ⟨trivial, fun answer => ?_⟩
    rcases answer with e | ⟨_ | e, units⟩
    · trivial
    · trivial
    · exact plain_rejectThen ..

theorem plain_vaultSign (tx : Transaction) : (vaultSign Γ tx).Only (Plain author) (fun _ => True) := by
  refine Prog.only_bind (plain_of_checked (checked_logPayer tx)) fun _ _ => ?_
  refine Prog.only_perform.mpr ⟨trivial, fun answer => ?_⟩
  cases answer with
  | error e => trivial
  | ok sig => exact Prog.only_bind (plain_of_checked (checked_attachSignature tx sig)) fun _ _ => trivial

theorem plain_signPlatformAdmin {a : Author} (tx : Transaction) :
    (signPlatformAdmin Γ a.identity a.correlationId tx).Only (Plain (some a)) (fun _ => True) := by
  refine Prog.only_bind (plain_selectBlockhash tx) fun r _ => ?_
  cases r with
  | error stage => trivial
  | ok tx' =>
    refine Prog.only_bind (plain_presignSimulate tx') fun r _ => ?_
    cases r with
    | error stage => trivial
    | ok u => exact plain_vaultSign tx'

/-- What a part of the signing path leaves owed. -/
abbrev Clears {ε : Type} (M : Monitor Call Call.Answer Owed) (p : Handler ε) : Prop :=
  p.wp M .nothing (fun owed _ => owed = .nothing)

/-- A submission that is accepted is recorded at once; one that is not is a rejection. -/
theorem clears_sendSigned {a : Author} (tx : Transaction) :
    Clears (ledger Γ (some a)) (sendSigned Γ a.identity a.correlationId tx) := by
  refine (Prog.wp_perform_bind ..).mpr ⟨rfl, fun answer => ?_⟩
  cases answer with
  | ok sig => exact ⟨rfl, fun createdAtMs => ⟨⟨a, rfl, rfl⟩, fun _ => rfl⟩⟩
  | error e => exact wp_plain (plain_rejectThen ..) fun _ _ => rfl

theorem clears_signAndSubmit {a : Author} (serializedTx : Bytes) (keyId : String) :
    Clears (ledger Γ (some a)) (signAndSubmit Γ serializedTx keyId a.identity a.correlationId) := by
  unfold signAndSubmit
  split
  · rfl
  rename_i tx _
  split
  · exact wp_plain (plain_rejectThen ..) fun _ _ => rfl
  split
  · refine (Prog.wp_bind ..).mpr (wp_plain (plain_signPlatformAdmin tx) fun r _ => ?_)
    cases r with
    | error stage => rfl
    | ok tx' => exact clears_sendSigned tx'
  split
  · exact wp_plain (plain_rejectThen ..) fun _ _ => rfl
  · exact clears_sendSigned tx

theorem clears_retrySpawn {ε : Type} {M : Monitor Call Call.Answer Owed} {action : Handler (Except ε α)}
    (h : Clears M action) (n : Nat) : Clears M (retrySpawn action n) := by
  induction n with
  | zero => exact h
  | succ n ih =>
    refine (Prog.wp_bind ..).mpr (Prog.wp_mono h fun owed r howed => ?_)
    subst howed
    cases r with
    | ok a => rfl
    | error e => exact ih

theorem clears_buildAndSubmitGenerationMint {a : Author} (recipientWallet : String) (energyKwh : UInt64)
    (meterId : Vector UInt8 16) (windowStartMs : Int64) :
    Clears (ledger Γ (some a)) (buildAndSubmitGenerationMint Γ recipientWallet energyKwh meterId windowStartMs a.identity
      a.correlationId) := by
  unfold buildAndSubmitGenerationMint
  split
  · rfl
  split
  · rfl
  refine (Prog.wp_perform_bind ..).mpr ⟨trivial, fun answer => ?_⟩
  cases answer with
  | error e => rfl
  | ok payer =>
    simp only
    split
    · rfl
    rename_i serialized _
    refine (Prog.wp_bind ..).mpr (Prog.wp_mono (clears_signAndSubmit serialized platformAdmin) fun owed r howed => ?_)
    subst howed
    cases r with
    | error stage => rfl
    | ok out =>
      have hpoll : (resolveConfirmation out.1).Only (Plain (some a)) (fun _ => True) := only_resolveConfirmation trivial 24
      refine (Prog.wp_bind ..).mpr (wp_plain hpoll fun verdict _ => ?_)
      cases verdict <;> rfl

theorem plain_refuse {a : Author} (action stage reason subject : String) (reply : Reply) (kind : AckKind) :
    (refuse a.correlationId a.identity.uri action stage reason subject reply kind).Only (Plain (some a)) (fun _ => True) :=
  Prog.only_bind (plain_reject ..) fun _ _ => ⟨trivial, fun _ => ⟨trivial, fun _ => trivial⟩⟩

theorem plain_publishAck (subject : String) (reply : Reply) (kind : AckKind) :
    (do publish subject reply; ack kind : Handler Unit).Only (Plain author) (fun _ => True) :=
  ⟨trivial, fun _ => ⟨trivial, fun _ => trivial⟩⟩

theorem plain_ack (kind : AckKind) : (ack kind).Only (Plain author) (fun _ => True) := ⟨trivial, fun _ => trivial⟩

/-- A part that never owes anything clears what it owes. -/
theorem clears_of_plain {p : Handler α} {R : α → Prop} (hp : p.Only (Plain author) R) : Clears (ledger Γ author) p :=
  wp_plain hp fun _ _ => rfl

/-- The refusals of the gates are rejections of the author. -/
structure RefusalsPlain (author : Option Author) (g : Gates) : Prop where
  auth : ∀ reason, (g.refuseAuth reason).Only (Plain author) (fun _ => True)
  role : g.refuseRole.Only (Plain author) (fun _ => True)
  stale : ∀ nowMs, (g.refuseStale nowMs).Only (Plain author) (fun _ => True)

/-- A handler with gates: readings, a lookup, and a refusal or the rest. -/
theorem clears_gates {g : Gates} (hg : RefusalsPlain author g) {rest : Nat → Handler Unit}
    (hrest : ∀ nowMs, Clears (ledger Γ author) (rest nowMs)) : Clears (ledger Γ author) (g.run rest) := by
  refine (Prog.wp_perform_bind ..).mpr ⟨trivial, fun authMs => ?_⟩
  cases g.decision authMs with
  | error reason => exact clears_of_plain (hg.auth reason)
  | ok u =>
    cases g.permitted with
    | error e => exact clears_of_plain hg.role
    | ok u =>
      refine (Prog.wp_perform_bind ..).mpr ⟨trivial, fun found => ?_⟩
      cases found with
      | true => exact clears_of_plain (plain_ack .ack)
      | false =>
        refine (Prog.wp_perform_bind ..).mpr ⟨trivial, fun nowMs => ?_⟩
        split
        · exact clears_of_plain (hg.stale nowMs)
        · exact hrest nowMs

/-- The calls that finish an effect owe nothing. -/
theorem plain_finish (correlationId replySubject : String) (key : Option String) (nowMs : Nat) (reply : Reply)
    (done : Option (String × Nat)) :
    (Prog.performAll (finishCalls correlationId replySubject key nowMs reply done) : Handler Unit).Only (Plain author)
      (fun _ => True) := by
  refine Prog.only_performAll fun c hc => ?_
  cases done <;> cases key <;> simp only [finishCalls, Option.map, Option.toList, List.cons_append, List.nil_append,
    List.mem_cons, List.not_mem_nil, or_false] at hc <;> rcases hc with rfl | rfl | rfl | rfl <;> trivial

theorem clears_submitChecked (envelope : TxSubmitMessage) (nowMs : Nat) :
    Clears (ledger Γ (Delivery.submit (.ok envelope)).author) (submitChecked Γ envelope nowMs) := by
  unfold submitChecked
  simp only
  split
  · exact clears_of_plain (plain_publishAck ..)
  split
  · exact clears_of_plain (plain_refuse ..)
  split
  · exact clears_of_plain (plain_refuse ..)
  refine (Prog.wp_perform_bind ..).mpr ⟨trivial, fun prior => ?_⟩
  cases prior with
  | some result => exact clears_of_plain (plain_publishAck ..)
  | none =>
    simp only
    rw [submitEffect_eq]
    refine (Prog.wp_bind ..).mpr (Prog.wp_mono (clears_retrySpawn (clears_signAndSubmit ..) retryDelays) fun owed r howed => ?_)
    subst howed
    rw [submitFinish_eq]
    exact clears_of_plain (plain_finish ..)

theorem clears_mintRest (envelope : MintEnergyMessage) (nowMs : Nat) :
    Clears (ledger Γ (Delivery.mint (.ok envelope)).author) (mintRest Γ envelope nowMs) := by
  refine (Prog.wp_perform_bind ..).mpr ⟨trivial, fun prior => ?_⟩
  cases prior with
  | some result => exact clears_of_plain (plain_publishAck ..)
  | none =>
    show Clears _ (mintEffect Γ envelope _ nowMs)
    rw [mintEffect_eq]
    refine (Prog.wp_bind ..).mpr (Prog.wp_mono (clears_buildAndSubmitGenerationMint ..) fun owed r howed => ?_)
    subst howed
    rw [mintFinish_eq]
    exact clears_of_plain (plain_finish ..)

theorem plain_handleStatus (envelope : TxStatusMessage) :
    (handleStatus Γ (.ok envelope)).Only (Plain (Delivery.status (.ok envelope)).author) (fun _ => True) := by
  refine Prog.only_perform.mpr ⟨trivial, fun authMs => ?_⟩
  cases envelopeDecision Γ envelope.auth envelope.serviceIdentity (Γ.canonicalStatusBytes envelope) false authMs with
  | error reason => exact plain_refuse ..
  | ok u =>
    simp only
    split
    · exact plain_refuse ..
    have hread : (signatureStatus Γ envelope.signature).Only (Plain (Delivery.status (.ok envelope)).author) (fun _ => True) := by
      unfold signatureStatus
      split
      · trivial
      · refine Prog.only_perform.mpr ⟨trivial, fun answer => ?_⟩
        rcases answer with e | _ | ⟨_ | status, rest⟩ <;> trivial
    exact Prog.only_bind hread fun r _ => plain_publishAck ..

/-- Every handler keeps the ledger of its author, whatever its calls are answered, and ends with nothing owed. -/
theorem clears_dispatch (d : Delivery) : Clears (ledger Γ d.author) (dispatch Γ d) := by
  cases d with
  | submit payload =>
    cases payload with
    | error e => exact clears_of_plain (plain_ack .term)
    | ok envelope =>
      rw [dispatch, handleSubmit_eq]
      exact clears_gates ⟨fun _ => plain_refuse .., plain_refuse .., fun _ => plain_refuse ..⟩ (clears_submitChecked envelope)
  | cancel payload =>
    cases payload with
    | error e => exact clears_of_plain (plain_ack .term)
    | ok envelope =>
      rw [dispatch, handleCancel_eq]
      refine clears_gates ⟨fun _ => plain_refuse .., plain_refuse .., fun _ => plain_refuse ..⟩ fun nowMs => ?_
      rw [cancelRest_eq]
      exact clears_of_plain (Prog.only_performAll (by simp [Plain]))
  | mint payload =>
    cases payload with
    | error e => exact clears_of_plain (plain_ack .term)
    | ok envelope =>
      rw [dispatch, handleMint_eq]
      exact clears_gates ⟨fun _ => plain_refuse .., plain_refuse .., fun _ => plain_refuse ..⟩ (clears_mintRest envelope)
  | status payload =>
    cases payload with
    | error e => exact clears_of_plain (plain_ack .term)
    | ok envelope => exact clears_of_plain (plain_handleStatus envelope)
  | unknown subject => exact clears_of_plain (plain_ack .ack)

/-! ## What a method owes -/

/-- A part that is shared with the handlers, under the monitor of the methods. -/
theorem wp_rpcLedger_share {p : Handler α} {owed : Owed} {Q : Owed → α → Prop} (h : p.wp (ledger Γ author) owed Q) :
    (share p).wp (rpcLedger Γ author) owed Q := by
  induction p generalizing owed with
  | ret a => exact h
  | call c k ih => exact ⟨h.1, fun r => ih r (h.2 r)⟩

/-- A method that reads owes nothing. -/
theorem wp_rpcLedger_reading {p : RpcProg α} {allow : List RpcEvent → RpcCall → Prop} {past : List RpcEvent}
    {Q : List RpcEvent → α → Prop} (h : p.wp (Monitor.history allow) past Q)
    (hallow : ∀ past c, allow past c → (rpcLedger Γ author).allow .nothing c ∧
      ∀ a, (rpcLedger Γ author).next .nothing c a = .nothing) :
    p.wp (rpcLedger Γ author) .nothing (fun owed _ => owed = .nothing) := by
  induction p generalizing past with
  | ret a => rfl
  | call c k ih =>
    obtain ⟨hc, hnext⟩ := hallow past c h.1
    refine ⟨hc, fun r => ?_⟩
    rw [hnext r]
    exact ih r (h.2 r)

/-- The one call of a method that reads leaves nothing owed. -/
theorem plain_providerCall {request : RpcRequest} {c : RpcCall} (h : request.providerCall Γ = some c) :
    (rpcLedger Γ author).allow .nothing c ∧ ∀ a, (rpcLedger Γ author).next .nothing c a = .nothing := by
  have hmap : ∀ {γ : Type} {parsed : Except String γ} {f : γ → RpcCall}, parsed.toOption.map f = some c → ∃ a, f a = c := by
    intro γ parsed f hf
    obtain ⟨a, -, ha⟩ := Option.map_eq_some_iff.mp hf
    exact ⟨a, ha⟩
  cases request with
  | submitTransaction request => cases h
  | getLatestBlockhash =>
    cases h
    exact ⟨trivial, fun _ => rfl⟩
  | getSlot | getEpochInfo =>
    cases h
    exact ⟨rfl, fun _ => rfl⟩
  | getTokenAccountBalance _ | getSignatureStatus _ =>
    obtain ⟨a, rfl⟩ := hmap h
    exact ⟨trivial, fun _ => rfl⟩
  | _ =>
    obtain ⟨a, rfl⟩ := hmap h
    exact ⟨rfl, fun _ => rfl⟩

/-- Every method keeps the ledger of its author, and ends with nothing owed. -/
theorem clears_program {R : RpcEnv} (m : RpcMessage) :
    (m.program Γ R).wp (rpcLedger Γ (m.author Γ)) .nothing (fun owed _ => owed = .nothing) := by
  have hmethod : (serveRequest Γ R (m.received Γ) m.request).wp (rpcLedger Γ (m.author Γ)) .nothing
      (fun owed _ => owed = .nothing) := by
    have hreads : (serveRequest Γ R (m.received Γ) m.request).wp
        (Monitor.history (RpcRule Γ R (m.received Γ) m.request)) [] (fun _ _ => True) := wp_serveRequest m.request
    cases hrequest : m.request with
    | submitTransaction request =>
      have hauthor : m.author Γ = some ⟨"", submitIdentity Γ (m.received Γ)⟩ := by
        rw [RpcMessage.author, hrequest]
      rw [hauthor]
      refine (Prog.wp_bind ..).mpr
        (Prog.wp_mono (wp_rpcLedger_share (Q := fun owed _ => owed = .nothing) ?_) fun owed r howed => howed)
      unfold submitTransaction
      split
      · rfl
      · refine (Prog.wp_bind ..).mpr
          (Prog.wp_mono (clears_signAndSubmit (a := ⟨"", submitIdentity Γ (m.received Γ)⟩) ..) fun owed r howed => ?_)
        cases r <;> exact howed
    | _ =>
      rw [hrequest] at hreads
      exact wp_rpcLedger_reading hreads fun past c hrule => plain_providerCall hrule.method.2
  refine (Prog.wp_bind ..).mpr (Prog.wp_mono hmethod fun owed result howed => ?_)
  exact ⟨howed, fun _ => howed⟩

/-! ## What the calls of a caller say -/

/-- What the calls of a caller say when it owes this. -/
structure Kept (Γ : Ctx) (author : Option Author) (owed : Owed) (past : List CallEvent) : Prop where
  settled : Settled (receiptOf Γ author) (fun e => (appendedEntry e).bind AuditEntry.receipt) past
    (owed.signature.bind fun sig => author.map fun a => a.receipt Γ sig)
  attributed : ∀ e ∈ past, (acceptedSignature e).isSome = true → author.isSome = true
  authored : ∀ e ∈ past, ∀ entry, appendedEntry e = some entry →
    ∃ a, author = some a ∧ entry.correlationId = a.correlationId ∧ entry.identity = a.identity.uri
  pending : owed.Pending past

theorem kept_nil (Γ : Ctx) (author : Option Author) : Kept Γ author .nothing [] where
  settled := settled_nil ..
  attributed := fun e he => by cases he
  authored := fun e he => by cases he
  pending := trivial

section Step

variable {owed owed' : Owed} {past : List CallEvent} {e : CallEvent}

/-- A call of a caller, by what it has to be recorded for, what it records and what is pending after it. -/
theorem Kept.snoc (h : Kept Γ author owed past)
    (hsettled : Settled (receiptOf Γ author) (fun e => (appendedEntry e).bind AuditEntry.receipt) (past ++ [e])
      (owed'.signature.bind fun sig => author.map fun a => a.receipt Γ sig))
    (hattributed : (acceptedSignature e).isSome = true → author.isSome = true)
    (hauthored : ∀ entry, appendedEntry e = some entry →
      ∃ a, author = some a ∧ entry.correlationId = a.correlationId ∧ entry.identity = a.identity.uri)
    (hpending : owed'.Pending (past ++ [e])) : Kept Γ author owed' (past ++ [e]) where
  settled := hsettled
  attributed := List.forall_mem_append.mpr ⟨h.attributed, List.forall_mem_singleton.mpr hattributed⟩
  authored := List.forall_mem_append.mpr ⟨h.authored, List.forall_mem_singleton.mpr hauthored⟩
  pending := hpending

/-- A call that neither submits with success nor appends, when nothing is owed. -/
theorem Kept.plain (h : Kept Γ author .nothing past) (hsig : acceptedSignature e = none) (hentry : appendedEntry e = none) :
    Kept Γ author .nothing (past ++ [e]) := by
  refine h.snoc (h.settled.other ?_ ?_) (fun hs => ?_) (fun entry he => ?_) trivial
  · rw [receiptOf, hsig]
    rfl
  · rw [hentry]
    rfl
  · rw [hsig] at hs
    cases hs
  · rw [hentry] at he
    cases he

/-- Every call that the ledger allows keeps what the calls say. -/
theorem Kept.next {c : Call} (h : Kept Γ author owed past) (hc : owed.allow Γ author c) (a : c.Answer) :
    Kept Γ author (owed.next c a) (past ++ [⟨c, a⟩]) := by
  cases owed with
  | nothing =>
    cases c with
    | sendTransaction tx =>
      cases a with
      | error e => exact h.plain rfl rfl
      | ok sig =>
        obtain ⟨author, rfl⟩ := Option.isSome_iff_exists.mp hc
        exact h.snoc (h.settled.incur rfl rfl) (fun _ => rfl) (fun entry he => by cases he) ⟨past, tx, rfl⟩
    | auditAppend entry =>
      obtain ⟨author, rfl, action, stage, reason, createdAtMs, rfl⟩ := hc
      refine h.snoc (h.settled.other rfl rfl) (fun hs => by cases hs) (fun entry he => ?_) trivial
      cases he
      exact ⟨author, rfl, rfl, rfl⟩
    | _ => exact h.plain rfl rfl
  | clock sig =>
    obtain rfl := hc
    obtain ⟨before, tx, rfl⟩ := h.pending
    exact h.snoc (h.settled.other rfl rfl) (fun hs => by cases hs) (fun entry he => by cases he)
      ⟨before, tx, List.append_assoc ..⟩
  | entry sig createdAtMs =>
    obtain ⟨author, rfl, rfl⟩ := hc
    refine h.snoc (h.settled.pay rfl rfl) (fun hs => by cases hs) (fun entry he => ?_) trivial
    cases he
    exact ⟨author, rfl, rfl, rfl⟩

end Step

/-- A call of a method as a call of the handlers. -/
def unshare : RpcEvent → Option CallEvent
  | ⟨.shared c, a⟩ => some ⟨c, a⟩
  | _ => none

/-- What the calls of a handler say. -/
theorem kept_steps {p q : Handler Unit} {t : List CallEvent} {Q : Owed → Unit → Prop}
    (h : p.wp (ledger Γ author) .nothing Q) (hs : Prog.Steps p t q) : ∃ owed, Kept Γ author owed t :=
  ⟨_, Prog.wp_steps_invariant (I := Kept Γ author) h (kept_nil Γ author) (fun _ _ _ a hk hc => hk.next hc a) hs⟩

/-- What the calls of a method say. -/
theorem kept_rpcSteps {p q : RpcProg Unit} {t : List RpcEvent} {Q : Owed → Unit → Prop}
    (h : p.wp (rpcLedger Γ author) .nothing Q) (hs : Prog.Steps p t q) : ∃ owed, Kept Γ author owed (t.filterMap unshare) := by
  have hnil : Kept Γ author .nothing (([] : List RpcEvent).filterMap unshare) := kept_nil Γ author
  refine ⟨_, Prog.wp_steps_invariant (I := fun owed past => Kept Γ author owed (past.filterMap unshare)) h hnil
    (fun owed past c a hk hc => ?_) hs⟩
  rw [List.filterMap_append]
  cases c with
  | shared c => exact hk.next hc a
  | _ =>
    simp only [List.filterMap_cons, unshare, List.filterMap_nil, List.append_nil]
    exact hk

/-! ## The callers of a run -/

theorem callsOf_cons (who : Caller) (l : BridgeLabel ⊕ RpcLabel) (log : List (BridgeLabel ⊕ RpcLabel)) :
    callsOf who (l :: log) = callsOf who [l] ++ callsOf who log := by
  simp only [callsOf, stepsBy]
  rw [← List.singleton_append, List.filterMap_append, List.filter_append, List.map_append]

/-- The calls of a handler. -/
theorem callsOf_inl (t : Nat) (log : List (BridgeLabel ⊕ RpcLabel)) : callsOf (.inl t) log = traceOf t (Twin.leftLog log) := by
  induction log with
  | nil => rfl
  | cons l log ih =>
    rw [callsOf_cons, ih, Twin.leftLog, Twin.leftLog]
    rcases l with (⟨u, d⟩ | ⟨u, e⟩ | m) | (⟨u, m⟩ | ⟨u, ⟨c, a⟩⟩ | m)
    · rfl
    · by_cases hu : u = t <;> simp [callsOf, stepsBy, sharedCall, traceOf, hu]
    · rfl
    · rfl
    · cases c <;> rfl
    · rfl

/-- The calls of a method that the handlers make too. -/
theorem callsOf_inr (t : Nat) (log : List (BridgeLabel ⊕ RpcLabel)) :
    callsOf (.inr t) log = (traceOf t (Twin.rightLog log)).filterMap unshare := by
  induction log with
  | nil => rfl
  | cons l log ih =>
    rw [callsOf_cons, ih, Twin.rightLog, Twin.rightLog]
    rcases l with (⟨u, d⟩ | ⟨u, e⟩ | m) | (⟨u, m⟩ | ⟨u, ⟨c, a⟩⟩ | m)
    · rfl
    · rfl
    · rfl
    · rfl
    · by_cases hu : u = t
      · subst hu
        show _ = (traceOf u (.call u ⟨c, a⟩ :: log.filterMap Sum.getRight?)).filterMap unshare
        rw [Pool.traceOf_cons_self]
        cases c with
        | shared c => simp [callsOf, stepsBy, sharedCall, unshare]
        | _ => rfl
      · cases c <;> simp [callsOf, stepsBy, sharedCall, traceOf, hu]
    · rfl

/-- The message of a thread that was delivered only one. -/
theorem lookup_delivered {ι : Type} {ρ : ι → Type} {M E : Type} {log : List (Label ρ M E)} {t : Nat} {m : M}
    (h : ∀ m', .deliver t m' ∈ log ↔ m' = m) : (delivered log).lookup t = some m := by
  have hmem : (t, m) ∈ delivered log := Pool.mem_delivered.mpr ((h m).mpr rfl)
  cases hl : (delivered log).lookup t with
  | none =>
    have hne := List.lookup_eq_none_iff.mp hl _ hmem
    simp at hne
  | some m' =>
    obtain ⟨before, after, hlog, -⟩ := List.lookup_eq_some_iff.mp hl
    rw [(h m').mp (Pool.mem_delivered.mp (hlog ▸ List.mem_append_right before List.mem_cons_self))]

/-- What the calls of each caller say, in every run of the process. -/
theorem kept_of_reach {R : RpcEnv} {w : Session} {x : Process} (h : Process.Reach Γ R w x) (who : Caller) :
    ∃ owed, Kept Γ (authorOf Γ x.log who) owed (callsOf who x.log) := by
  cases who with
  | inl t =>
    have hleft := h.left fun _ _ _ => quiet_rpcServer
    have hknown := hleft.known t
    rw [callsOf_inl, ← h.split.left]
    cases hth : x.left.threads t with
    | none =>
      rw [((Pool.known_none hth).mp hknown).trace]
      exact ⟨_, kept_nil ..⟩
    | some th =>
      obtain ⟨hd, q, hsteps, -⟩ := (Pool.known_some hth).mp hknown
      rw [authorOf, ← h.split.left, lookup_delivered hd]
      exact kept_steps (clears_dispatch th.1) hsteps
  | inr t =>
    obtain ⟨p, hp, -, -, hlog⟩ := h.right
    have hknown := hp.known t
    rw [callsOf_inr, ← hlog, Twin.traceOf_filterMap_closeLabel]
    cases hth : p.threads t with
    | none =>
      rw [((Pool.known_none hth).mp hknown).trace]
      exact ⟨_, kept_nil ..⟩
    | some th =>
      obtain ⟨hd, q, hsteps, -⟩ := (Pool.known_some hth).mp hknown
      rw [authorOf, ← hlog, lookup_delivered fun m' => Twin.mem_filterMap_closeLabel.trans (hd m')]
      exact kept_rpcSteps (clears_program th.1) hsteps

/-! ## The store -/

/-- The entries of the rows, and the chain they are in. -/
theorem foldl_append (es : List AuditEntry) (store : InMemoryAuditStore) (h : store.Linked Γ) :
    (es.foldl (fun store e => (store.append Γ e).2) store).map (·.2.2) = store.map (·.2.2) ++ es ∧
      InMemoryAuditStore.Linked Γ (es.foldl (fun store e => (store.append Γ e).2) store) := by
  induction es generalizing store with
  | nil => exact ⟨(List.append_nil _).symm, h⟩
  | cons e es ih =>
    have hstep : (store.append Γ e).2.Linked Γ := by
      intro i row hrow
      rcases Nat.lt_or_ge i store.length with hi | hi
      · rw [InMemoryAuditStore.append, List.getElem?_append_left hi] at hrow
        rw [InMemoryAuditStore.append, List.take_append_of_le_length (Nat.le_of_lt hi)]
        exact h i row hrow
      · rw [InMemoryAuditStore.append, List.getElem?_append_right hi] at hrow
        obtain ⟨hzero, rfl⟩ := List.getElem?_eq_some_iff.mp hrow
        have hlen : i = store.length := by
          simp only [List.length_singleton] at hzero
          omega
        subst hlen
        simp [InMemoryAuditStore.append]
    obtain ⟨hentries, hlinked⟩ := ih (store.append Γ e).2 hstep
    refine ⟨hentries.trans ?_, hlinked⟩
    simp [InMemoryAuditStore.append]

theorem linked_nil (Γ : Ctx) : InMemoryAuditStore.Linked Γ [] := fun i row h => by cases h

/-- The entries of the trail are those the callers appended. -/
theorem entries_auditTrail (Γ : Ctx) (log : List (BridgeLabel ⊕ RpcLabel)) :
    (auditTrail Γ log).map (·.2.2) = (log.filterMap sharedCall).filterMap fun s => appendedEntry s.2 := by
  rw [auditTrail, (foldl_append _ [] (linked_nil Γ)).1]
  rfl

theorem receipts_auditTrail (Γ : Ctx) (log : List (BridgeLabel ⊕ RpcLabel)) :
    (auditTrail Γ log).receipts = (log.filterMap sharedCall).filterMap fun s => (appendedEntry s.2).bind AuditEntry.receipt := by
  have hmap : (auditTrail Γ log).receipts = ((auditTrail Γ log).map (·.2.2)).filterMap AuditEntry.receipt := by
    rw [List.filterMap_map]
    rfl
  rw [hmap, entries_auditTrail, List.filterMap_filterMap]

/-- The calls of a caller, found among those of all. -/
theorem mem_callsOf {log : List (BridgeLabel ⊕ RpcLabel)} {s : Caller × CallEvent} (h : s ∈ log.filterMap sharedCall) :
    s.2 ∈ callsOf s.1 log :=
  List.mem_map_of_mem (List.mem_filter.mpr ⟨h, decide_eq_true rfl⟩)

/-- The calls of one caller settle its receipts, seen among the calls of all. -/
theorem settled_stepsBy {log : List (BridgeLabel ⊕ RpcLabel)} {who : Caller} {owed : Owed}
    (h : Kept Γ (authorOf Γ log who) owed (callsOf who log)) :
    Settled (fun s => receiptOf Γ (authorOf Γ log s.1) s.2) (fun s => (appendedEntry s.2).bind AuditEntry.receipt)
      (stepsBy who (log.filterMap sharedCall))
      (owed.signature.bind fun sig => (authorOf Γ log who).map fun a => a.receipt Γ sig) := by
  have hsettled := h.settled
  rw [Settled, callsOf, List.filterMap_map, List.filterMap_map] at hsettled
  refine Eq.trans (List.filterMap_congr fun s hs => ?_) hsettled
  have hwho : s.1 = who := of_decide_eq_true (List.mem_filter.mp hs).2
  show receiptOf Γ (authorOf Γ log s.1) s.2 = receiptOf Γ (authorOf Γ log who) s.2
  rw [hwho]

end LedgerAux

open LedgerAux in
/-- In every run of the process the audit store accounts for the submissions of all handlers and methods: the rows that report
one are those the chain accepted, with the correlation id and the identity of the message that asked for each, but for at most
one of each caller that has not come to its record. -/
theorem audit_trail_tells {Γ : Ctx} {R : RpcEnv} {w : Session} {x : Process} (h : Process.Reach Γ R w x) :
    ∃ owed, TrailTells Γ x.log owed := by
  choose owes hkept using kept_of_reach h
  obtain ⟨owed, honce, howed, hperm⟩ := outstanding_of_settled fun who => settled_stepsBy (hkept who)
  refine ⟨owed, ?_, fun s hs => (hkept s.1).attributed s.2 (mem_callsOf hs), honce, fun p hp => ?_, fun row hrow => ?_,
    (foldl_append _ [] (linked_nil Γ)).2⟩
  · rw [receipts_auditTrail]
    exact hperm
  · obtain ⟨sig, hsig, hreceipt⟩ := Option.bind_eq_some_iff.mp (howed p hp)
    obtain ⟨a, ha, hp2⟩ := Option.map_eq_some_iff.mp hreceipt
    exact ⟨a, sig, owes p.1, ha, hp2.symm, hsig, (hkept p.1).pending⟩
  · have hentry : row.2.2 ∈ (auditTrail Γ x.log).map (·.2.2) := List.mem_map_of_mem hrow
    rw [entries_auditTrail] at hentry
    obtain ⟨s, hs, happended⟩ := List.mem_filterMap.mp hentry
    obtain ⟨a, ha, hnamed⟩ := (hkept s.1).authored s.2 (mem_callsOf hs) row.2.2 happended
    exact ⟨s.1, a, ha, hnamed⟩

open ProcessAux SampleAux in
/-- A handler and a method whose submissions were accepted, when the method has recorded its own and the handler has not. -/
theorem audit_trail_tells_beside : ∃ x owed, Process.Reach (ctx [datedTx]) devEnv (.fresh 1000 none) x ∧
    (acceptedReceipts (ctx [datedTx]) x.log).length = 2 ∧ (auditTrail (ctx [datedTx]) x.log).receipts.length = 1 ∧
    TrailTells (ctx [datedTx]) x.log owed := by
  have hrun : ((Twin.init (.fresh 1000 none) : Process).exec (bridge (ctx [datedTx])) (rpcServer (ctx [datedTx]) devEnv)
      besideScript).any (fun x => decide ((acceptedReceipts (ctx [datedTx]) x.log).length = 2) &&
        decide ((auditTrail (ctx [datedTx]) x.log).receipts.length = 1)) = true := by
    decide +kernel
  obtain ⟨x, hx, htest⟩ := Twin.exists_reach_of_exec hrun
  rw [Bool.and_eq_true] at htest
  obtain ⟨owed, howed⟩ := audit_trail_tells hx
  exact ⟨x, owed, hx, of_decide_eq_true htest.1, of_decide_eq_true htest.2, howed⟩

end ChainBridge
