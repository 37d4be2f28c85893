import ChainBridge.Lemmas.Answering
import ChainBridge.Lemmas.Courses
import ChainBridge.Lemmas.Polls
import ChainBridge.Lemmas.Sample
import ChainBridge.Theorems.Signing

/-!
# A mint follows the first decisive poll

The mint handler polls for the status of its submission until an answer decides, at most 24 times. Its result, its two records and
the release of its claim then follow the verdict. What is said of the two maps is what the calls of this handler do to them: other
handlers may come in between.
-/

namespace ChainBridge

open Interleave

/-- The session after calls, when nothing else happens. -/
def Session.after (s : Session) (t : List CallEvent) : Session := t.foldl (fun s e => (s.serve e.1 e.2).2) s

/-- The calls before and after the polls of a mint: they ask for no status. -/
def Unasked (t : List CallEvent) : Prop := ∀ e ∈ t, ∀ sig, e.1 ≠ .getSignatureStatuses sig

/-- A call leaves the records of the other keys alone, whatever is stored when it is made. -/
def KeepsOthers (key : Option String) (e : CallEvent) : Prop :=
  ∀ (s : Session) (k : String), key ≠ some k → (s.serve e.1 e.2).2.dedupStore.get? k = s.dedupStore.get? k

/-- A call leaves the correlation ids alone, whatever is stored when it is made. -/
def KeepsIds (e : CallEvent) : Prop := ∀ s : Session, (s.serve e.1 e.2).2.idempotencyCache = s.idempotencyCache

/-- What a mint that was accepted does with the verdict of its polls. Confirmed at a slot, it reports the success with its signature
and that slot, records its correlation id, and stores the effect as done under its key; otherwise it reports a failure and removes
its key. Nothing else of the two maps changes. -/
structure MintFollows (Γ : Ctx) (envelope : MintEnergyMessage) (sig : Signature) (nowMs : Nat) (verdict : ConfirmOutcome)
    (t : List CallEvent) : Prop where
  others : ∀ e ∈ t, KeepsOthers (dedupKey .mint envelope.idempotencyKey) e
  confirmed : ∀ slot, verdict = .confirmed slot →
    t.filterMap outgoing = [.publish envelope.replySubject (.mint
      { correlationId := envelope.correlationId, success := true, signature := some (Γ.signatureToString sig), error := none,
        slot := slot, deduplicated := false }), .ack .ack] ∧
    ∀ s : Session, (s.after t).idempotencyCache = s.idempotencyCache.insert envelope.correlationId (u64Add nowMs correlationTtlMs) ∧
      ∀ k, (s.after t).dedupStore.get? k =
        if dedupKey .mint envelope.idempotencyKey = some k then some (doneAt nowMs (Γ.signatureToString sig) slot)
        else s.dedupStore.get? k
  otherwise : (∀ slot, verdict ≠ .confirmed slot) →
    (∃ error, t.filterMap outgoing =
      [.publish envelope.replySubject (.mint (.failure envelope.correlationId error)), .ack .ack]) ∧
    (∀ e ∈ t, KeepsIds e) ∧
    ∀ (s : Session) (k : String), (s.after t).dedupStore.get? k =
      if dedupKey .mint envelope.idempotencyKey = some k then none else s.dedupStore.get? k

namespace MintVerdictAux

open HandlersAux SilentAux PollsAux

variable {Γ : Ctx} {sig : Signature} {t : List CallEvent} {envelope : MintEnergyMessage}

/-! ## The calls of a mint that was accepted -/

theorem isWork_of_isSigning {c : Call} (h : c.isSigning = true) : c.isWork = true := by
  cases c <;> first | rfl | cases h

/-- The calls of the signing path are calls of the work that ask for no status. -/
theorem unasked_of_signing (h : ∀ e ∈ t, e.1.isSigning = true) : (∀ e ∈ t, e.1.isWork = true) ∧ Unasked t := by
  refine ⟨fun e he => isWork_of_isSigning (h e he), fun e he sig hcall => ?_⟩
  have hsigning := h e he
  rw [hcall] at hsigning
  cases hsigning

/-- The parts of a mint that was accepted. -/
structure MintParts (Γ : Ctx) (envelope : MintEnergyMessage) (sig : Signature) (nowMs : Nat) (t₁ polls t₂ : List CallEvent)
    (verdict : ConfirmOutcome) : Prop where
  work : ∀ e ∈ t₁, e.1.isWork = true
  unasked : Unasked t₁
  polls : PollEnd sig 24 polls verdict
  finish : Prog.Exec (Prog.performAll (finishCalls envelope.correlationId envelope.replySubject
    (dedupKey .mint envelope.idempotencyKey) nowMs (.mint (mintReply Γ envelope.correlationId (mintOutcome Γ sig verdict)))
    (effectDone Γ (mintOutcome Γ sig verdict)))) t₂ ()

/-- The calls that finish an effect. -/
theorem isFinish_of_exec {correlationId subject : String} {key : Option String} {nowMs : Nat} {reply : Reply}
    {done : Option (String × Nat)}
    (h : Prog.Exec (Prog.performAll (finishCalls correlationId subject key nowMs reply done)) t ()) :
    ∀ e ∈ t, e.1.isFinish = true := by
  intro e he
  exact CoursesAux.isFinish_of_finishCalls _ (CoursesAux.mem_of_performAll h he)

theorem unaccepted_of_isFinish (h : ∀ e ∈ t, e.1.isFinish = true) : ¬Accepted t sig := by
  rintro ⟨tx, hmem⟩
  cases h _ hmem

theorem exec_handleMint_accepted (h : Prog.Exec (handleMint Γ (.ok envelope)) t ()) (ha : Accepted t sig) :
    ∃ authMs nowMs t₁ polls t₂ verdict, MintParts Γ envelope sig nowMs t₁ polls t₂ verdict ∧
      t = claimTrace (dedupKey .mint envelope.idempotencyKey) envelope.correlationId authMs nowMs none ++ (t₁ ++ polls) ++ t₂ := by
  rcases steps_handleMint h with hgates | ⟨_, authMs, nowMs, a, t', heq, -, rfl, h'⟩
  · obtain ⟨tx, hmem⟩ := ha
    cases hgates _ hmem
  cases heq
  have hclaim : ¬Accepted (claimTrace (dedupKey .mint envelope.idempotencyKey) envelope.correlationId authMs nowMs a) sig := by
    simp [Accepted, claimTrace]
  have ha' := (accepted_append.mp ha).resolve_left hclaim
  cases a with
  | some prior =>
    have hfinish : (mintClaimed Γ envelope nowMs (some prior)).Only (fun c => c.isFinish = true) (fun _ => True) :=
      ⟨rfl, fun _ => ⟨rfl, fun _ => trivial⟩⟩
    exact (unaccepted_of_isFinish (Prog.only_steps hfinish h').1 ha').elim
  | none =>
    rw [mintClaimed, mintEffect_eq] at h'
    obtain ⟨t₁, t₂, r, rfl, hbuild, hfinish⟩ := Prog.exec_bind.mp h'
    rw [mintFinish_eq] at hfinish
    have ha₁ := (accepted_append.mp ha').resolve_right (unaccepted_of_isFinish (isFinish_of_exec hfinish))
    rcases exec_buildAndSubmitGenerationMint hbuild with
      ⟨hunpolled, -⟩ | ⟨payer, serialized, sig', n, t₃, polls, verdict, rfl, hsign, hpolls, rfl⟩
    · exact (hunpolled.unaccepted sig ha₁).elim
    have hend : PollEnd sig' 24 polls verdict := exec_resolveConfirmationBounded_iff.mp hpolls
    obtain ⟨hwork, hunasked⟩ := unasked_of_signing (Prog.only_steps (signing_signAndSubmit ..) hsign).1
    -- The submission that was accepted is the one the signing path returned.
    have hsig : Accepted t₃ sig := by
      obtain ⟨tx, hmem⟩ := ha₁
      rcases List.mem_cons.mp hmem with heq | hmem
      · cases heq
      rcases List.mem_append.mp hmem with hmem | hmem
      · exact ⟨tx, hmem⟩
      · cases calls_of_pollEnd hend _ hmem
    obtain ⟨m, hm⟩ := (exec_signAndSubmit hsign sig).mp hsig
    cases hm
    refine ⟨authMs, nowMs, ⟨.getPublicKey Γ.transitKeyName, .ok payer⟩ :: t₃, polls, t₂, verdict, ⟨?_, ?_, hend, hfinish⟩, rfl⟩
    · exact List.forall_mem_cons.mpr ⟨rfl, hwork⟩
    · exact List.forall_mem_cons.mpr ⟨fun sig hcall => (by cases hcall), hunasked⟩

/-! ## What the calls do to the maps -/

theorem after_append (s : Session) (t u : List CallEvent) : s.after (t ++ u) = (s.after t).after u := List.foldl_append

/-- Calls that tell the outside nothing, and touch no record but that of a key. -/
structure Inert (key : Option String) (t : List CallEvent) : Prop where
  untold : t.filterMap outgoing = []
  others : ∀ e ∈ t, KeepsOthers key e
  ids : ∀ e ∈ t, KeepsIds e

theorem Inert.append {key : Option String} {t u : List CallEvent} (h : Inert key t) (h' : Inert key u) : Inert key (t ++ u) where
  untold := by rw [List.filterMap_append, h.untold, h'.untold, List.append_nil]
  others := List.forall_mem_append.mpr ⟨h.others, h'.others⟩
  ids := List.forall_mem_append.mpr ⟨h.ids, h'.ids⟩

theorem ids_after (h : ∀ e ∈ t, KeepsIds e) (s : Session) : (s.after t).idempotencyCache = s.idempotencyCache := by
  induction t generalizing s with
  | nil => rfl
  | cons e t ih =>
    obtain ⟨he, ht⟩ := List.forall_mem_cons.mp h
    exact (ih ht _).trans (he s)

theorem get?_after {key : Option String} {k : String} (h : ∀ e ∈ t, KeepsOthers key e) (hk : key ≠ some k) (s : Session) :
    (s.after t).dedupStore.get? k = s.dedupStore.get? k := by
  induction t generalizing s with
  | nil => rfl
  | cons e t ih =>
    obtain ⟨he, ht⟩ := List.forall_mem_cons.mp h
    exact (ih ht _).trans (he s k hk)

theorem serve_of_isWork {c : Call} (h : c.isWork = true) (s : Session) (a : c.Answer) : (s.serve c a).2 = s := by
  cases c <;> first | rfl | cases h

theorem outgoing_of_isWork {c : Call} (h : c.isWork = true) (a : c.Answer) : outgoing ⟨c, a⟩ = none := by
  cases c <;> first | rfl | cases h

/-- The calls of the work leave the maps as they are. -/
theorem inert_of_isWork (key : Option String) (h : ∀ e ∈ t, e.1.isWork = true) : Inert key t := by
  have hserve : ∀ e ∈ t, ∀ s : Session, (s.serve e.1 e.2).2 = s := fun e he s => serve_of_isWork (h e he) s e.2
  refine ⟨List.filterMap_eq_nil_iff.mpr fun e he => outgoing_of_isWork (h e he) e.2, fun e he s k _ => ?_, fun e he s => ?_⟩
  · rw [hserve e he]
  · rw [hserve e he]

/-- The gates and the claim touch the key that is claimed. -/
theorem inert_claimTrace (key : Option String) (correlationId : String) (authMs nowMs : Nat) :
    Inert key (claimTrace key correlationId authMs nowMs none) := by
  have hclaim : KeepsOthers key ⟨.claim key correlationId nowMs, none⟩ := fun s k hk => get?_claimOrReplay hk
  refine ⟨rfl, ?_, ?_⟩
  · simp only [claimTrace, List.forall_mem_cons, List.not_mem_nil, false_implies, implies_true, and_true]
    exact ⟨fun _ _ _ => rfl, fun _ _ _ => rfl, fun _ _ _ => rfl, hclaim⟩
  · simp only [claimTrace, List.forall_mem_cons, List.not_mem_nil, false_implies, implies_true, and_true]
    exact ⟨fun _ => rfl, fun _ => rfl, fun _ => rfl, fun _ => rfl⟩

/-- Calls that touch no record but that of a key, before calls that give it one: the key has it, the others are as they were. -/
theorem get?_after_inert {key : Option String} {before : List CallEvent} (h : Inert key before) {k : String} {given : Option DedupRecord}
    {s : Session} (hlast : ∀ k, (s.after (before ++ t)).dedupStore.get? k =
      if key = some k then given else (s.after before).dedupStore.get? k) :
    (s.after (before ++ t)).dedupStore.get? k = if key = some k then given else s.dedupStore.get? k := by
  rw [hlast]
  split
  · rfl
  · rename_i hk
    exact get?_after h.others hk s

/-- The result and the acknowledgement at the end of a mint. -/
theorem exec_publishAck {subject : String} {reply : Reply}
    (h : Prog.Exec (Prog.performAll [.publish subject reply, .ack .ack] : Handler Unit) t ()) :
    t = [⟨.publish subject reply, ()⟩, ⟨.ack .ack, ()⟩] := by
  obtain ⟨u, t₁, rfl, h₁⟩ := Prog.exec_call.mp h
  obtain ⟨u', t₂, rfl, h₂⟩ := Prog.exec_call.mp h₁
  obtain ⟨rfl, -⟩ := Prog.exec_ret.mp h₂
  rfl

theorem get?_insert_key (store : DedupStore) (key k : String) (rec : DedupRecord) :
    (store.insert key rec).get? k = if some key = some k then some rec else store.get? k := by
  by_cases hk : key = k
  · subst hk
    simp
  · rw [KeyMap.get?_insert_of_ne _ _ (Ne.symm hk), if_neg fun h => hk (Option.some.inj h)]

theorem get?_remove_key (store : DedupStore) (key k : String) :
    (store.remove key).get? k = if some key = some k then none else store.get? k := by
  by_cases hk : key = k
  · subst hk
    simp
  · rw [KeyMap.get?_remove_of_ne _ (Ne.symm hk), if_neg fun h => hk (Option.some.inj h)]

/-- A mint that succeeded: its result, and the two maps after its last calls. -/
theorem finish_done {correlationId subject : String} {key : Option String} {nowMs : Nat} {reply : Reply} {signature : String}
    {slot : Nat}
    (h : Prog.Exec (Prog.performAll (finishCalls correlationId subject key nowMs reply (some (signature, slot)))) t ()) :
    t.filterMap outgoing = [.publish subject reply, .ack .ack] ∧
    ∀ s : Session, (s.after t).idempotencyCache = s.idempotencyCache.insert correlationId (u64Add nowMs correlationTtlMs) ∧
      ∀ k, (s.after t).dedupStore.get? k =
        if key = some k then some (doneAt nowMs signature slot) else s.dedupStore.get? k := by
  obtain ⟨u, t₁, rfl, h₁⟩ := Prog.exec_call.mp h
  cases key with
  | none =>
    cases exec_publishAck h₁
    refine ⟨rfl, fun s => ⟨rfl, fun k => ?_⟩⟩
    rw [if_neg fun h => by cases h]
    rfl
  | some key =>
    obtain ⟨u', t₂, rfl, h₂⟩ := Prog.exec_call.mp h₁
    cases exec_publishAck h₂
    exact ⟨rfl, fun s => ⟨rfl, fun k => get?_insert_key s.dedupStore key k _⟩⟩

/-- A mint that failed: its result, and the two maps after its last calls. -/
theorem finish_failed {correlationId subject : String} {key : Option String} {nowMs : Nat} {reply : Reply}
    (h : Prog.Exec (Prog.performAll (finishCalls correlationId subject key nowMs reply none)) t ()) :
    t.filterMap outgoing = [.publish subject reply, .ack .ack] ∧ (∀ e ∈ t, KeepsIds e) ∧
    ∀ (s : Session) (k : String), (s.after t).dedupStore.get? k = if key = some k then none else s.dedupStore.get? k := by
  cases key with
  | none =>
    cases exec_publishAck h
    refine ⟨rfl, by simp [KeepsIds, Session.serve], fun s k => ?_⟩
    rw [if_neg fun h => by cases h]
    rfl
  | some key =>
    obtain ⟨u, t₁, rfl, h₁⟩ := Prog.exec_call.mp h
    cases exec_publishAck h₁
    exact ⟨rfl, by simp [KeepsIds, Session.serve], fun s k => get?_remove_key s.dedupStore key k⟩

/-- The last calls of a mint touch its own key only. -/
theorem keepsOthers_finish {correlationId subject : String} {key : Option String} {nowMs : Nat} {reply : Reply}
    {done : Option (String × Nat)} :
    ∀ c ∈ finishCalls correlationId subject key nowMs reply done, ∀ a : c.Answer, KeepsOthers key ⟨c, a⟩ := by
  cases key with
  | none => cases done <;> simp [finishCalls, KeepsOthers, Session.serve]
  | some key =>
    cases done <;> simp [finishCalls, KeepsOthers, Session.serve, get?_insert_key, get?_remove_key] <;>
      exact fun s k hne heq => (hne heq).elim

/-- The calls before the last ones of a mint. -/
theorem MintParts.inert {nowMs : Nat} {t₁ polls t₂ : List CallEvent} {verdict : ConfirmOutcome}
    (h : MintParts Γ envelope sig nowMs t₁ polls t₂ verdict) (authMs : Nat) (key : Option String) :
    Inert key (claimTrace key envelope.correlationId authMs nowMs none ++ (t₁ ++ polls)) := by
  refine (inert_claimTrace ..).append (inert_of_isWork key ?_)
  refine List.forall_mem_append.mpr ⟨h.work, fun e he => ?_⟩
  rw [calls_of_pollEnd h.polls e he]
  rfl

theorem failure_of_unconfirmed (Γ : Ctx) (sig : Signature) {verdict : ConfirmOutcome} (h : ∀ slot, verdict ≠ .confirmed slot) :
    ∃ e, mintOutcome Γ sig verdict = .error e := by
  cases verdict with
  | confirmed slot => exact (h slot rfl).elim
  | errored => exact ⟨_, rfl⟩
  | pending => exact ⟨_, rfl⟩

theorem MintParts.follows {authMs nowMs : Nat} {t₁ polls t₂ : List CallEvent} {verdict : ConfirmOutcome}
    (h : MintParts Γ envelope sig nowMs t₁ polls t₂ verdict) :
    MintFollows Γ envelope sig nowMs verdict
      (claimTrace (dedupKey .mint envelope.idempotencyKey) envelope.correlationId authMs nowMs none ++ (t₁ ++ polls) ++ t₂) := by
  have hbefore := h.inert authMs (dedupKey .mint envelope.idempotencyKey)
  generalize claimTrace (dedupKey .mint envelope.idempotencyKey) envelope.correlationId authMs nowMs none ++ (t₁ ++ polls) = before
    at hbefore
  have hout : (before ++ t₂).filterMap outgoing = t₂.filterMap outgoing := by
    rw [List.filterMap_append, hbefore.untold, List.nil_append]
  refine ⟨?_, fun slot hslot => ?_, fun hverdict => ?_⟩
  · refine List.forall_mem_append.mpr ⟨hbefore.others, fun e he => ?_⟩
    exact keepsOthers_finish e.1 (CoursesAux.mem_of_performAll h.finish he) e.2
  · subst hslot
    obtain ⟨hdone, hmaps⟩ := finish_done h.finish
    refine ⟨hout.trans hdone, fun s => ⟨?_, fun k => get?_after_inert hbefore fun k => ?_⟩⟩
    · rw [after_append, (hmaps _).1, ids_after hbefore.ids]
    · rw [after_append, (hmaps _).2]
  · obtain ⟨e, he⟩ := failure_of_unconfirmed Γ sig hverdict
    have hfinish := h.finish
    rw [he] at hfinish
    obtain ⟨hfailed, hids, hstore⟩ := finish_failed hfinish
    refine ⟨⟨e, hout.trans hfailed⟩, List.forall_mem_append.mpr ⟨hbefore.ids, hids⟩, fun s k => get?_after_inert hbefore fun k => ?_⟩
    rw [after_append, hstore]

/-! ## No abort after the submission -/

/-- The monitor of a submission: once one is made, the handler never aborts. -/
def sending : Monitor Call Call.Answer Bool where
  allow := fun sent c => sent = true → c ≠ .panic
  next := fun sent c _ => sent || c.isSend

theorem wp_safe {α : Type} {p : Handler α} (hp : SigningAux.Safe p) (sent : Bool) : p.wp sending sent (fun _ _ => True) :=
  Prog.wp_of_only (I := fun _ => True) hp (fun _ _ _ hc => ⟨fun _ => hc, fun _ => trivial⟩) trivial fun _ _ _ _ => trivial

theorem wp_unsent {α : Type} {p : Handler α} (hp : Unsent p) {Q : Bool → α → Prop} (hQ : ∀ a, Q false a) :
    p.wp sending false Q := by
  refine Prog.wp_of_only (I := fun sent => sent = false) hp ?_ rfl fun s a hs _ => hs ▸ hQ a
  rintro sent rfl c hc
  exact ⟨fun hsent => (by cases hsent), fun _ => hc⟩

theorem wp_signAndSubmit (serializedTx : Bytes) (keyId : String) (identity : SpiffeIdentity) (correlationId : String) :
    (signAndSubmit Γ serializedTx keyId identity correlationId).wp sending false (fun _ _ => True) := by
  unfold signAndSubmit
  split
  · trivial
  rename_i tx _
  split
  · exact wp_safe (SigningAux.safe_auditThen ..) false
  split
  · rw [Prog.wp_bind]
    refine wp_unsent (unsent_signPlatformAdmin identity correlationId tx) fun r => ?_
    cases r with
    | error stage => trivial
    | ok tx' => exact wp_safe (SigningAux.safe_sendSigned Γ identity correlationId tx') false
  split
  · exact wp_safe (SigningAux.safe_auditThen ..) false
  · exact wp_safe (SigningAux.safe_sendSigned Γ identity correlationId tx) false

theorem wp_mintEffect (envelope : MintEnergyMessage) (key : Option String) (nowMs : Nat) :
    (mintEffect Γ envelope key nowMs).wp sending false (fun _ _ => True) := by
  have hfinish : ∀ sent r, (mintFinish Γ envelope key nowMs r).wp sending sent (fun _ _ => True) := by
    intro sent r
    rw [mintFinish_eq]
    refine wp_safe (Prog.only_performAll fun c hc => ?_) sent
    rintro rfl
    cases CoursesAux.isFinish_of_finishCalls _ hc
  rw [mintEffect_eq, Prog.wp_bind]
  refine Prog.wp_mono (Q := fun _ _ => True) ?_ fun sent r _ => hfinish sent r
  unfold buildAndSubmitGenerationMint
  split
  · trivial
  split
  · trivial
  refine (Prog.wp_perform_bind ..).mpr ⟨fun hsent => (by cases hsent), fun answer => ?_⟩
  cases answer with
  | error e => trivial
  | ok payer =>
    simp only
    split
    · trivial
    rw [Prog.wp_bind]
    refine Prog.wp_mono (wp_signAndSubmit ..) fun sent r _ => ?_
    cases r with
    | error stage => trivial
    | ok out =>
      have hpoll : SigningAux.Safe (resolveConfirmation out.1) := only_resolveConfirmation (fun h => by cases h) 24
      rw [Prog.wp_bind]
      refine Prog.wp_mono (wp_safe hpoll sent) fun sent verdict _ => ?_
      cases verdict <;> trivial

theorem after_sending (sent : Bool) (t : List CallEvent) : sending.after sent t = (sent || t.any fun e => e.1.isSend) := by
  induction t generalizing sent with
  | nil => simp [Monitor.after]
  | cons e t ih =>
    show sending.after (sent || e.1.isSend) t = _
    rw [ih, List.any_cons, Bool.or_assoc]

theorem isSend_of_isGate {c : Call} (h : c.isGate = true) : c.isSend = false := by
  cases c <;> first | rfl | cases h

/-- A mint that stops at an abort has submitted nothing. -/
theorem unsent_of_panic {k : Empty → Handler Unit} (h : Prog.Steps (handleMint Γ (.ok envelope)) t (.call .panic k)) :
    ∀ e ∈ t, e.1.isSend = false := by
  rcases steps_handleMint h with hgates | ⟨_, authMs, nowMs, a, t', heq, -, rfl, h'⟩
  · exact fun e he => isSend_of_isGate (hgates e he)
  cases heq
  refine List.forall_mem_append.mpr ⟨by simp [claimTrace, Call.isSend], ?_⟩
  cases a with
  | some prior =>
    have hsafe : SigningAux.Safe (mintClaimed Γ envelope nowMs (some prior)) :=
      ⟨fun h => (by cases h), fun _ => ⟨fun h => (by cases h), fun _ => trivial⟩⟩
    exact ((Prog.only_steps hsafe h').2.1 rfl).elim
  | none =>
    have hallow := (Prog.wp_steps (wp_mintEffect envelope _ nowMs) h').1
    rw [after_sending, Bool.false_or] at hallow
    have hnone : t'.any (fun e => e.1.isSend) = false := Bool.eq_false_iff.mpr fun hany => hallow hany rfl
    intro e he
    exact Bool.eq_false_iff.mpr (List.any_eq_false.mp hnone e he)

end MintVerdictAux

open MintVerdictAux HandlersAux PollsAux in
/-- The polling returns the verdict of the first answer that decides, having asked exactly up to it, and `pending` after all its
polls when none does; and a mint whose submission was accepted follows that verdict. Once it is submitted nothing aborts it. -/
theorem mint_follows_first_decisive (Γ : Ctx) :
    (∀ sig n t verdict, Prog.Exec (resolveConfirmationBounded sig n) t verdict ↔ PollEnd sig n t verdict) ∧
    (∀ sig answers, ∃ t verdict, t <+: pollsOf sig answers ∧
      Prog.Exec (resolveConfirmationBounded sig answers.length) t verdict) ∧
    (∀ envelope t sig, Prog.Exec (handleMint Γ (.ok envelope)) t () → Accepted t sig →
      ∃ before polls after nowMs verdict, t = before ++ polls ++ after ∧ Unasked before ∧ Unasked after ∧
        (⟨.claim (dedupKey .mint envelope.idempotencyKey) envelope.correlationId nowMs, none⟩ : CallEvent) ∈ before ∧
        PollEnd sig 24 polls verdict ∧ MintFollows Γ envelope sig nowMs verdict t) ∧
    ∀ envelope t k sig, Prog.Steps (handleMint Γ (.ok envelope)) t (.call .panic k) → ¬Accepted t sig := by
  refine ⟨fun sig n t verdict => exec_resolveConfirmationBounded_iff, fun sig answers => ?_, fun envelope t sig h ha => ?_,
    fun envelope t k sig h => not_accepted_of_unsent (unsent_of_panic h) sig⟩
  · obtain ⟨t, verdict, hprefix, hend⟩ := exists_pollEnd sig answers
    exact ⟨t, verdict, hprefix, exec_resolveConfirmationBounded_iff.mpr hend⟩
  · obtain ⟨authMs, nowMs, t₁, polls, t₂, verdict, hparts, rfl⟩ := exec_handleMint_accepted h ha
    refine ⟨claimTrace (dedupKey .mint envelope.idempotencyKey) envelope.correlationId authMs nowMs none ++ t₁, polls, t₂, nowMs,
      verdict, ?_, ?_, ?_, ?_, hparts.polls, hparts.follows⟩
    · simp only [List.append_assoc]
    · exact List.forall_mem_append.mpr ⟨by simp [claimTrace], hparts.unasked⟩
    · intro e he sig' hcall
      have hfinish := isFinish_of_exec hparts.finish e he
      rw [hcall] at hfinish
      cases hfinish
    · exact List.mem_append_left _ (by simp [claimTrace])

namespace MintVerdictAux

/-- A submission that was accepted under the sample signature. -/
def acceptedSample : CallEvent → Bool
  | ⟨.sendTransaction _, .ok sig⟩ => decide (sig = SampleAux.sig)
  | _ => false

theorem accepted_of_acceptedSample {t : List CallEvent} (h : t.any acceptedSample = true) : Accepted t SampleAux.sig := by
  obtain ⟨e, he, htest⟩ := List.any_eq_true.mp h
  unfold acceptedSample at htest
  split at htest
  · cases of_decide_eq_true htest
    exact ⟨_, he⟩
  · cases htest

end MintVerdictAux

open MintVerdictAux SampleAux in
/-- A mint of the sample meter that is accepted follows its polls. -/
theorem sample_mint_follows : ∃ t polls nowMs verdict, Prog.Exec (handleMint mintCtx (.ok signedMint)) t () ∧ Accepted t sig ∧
    PollEnd sig 24 polls verdict ∧ MintFollows mintCtx signedMint sig nowMs verdict t := by
  have hrun : ((handleMint mintCtx (.ok signedMint)).runWith (answerAt 1800000001000 (landedAt "confirmed"))).any
      (fun out => out.1.any acceptedSample) = true := by decide +kernel
  obtain ⟨t, u, hexec, htest⟩ := Prog.exists_exec_of_runWith hrun
  have haccepted := accepted_of_acceptedSample htest
  obtain ⟨before, polls, after, nowMs, verdict, -, -, -, -, hend, hfollows⟩ :=
    (mint_follows_first_decisive mintCtx).2.2.1 signedMint t sig hexec haccepted
  exact ⟨t, polls, nowMs, verdict, hexec, haccepted, hend, hfollows⟩

end ChainBridge
