import ChainBridge.Lemmas.Handlers
import ChainBridge.History

/-!
# The course of a handler that claims a key

A submit and a mint take the same course: they pass their gates, claim their key, and then either report the answer to the claim
or make their attempt and finish it. A cancel passes its gates and records the cancellation. What a history holds of a handler,
its writes to the maps and its results, is read from the course it took.
-/

namespace ChainBridge

open Interleave

/-- The calls that decide the outcome of an attempt: the submissions and the polls. -/
def Call.isOutcome : Call → Bool
  | .sendTransaction _ => true
  | .getSignatureStatuses _ => true
  | _ => false

/-- The calls that end a course: they write to the maps, publish and acknowledge. -/
def Call.isFinish : Call → Bool
  | .cacheInsert _ _ => true
  | .dedupInsert _ _ => true
  | .dedupRemove _ => true
  | .publish _ _ => true
  | .ack _ => true
  | _ => false

/-- A poll confirmed the signature at a slot. -/
def Confirmed (t : List CallEvent) (sig : Signature) (slot : Nat) : Prop :=
  ∃ answer, (⟨.getSignatureStatuses sig, answer⟩ : CallEvent) ∈ t ∧ pollVerdict answer = some (.confirmed slot)

namespace CoursesAux

open SilentAux HandlersAux

variable {Γ : Ctx}

/-- The course of a handler that claims `key`: in its gates, with its claim answered, at work, or finishing its attempt. -/
inductive Course (key : Option String) (correlationId replySubject : String) (replay : TxResultMessage → Reply)
    (Outcome : List CallEvent → Reply → Option (String × Nat) → Prop) (t : List CallEvent) (q : Handler Unit) : Prop where
  | gates (hgates : ∀ e ∈ t, e.1.isGate = true)
  | replayed (authMs nowMs : Nat) (result : TxResultMessage) (t' : List CallEvent)
      (htrace : t = claimTrace key correlationId authMs nowMs (some result) ++ t')
      (hsteps : Prog.Steps (Prog.performAll [.publish replySubject (replay result), .ack .ack]) t' q)
  | working (authMs nowMs : Nat) (t' : List CallEvent) (htrace : t = claimTrace key correlationId authMs nowMs none ++ t')
      (hwork : ∀ e ∈ t', e.1.isWork = true)
  | finishing (authMs nowMs : Nat) (t₁ t₂ : List CallEvent) (reply : Reply) (done : Option (String × Nat))
      (htrace : t = claimTrace key correlationId authMs nowMs none ++ (t₁ ++ t₂)) (hwork : ∀ e ∈ t₁, e.1.isWork = true)
      (houtcome : Outcome t₁ reply done)
      (hsteps : Prog.Steps (Prog.performAll (finishCalls correlationId replySubject key nowMs reply done)) t₂ q)

/-- The outcome of a submit's attempt: it succeeds with the signature of its accepted submission, and fails when none was
accepted. -/
def SubmitOutcome (Γ : Ctx) (correlationId : String) (t : List CallEvent) (reply : Reply) (done : Option (String × Nat)) : Prop :=
  ∃ r, ResultAccepted t r ∧ reply = .tx (submitReply Γ correlationId r) ∧ done = effectDone Γ r

/-- The outcome of a mint's attempt: it succeeds with the signature of its accepted submission when a poll confirmed it, and fails
otherwise. -/
def MintOutcome (Γ : Ctx) (correlationId : String) (t : List CallEvent) (reply : Reply) (done : Option (String × Nat)) : Prop :=
  ∃ r : Except String (Signature × Nat), (∀ sig slot, r = .ok (sig, slot) ↔ Accepted t sig ∧ Confirmed t sig slot) ∧
    reply = .mint (mintReply Γ correlationId r) ∧ done = effectDone Γ r

theorem confirmed_append {t u : List CallEvent} {sig : Signature} {slot : Nat} :
    Confirmed (t ++ u) sig slot ↔ Confirmed t sig slot ∨ Confirmed u sig slot := by
  simp only [Confirmed, List.mem_append, or_and_right, exists_or]

/-- What the signing path does, and the request for the key, confirms nothing. -/
theorem not_confirmed {t : List CallEvent} (h : ∀ e ∈ t, e.1.isSigning = true ∨ ∃ keyName, e.1 = .getPublicKey keyName)
    (sig : Signature) (slot : Nat) : ¬Confirmed t sig slot := by
  rintro ⟨answer, hmem, -⟩
  rcases h _ hmem with hsigning | ⟨keyName, hkey⟩
  · cases hsigning
  · cases hkey

/-- A polling asks for one signature, and ends with a success exactly when an answer confirmed it. -/
theorem confirmed_iff {sig sig' : Signature} {n slot : Nat} {t : List CallEvent} {verdict : ConfirmOutcome}
    (h : Prog.Exec (resolveConfirmationBounded sig n) t verdict) :
    Confirmed t sig' slot ↔ sig = sig' ∧ verdict = .confirmed slot := by
  induction n generalizing t with
  | zero =>
    obtain ⟨rfl, rfl⟩ := Prog.exec_ret.mp h
    simp [Confirmed]
  | succ n ih =>
    obtain ⟨answer, t', rfl, h'⟩ := Prog.exec_perform.mp h
    have hcons : Confirmed (⟨.getSignatureStatuses sig, answer⟩ :: t') sig' slot ↔
        (sig = sig' ∧ pollVerdict answer = some (.confirmed slot)) ∨ Confirmed t' sig' slot := by
      constructor
      · rintro ⟨answer', hmem, hverdict⟩
        rcases List.mem_cons.mp hmem with heq | hmem
        · cases heq
          exact Or.inl ⟨rfl, hverdict⟩
        · exact Or.inr ⟨answer', hmem, hverdict⟩
      · rintro (⟨rfl, hverdict⟩ | ⟨answer', hmem, hverdict⟩)
        · exact ⟨answer, List.mem_cons_self, hverdict⟩
        · exact ⟨answer', List.mem_cons_of_mem _ hmem, hverdict⟩
    rw [hcons]
    split at h'
    · rename_i verdict' hverdict
      obtain ⟨rfl, rfl⟩ := Prog.exec_ret.mp h'
      simp [hverdict, Confirmed]
    · rename_i hverdict
      rw [ih h', hverdict]
      simp

/-- A mint that returns reports the submission it had accepted and confirmed. -/
theorem exec_mintOutcome {recipientWallet : String} {energyKwh : UInt64} {meterId : Vector UInt8 16} {windowStartMs : Int64}
    {identity : SpiffeIdentity} {correlationId : String} {t : List CallEvent} {r : Except String (Signature × Nat)}
    (h : Prog.Exec (buildAndSubmitGenerationMint Γ recipientWallet energyKwh meterId windowStartMs identity correlationId) t r)
    (sig : Signature) (slot : Nat) : r = .ok (sig, slot) ↔ Accepted t sig ∧ Confirmed t sig slot := by
  rcases exec_buildAndSubmitGenerationMint h with ⟨hunpolled, e, rfl⟩ |
    ⟨payer, serialized, sig', n, t₁, t₂, verdict, rfl, hsign, hpoll, rfl⟩
  · have hkeys : ∀ e ∈ t, e.1.isSigning = true ∨ ∃ keyName, e.1 = .getPublicKey keyName :=
      fun e he => (hunpolled.calls e he).imp_right fun hkey => ⟨_, hkey⟩
    exact ⟨fun hr => (by cases hr), fun hr => (not_confirmed hkeys sig slot hr.2).elim⟩
  · have hkey : (⟨.getPublicKey Γ.transitKeyName, .ok payer⟩ : CallEvent) :: (t₁ ++ t₂) =
        [⟨.getPublicKey Γ.transitKeyName, .ok payer⟩] ++ (t₁ ++ t₂) := rfl
    have hpolls : Unsent (resolveConfirmation sig') := by
      refine only_resolveConfirmation ?_ 24
      rfl
    have hunsent : ∀ e ∈ t₂, e.1.isSend = false := (Prog.only_steps hpolls hpoll).1
    have haccepted : Accepted (⟨.getPublicKey Γ.transitKeyName, .ok payer⟩ :: (t₁ ++ t₂)) sig ↔ sig' = sig := by
      rw [hkey, accepted_append, accepted_append, or_iff_right, or_iff_left (not_accepted_of_unsent hunsent sig),
        exec_signAndSubmit hsign sig]
      · simp
      · exact not_accepted_of_unsent (List.forall_mem_singleton.mpr rfl) sig
    have hconfirmed : Confirmed (⟨.getPublicKey Γ.transitKeyName, .ok payer⟩ :: (t₁ ++ t₂)) sig slot ↔
        sig' = sig ∧ verdict = .confirmed slot := by
      have hsigning := (Prog.only_steps (signing_signAndSubmit ..) hsign).1
      rw [hkey, confirmed_append, confirmed_append, or_iff_right, or_iff_right, confirmed_iff hpoll]
      · exact not_confirmed (fun e he => Or.inl (hsigning e he)) sig slot
      · exact not_confirmed (List.forall_mem_singleton.mpr (Or.inr ⟨_, rfl⟩)) sig slot
    rw [mintOutcome_eq_ok_iff, haccepted, hconfirmed]
    exact ⟨fun hr => ⟨hr.1, hr⟩, fun hr => hr.2⟩

theorem course_submit {envelope : TxSubmitMessage} {t : List CallEvent} {q : Handler Unit}
    (h : Prog.Steps (handleSubmit Γ (.ok envelope)) t q) :
    Course (dedupKey .submit envelope.idempotencyKey) envelope.correlationId envelope.replySubject .tx
      (SubmitOutcome Γ envelope.correlationId) t q := by
  rcases steps_handleSubmit h with hgates | ⟨envelope', authMs, nowMs, tx, a, t', henv, -, -, rfl, h'⟩
  · exact .gates hgates
  cases henv
  cases a with
  | some result => exact .replayed authMs nowMs result t' rfl h'
  | none =>
    have hretry : Work (submitWithRetry Γ envelope) (fun _ => True) :=
      work_of_signing (only_retrySpawn (signing_signAndSubmit ..) retryDelays)
    rw [submitClaimed, submitEffect_eq] at h'
    rcases Prog.steps_bind.mp h' with ⟨p', hsign, -⟩ | ⟨t₁, t₂, r, rfl, hsign, hfinish⟩
    · exact .working authMs nowMs t' rfl (Prog.only_steps hretry hsign).1
    · rw [submitFinish_eq] at hfinish
      exact .finishing authMs nowMs t₁ t₂ _ _ rfl (Prog.only_steps hretry hsign).1 ⟨r, exec_submitWithRetry hsign, rfl, rfl⟩
        hfinish

theorem course_mint {envelope : MintEnergyMessage} {t : List CallEvent} {q : Handler Unit}
    (h : Prog.Steps (handleMint Γ (.ok envelope)) t q) :
    Course (dedupKey .mint envelope.idempotencyKey) envelope.correlationId envelope.replySubject
      (fun prior => .mint (mintReplay prior)) (MintOutcome Γ envelope.correlationId) t q := by
  rcases steps_handleMint h with hgates | ⟨envelope', authMs, nowMs, a, t', henv, -, rfl, h'⟩
  · exact .gates hgates
  cases henv
  cases a with
  | some result => exact .replayed authMs nowMs result t' rfl h'
  | none =>
    rw [mintClaimed, mintEffect_eq] at h'
    rcases Prog.steps_bind.mp h' with ⟨p', hbuild, -⟩ | ⟨t₁, t₂, r, rfl, hbuild, hfinish⟩
    · exact .working authMs nowMs t' rfl (Prog.only_steps (work_buildAndSubmitGenerationMint ..) hbuild).1
    · rw [mintFinish_eq] at hfinish
      exact .finishing authMs nowMs t₁ t₂ _ _ rfl (Prog.only_steps (work_buildAndSubmitGenerationMint ..) hbuild).1
        ⟨r, exec_mintOutcome hbuild, rfl, rfl⟩ hfinish

/-- A call that was made in a row of calls is one of them. -/
theorem mem_of_performAll {is : List Call} {t : List CallEvent} {q : Handler Unit} (h : Prog.Steps (Prog.performAll is) t q)
    {e : CallEvent} (he : e ∈ t) : e.1 ∈ is := by
  obtain ⟨rest, rfl, -⟩ := Prog.steps_performAll h
  exact List.mem_append_left _ (List.mem_map_of_mem he)

/-- A row of calls that has begun has made its first. -/
theorem first_of_performAll {i : Call} {is : List Call} {t : List CallEvent} {q : Handler Unit}
    (h : Prog.Steps (Prog.performAll (i :: is)) t q) {e : CallEvent} (he : e ∈ t) : ∃ a, (⟨i, a⟩ : CallEvent) ∈ t := by
  rcases Prog.steps_perform.mp h with ⟨rfl, -⟩ | ⟨a, t', rfl, -⟩
  · cases he
  · exact ⟨a, List.mem_cons_self⟩

section Course

variable {key : Option String} {correlationId replySubject : String} {replay : TxResultMessage → Reply}
  {Outcome : List CallEvent → Reply → Option (String × Nat) → Prop} {t : List CallEvent} {q : Handler Unit}

theorem Course.mono (h : Course key correlationId replySubject replay Outcome t q)
    {Outcome' : List CallEvent → Reply → Option (String × Nat) → Prop}
    (hmono : ∀ t reply done, Outcome t reply done → Outcome' t reply done) :
    Course key correlationId replySubject replay Outcome' t q := by
  cases h with
  | gates hgates => exact .gates hgates
  | replayed authMs nowMs result t' htrace hsteps => exact .replayed authMs nowMs result t' htrace hsteps
  | working authMs nowMs t' htrace hwork => exact .working authMs nowMs t' htrace hwork
  | finishing authMs nowMs t₁ t₂ reply done htrace hwork houtcome hsteps =>
    exact .finishing authMs nowMs t₁ t₂ reply done htrace hwork (hmono _ _ _ houtcome) hsteps

/-- Where a call that ends a course comes from: a refusal, the answer to the claim, or the finish of the attempt. -/
inductive Finish (key : Option String) (correlationId replySubject : String) (replay : TxResultMessage → Reply)
    (Outcome : List CallEvent → Reply → Option (String × Nat) → Prop) (t : List CallEvent) (c : Call) : Prop where
  | refused (hgates : ∀ e ∈ t, e.1.isGate = true)
  | replayed (nowMs : Nat) (result : TxResultMessage)
      (hclaim : (⟨.claim key correlationId nowMs, some result⟩ : CallEvent) ∈ t)
      (hnone : ∀ e ∈ t, e.1.isOutcome = false) (hcall : c = .publish replySubject (replay result) ∨ c = .ack .ack)
  | finished (nowMs : Nat) (t₁ : List CallEvent) (reply : Reply) (done : Option (String × Nat))
      (houtcome : Outcome t₁ reply done) (hsub : ∀ e ∈ t₁, e ∈ t) (hdecides : ∀ e ∈ t, e.1.isOutcome = true → e ∈ t₁)
      (hcached : done ≠ none → ∃ expiryMs, (⟨.cacheInsert correlationId expiryMs, ()⟩ : CallEvent) ∈ t)
      (hcall : c ∈ finishCalls correlationId replySubject key nowMs reply done)

/-- The claim and the gates before it decide and end nothing. -/
theorem of_claimTrace {authMs nowMs : Nat} {a : Option TxResultMessage} {e : CallEvent}
    (he : e ∈ claimTrace key correlationId authMs nowMs a) : e.1.isOutcome = false ∧ e.1.isFinish = false := by
  simp only [claimTrace, List.mem_cons, List.not_mem_nil, or_false] at he
  rcases he with rfl | rfl | rfl | rfl <;> exact ⟨rfl, rfl⟩

theorem isFinish_of_finishCalls {nowMs : Nat} {reply : Reply} {done : Option (String × Nat)} :
    ∀ c ∈ finishCalls correlationId replySubject key nowMs reply done, c.isFinish = true := by
  cases done <;> cases key <;> simp [finishCalls, Call.isFinish]

/-- A finish publishes its result. -/
theorem eq_of_publish {nowMs : Nat} {reply reply' : Reply} {done : Option (String × Nat)} {subject : String}
    (h : .publish subject reply' ∈ finishCalls correlationId replySubject key nowMs reply done) : reply' = reply := by
  cases done <;> cases key <;> simp [finishCalls] at h <;> exact h.2

theorem isOutcome_of_gate {c : Call} (h : c.isGate = true) : c.isOutcome = false := by
  cases c <;> first | rfl | cases h

theorem isFinish_eq_false {c : Call} (h : c.isWork = true) : c.isFinish = false := by
  cases c <;> first | rfl | cases h

theorem isOutcome_eq_false {c : Call} (h : c.isFinish = true) : c.isOutcome = false := by
  cases c <;> first | rfl | cases h

theorem Course.finish (h : Course key correlationId replySubject replay Outcome t q) {e : CallEvent} (he : e ∈ t)
    (hfinish : e.1.isFinish = true) : Finish key correlationId replySubject replay Outcome t e.1 := by
  have hclaim : ∀ {authMs nowMs a}, e ∉ claimTrace key correlationId authMs nowMs a := by
    intro authMs nowMs a hmem
    rw [(of_claimTrace hmem).2] at hfinish
    cases hfinish
  cases h with
  | gates hgates => exact .refused hgates
  | replayed authMs nowMs result t' htrace hsteps =>
    subst htrace
    have hcall := mem_of_performAll hsteps ((List.mem_append.mp he).resolve_left hclaim)
    refine .replayed nowMs result (List.mem_append_left _ (by simp [claimTrace])) (List.forall_mem_append.mpr ⟨?_, ?_⟩)
      (by simpa using hcall)
    · exact fun e he => (of_claimTrace he).1
    · intro e he
      have hmem := mem_of_performAll hsteps he
      simp only [List.mem_cons, List.not_mem_nil, or_false] at hmem
      rcases hmem with hmem | hmem <;> rw [hmem] <;> rfl
  | working authMs nowMs t' htrace hwork =>
    subst htrace
    rw [isFinish_eq_false (hwork _ ((List.mem_append.mp he).resolve_left hclaim))] at hfinish
    cases hfinish
  | finishing authMs nowMs t₁ t₂ reply done htrace hwork houtcome hsteps =>
    subst htrace
    have hnotwork : e ∉ t₁ := by
      intro hmem
      rw [isFinish_eq_false (hwork e hmem)] at hfinish
      cases hfinish
    have hmem : e ∈ t₂ := (List.mem_append.mp ((List.mem_append.mp he).resolve_left hclaim)).resolve_left hnotwork
    refine .finished nowMs t₁ reply done houtcome (fun e he => List.mem_append_right _ (List.mem_append_left _ he)) ?_ ?_
      (mem_of_performAll hsteps hmem)
    · intro e' he' hdecides
      rcases List.mem_append.mp he' with he' | he'
      · rw [(of_claimTrace he').1] at hdecides
        cases hdecides
      · rcases List.mem_append.mp he' with he' | he'
        · exact he'
        · rw [isOutcome_eq_false (isFinish_of_finishCalls _ (mem_of_performAll hsteps he'))] at hdecides
          cases hdecides
    · intro hdone
      cases done with
      | none => exact (hdone rfl).elim
      | some out =>
        obtain ⟨a, hfirst⟩ := first_of_performAll hsteps hmem
        exact ⟨_, List.mem_append_right _ (List.mem_append_right _ hfirst)⟩

/-- A handler that records a correlation id records its own, after an attempt that succeeded. -/
theorem Course.cacheInsert (h : Course key correlationId replySubject replay Outcome t q) {k : String} {expiryMs : Nat}
    {a : Unit} (he : (⟨.cacheInsert k expiryMs, a⟩ : CallEvent) ∈ t) :
    k = correlationId ∧ ∃ t₁ reply out, (∀ e ∈ t₁, e ∈ t) ∧ Outcome t₁ reply (some out) := by
  cases h.finish he rfl with
  | refused hgates => cases hgates _ he
  | replayed nowMs result hclaim hnone hcall => simp at hcall
  | finished nowMs t₁ reply done houtcome hsub hdecides hcached hcall =>
    cases done with
    | none => cases key <;> simp [finishCalls] at hcall
    | some out =>
      refine ⟨?_, t₁, reply, out, hsub, houtcome⟩
      cases key <;> simp [finishCalls] at hcall <;> exact hcall.1

/-- What is recorded under a key is the effect of an attempt that succeeded, whose handler has recorded its correlation id. -/
theorem Finish.dedupInsert {k : String} {rec : DedupRecord}
    (h : Finish key correlationId replySubject replay Outcome t (.dedupInsert k rec))
    {a : Unit} (he : (⟨.dedupInsert k rec, a⟩ : CallEvent) ∈ t) :
    ∃ nowMs signature slot t₁ reply, rec = doneAt nowMs signature slot ∧ Outcome t₁ reply (some (signature, slot)) ∧
      (∀ e ∈ t₁, e ∈ t) ∧ ∃ expiryMs, (⟨.cacheInsert correlationId expiryMs, ()⟩ : CallEvent) ∈ t := by
  cases h with
  | refused hgates => cases hgates _ he
  | replayed nowMs result hclaim hnone hcall => simp at hcall
  | finished nowMs t₁ reply done houtcome hsub hdecides hcached hcall =>
    cases done with
    | none => cases key <;> simp [finishCalls] at hcall
    | some out =>
      refine ⟨nowMs, out.1, out.2, t₁, reply, ?_, houtcome, hsub, hcached nofun⟩
      cases key <;> simp [finishCalls] at hcall
      exact hcall.2

/-- A handler makes one claim, as the last call of its gates. -/
theorem Course.claim (h : Course key correlationId replySubject replay Outcome t q) {k : Option String} {c : String} {n : Nat}
    {a : Option TxResultMessage} (he : (⟨.claim k c n, a⟩ : CallEvent) ∈ t) :
    ∃ authMs nowMs t', t = claimTrace key correlationId authMs nowMs a ++ t' := by
  have hclaim : ∀ {authMs nowMs a'}, (⟨.claim k c n, a⟩ : CallEvent) ∈ claimTrace key correlationId authMs nowMs a' → a' = a := by
    intro authMs nowMs a' hmem
    simp only [claimTrace, List.mem_cons, List.not_mem_nil, or_false] at hmem
    rcases hmem with hmem | hmem | hmem | hmem
    all_goals cases hmem
    rfl
  cases h with
  | gates hgates => cases hgates _ he
  | replayed authMs nowMs result t' htrace hsteps =>
    subst htrace
    rcases List.mem_append.mp he with he | he
    · exact ⟨authMs, nowMs, t', by rw [hclaim he]⟩
    · simpa using mem_of_performAll hsteps he
  | working authMs nowMs t' htrace hwork =>
    subst htrace
    rcases List.mem_append.mp he with he | he
    · exact ⟨authMs, nowMs, t', by rw [hclaim he]⟩
    · cases hwork _ he
  | finishing authMs nowMs t₁ t₂ reply done htrace hwork houtcome hsteps =>
    subst htrace
    rcases List.mem_append.mp he with he | he
    · exact ⟨authMs, nowMs, t₁ ++ t₂, by rw [hclaim he]⟩
    · rcases List.mem_append.mp he with he | he
      · cases hwork _ he
      · cases isFinish_of_finishCalls _ (mem_of_performAll hsteps he)

end Course

end CoursesAux

end ChainBridge
