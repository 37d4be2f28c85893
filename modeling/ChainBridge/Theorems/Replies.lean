import ChainBridge.Lemmas.Answering
import ChainBridge.Lemmas.Claims
import ChainBridge.Lemmas.Courses
import ChainBridge.Lemmas.Sample

/-!
# What the results of one request report

The deliveries of one envelope answer each for itself. A success reports an effect that took place, the delivery's own or an
earlier one's; a failure reports that the delivery itself had none, because it was refused, met a claim in flight or failed. So a
failure may come before the success of another delivery; after a success, every delivery that looks its id up is silent.
-/

namespace ChainBridge

open Interleave

/-- The result of a submit or a mint. -/
def Reply.result : Reply → Option TxResultMessage
  | .tx r => some r
  | .mint r => some
    { correlationId := r.correlationId, success := r.success, signature := r.signature, error := r.error, slot := r.slot
      deduplicated := r.deduplicated }
  | _ => none

/-- These calls had an effect: a submission was accepted, and for a mint a poll confirmed it. -/
def Effected (d : Delivery) (t : List CallEvent) (sig : Signature) (slot : Nat) : Prop :=
  match d with
  | .submit _ => Accepted t sig
  | .mint _ => Accepted t sig ∧ Confirmed t sig slot
  | _ => False

/-- The runs in question: one session, in which only copies of one delivery claim its key. -/
structure CopiesOf (d : Delivery) (_ : Session) (_ : History) (l : BridgeLabel) : Prop where
  inSession : InSession l
  same : ∀ t m, l = .deliver t m → m.key = d.key → m = d

/-- What a copy reports is so. A success is an effect of a copy, its own unless it is marked as a duplicate; a failure is no effect
of its own, and one that is marked as a duplicate met the claim of another copy. -/
structure Reports (Γ : Ctx) (d : Delivery) (log : History) (t : Nat) (r : TxResultMessage) : Prop where
  success : r.success = true → ∃ u sig, .deliver u d ∈ log ∧ Effected d (traceOf u log) sig r.slot ∧
    r.signature = some (Γ.signatureToString sig) ∧ (u ≠ t → r.deduplicated = true)
  failure : r.success = false → ∀ sig slot, ¬Effected d (traceOf t log) sig slot
  collision : r.success = false → r.deduplicated = true → ∃ u key c nowMs, u ≠ t ∧ .deliver u d ∈ log ∧
    .call u ⟨.claim (some key) c nowMs, none⟩ ∈ log

/-- Every copy publishes at most one result, which reports what is so under the id of the request; and a copy that looks the id up
after a success was published publishes nothing. -/
structure RepliesReport (Γ : Ctx) (d : Delivery) (log : History) : Prop where
  single : ∀ t, .deliver t d ∈ log → ((traceOf t log).filter fun e => e.1.isPublish).length ≤ 1
  reports : ∀ t subject reply, .deliver t d ∈ log → .call t ⟨.publish subject reply, ()⟩ ∈ log →
    ∃ r, reply.result = some r ∧ r.correlationId = d.correlationId ∧ Reports Γ d log t r
  last : ∀ before after t a u subject reply r, log = before ++ .call t ⟨.cacheContains d.correlationId, a⟩ :: after →
    .deliver t d ∈ log → .deliver u d ∈ log → .call u ⟨.publish subject reply, ()⟩ ∈ before → reply.result = some r →
    r.success = true → ∀ subject' reply', .call t ⟨.publish subject' reply', ()⟩ ∉ log

namespace RepliesAux

open HandlersAux CoursesAux AnsweringAux ClaimsAux

variable {Γ : Ctx} {d : Delivery} {t : List CallEvent}

/-! ## The effect of an attempt -/

theorem effected_mono {t' : List CallEvent} {sig : Signature} {slot : Nat} (h : Effected d t sig slot)
    (hsub : ∀ e ∈ t, e.1.isOutcome = true → e ∈ t') : Effected d t' sig slot := by
  have haccepted : Accepted t sig → Accepted t' sig := fun ⟨tx, hmem⟩ => ⟨tx, hsub _ hmem rfl⟩
  unfold Effected at h ⊢
  split at h
  · exact haccepted h
  · obtain ⟨answer, hmem, hverdict⟩ := h.2
    exact ⟨haccepted h.1, answer, hsub _ hmem rfl, hverdict⟩
  · exact h

theorem not_effected {sig : Signature} {slot : Nat} (hnone : ∀ e ∈ t, e.1.isOutcome = false) : ¬Effected d t sig slot := by
  have hunsent : ¬Accepted t sig := fun ⟨tx, hmem⟩ => by cases hnone _ hmem
  unfold Effected
  split
  · exact hunsent
  · exact fun h => hunsent h.1
  · exact id

/-- The outcome of an attempt: the result and the record agree with its effect. -/
structure Attempted (Γ : Ctx) (d : Delivery) (t : List CallEvent) (reply : Reply) (done : Option (String × Nat)) : Prop where
  reported : ∃ r, reply.result = some r ∧ r.deduplicated = false ∧ r.success = done.isSome ∧
    ∀ out, done = some out → r.signature = some out.1 ∧ r.slot = out.2
  effected : ∀ signature slot, done = some (signature, slot) → ∃ sig, signature = Γ.signatureToString sig ∧ Effected d t sig slot
  failed : done = none → ∀ sig slot, ¬Effected d t sig slot

theorem attempted_of_submit {envelope : TxSubmitMessage} {reply : Reply} {done : Option (String × Nat)}
    (h : SubmitOutcome Γ envelope.correlationId t reply done) : Attempted Γ (.submit (.ok envelope)) t reply done := by
  obtain ⟨r, haccepted, rfl, rfl⟩ := h
  cases r with
  | error stage =>
    refine ⟨⟨_, rfl, rfl, rfl, fun out hout => (by cases hout)⟩, fun _ _ hdone => (by cases hdone), fun _ sig slot heff => ?_⟩
    obtain ⟨n, hn⟩ := (haccepted sig).mp heff
    cases hn
  | ok out =>
    refine ⟨⟨_, rfl, rfl, rfl, fun out' hout => ?_⟩, fun signature slot hdone => ?_, fun hdone => (by cases hdone)⟩
    · cases hout
      exact ⟨rfl, rfl⟩
    · cases hdone
      exact ⟨out.1, rfl, (haccepted out.1).mpr ⟨out.2, rfl⟩⟩

theorem attempted_of_mint {envelope : MintEnergyMessage} {reply : Reply} {done : Option (String × Nat)}
    (h : MintOutcome Γ envelope.correlationId t reply done) : Attempted Γ (.mint (.ok envelope)) t reply done := by
  obtain ⟨r, hconfirmed, rfl, rfl⟩ := h
  cases r with
  | error e =>
    refine ⟨⟨_, rfl, rfl, rfl, fun out hout => (by cases hout)⟩, fun _ _ hdone => (by cases hdone), fun _ sig slot heff => ?_⟩
    cases (hconfirmed sig slot).mpr heff
  | ok out =>
    refine ⟨⟨_, rfl, rfl, rfl, fun out' hout => ?_⟩, fun signature slot hdone => ?_, fun hdone => (by cases hdone)⟩
    · cases hout
      exact ⟨rfl, rfl⟩
    · cases hdone
      exact ⟨out.1, rfl, (hconfirmed out.1 out.2).mp rfl⟩

/-- A handler that claims a key takes the course of a submit or of a mint. -/
theorem finish_of_steps {key : String} (hkey : d.key = some key) {q : Handler Unit} (h : Prog.Steps (dispatch Γ d) t q)
    {e : CallEvent} (he : e ∈ t) (hfinish : e.1.isFinish = true) : ∃ replySubject replay,
      Finish (some key) d.correlationId replySubject replay (Attempted Γ d) t e.1 ∧
      ∀ result : TxResultMessage, result.deduplicated = true → (replay result).result = some result := by
  unfold Delivery.key at hkey
  split at hkey
  · have hcourse := course_submit h
    rw [hkey] at hcourse
    exact ⟨_, _, (hcourse.mono fun _ _ _ => attempted_of_submit).finish he hfinish, fun result _ => rfl⟩
  · have hcourse := course_mint h
    rw [hkey] at hcourse
    refine ⟨_, _, (hcourse.mono fun _ _ _ => attempted_of_mint).finish he hfinish, fun result hdedup => ?_⟩
    simp [Reply.result, mintReplay, ← hdedup]
  · cases hkey

/-- A handler that claims a key makes one claim. -/
theorem claim_unique {key : String} (hkey : d.key = some key) {q : Handler Unit} (h : Prog.Steps (dispatch Γ d) t q)
    {k k' : Option String} {c c' : String} {n n' : Nat} {a a' : Option TxResultMessage}
    (he : (⟨.claim k c n, a⟩ : CallEvent) ∈ t) (he' : (⟨.claim k' c' n', a'⟩ : CallEvent) ∈ t) : a = a' := by
  have hcourse : ∃ key' correlationId replySubject replay Outcome, Course key' correlationId replySubject replay Outcome t q := by
    unfold Delivery.key at hkey
    split at hkey
    · exact ⟨_, _, _, _, _, course_submit h⟩
    · exact ⟨_, _, _, _, _, course_mint h⟩
    · cases hkey
  obtain ⟨key', correlationId, replySubject, replay, Outcome, hcourse⟩ := hcourse
  obtain ⟨authMs, nowMs, t₁, ht⟩ := hcourse.claim he
  obtain ⟨authMs', nowMs', t₂, ht'⟩ := hcourse.claim he'
  have hsame := ht.symm.trans ht'
  simp only [claimTrace, List.cons_append, List.cons.injEq] at hsame
  obtain ⟨-, -, -, hclaim, -⟩ := hsame
  cases hclaim
  rfl

/-! ## Over a run -/

section Run

variable {key : String} {clock : Nat} {blockhash : Option (Hash × Nat)} {p : BridgePool}

/-- An id recorded in a session stays in its cache. -/
theorem cached_of_recorded {C : Session → History → BridgeLabel → Prop} (hC : ∀ w log l, C w log l → InSession l) {w : Session}
    (h : Pool.Reach (bridge Γ) C (Pool.init w) p) {u : Nat} {c : String} {expiryMs : Nat}
    (he : .call u ⟨.cacheInsert c expiryMs, ()⟩ ∈ p.log) : p.world.idempotencyCache.contains c = true := by
  induction h with
  | refl => cases he
  | @step p q l _ hc hs ih =>
    rw [hs.log_eq, List.mem_append, List.mem_singleton] at he
    cases hs with
    | deliver t m hn => exact ih (he.resolve_right fun hl => (by cases hl))
    | @call t m i k r hthread =>
      cases i with
      | cacheInsert c' expiryMs' =>
        rcases he with he | he
        · exact KeyMap.contains_insert_of_contains _ _ _ _ (ih he)
        · cases he
          simp [bridge, Session.serve, KeyMap.contains]
      | _ => exact ih (he.resolve_right fun hl => (by cases hl))
    | @env w e hw =>
      have hbefore := ih (he.resolve_right fun hl => (by cases hl))
      cases e with
      | reconnect => exact (hC _ _ _ hc).elim
      | tick clock =>
        simp only [bridge, Session.move, Option.ite_none_right_eq_some, Option.some.injEq] at hw
        obtain ⟨-, rfl⟩ := hw
        exact hbefore
      | sweep nowMs =>
        simp only [bridge, Session.move, Option.ite_none_right_eq_some, Option.some.injEq] at hw
        obtain ⟨-, rfl⟩ := hw
        exact hbefore
      | refresh hash height =>
        cases hw
        exact hbefore

/-- A handler that claims or records under the key has a copy. -/
theorem copy_of_steps (h : Pool.Reach (bridge Γ) (CopiesOf d) (Pool.init (.fresh clock blockhash)) p) {u : Nat}
    {e : CallEvent} (he : .call u e ∈ p.log) (hkey : ∀ d' q, Prog.Steps (dispatch Γ d') (traceOf u p.log) q → d'.key = d.key) :
    .deliver u d ∈ p.log ∧ ∃ q, Prog.Steps (dispatch Γ d) (traceOf u p.log) q := by
  obtain ⟨d', q, hdelivered, hsteps⟩ := h.steps he
  have hd' : .deliver u d' ∈ p.log := (hdelivered d').mpr rfl
  obtain ⟨w, log, hc⟩ := h.mem_log hd'
  obtain rfl : d' = d := hc.same u d' rfl (hkey d' q hsteps)
  exact ⟨hd', q, hsteps⟩

/-- An effect recorded under the key is one of a copy, which has recorded its id. -/
theorem effect_of_dedupInsert (hkey : d.key = some key)
    (h : Pool.Reach (bridge Γ) (CopiesOf d) (Pool.init (.fresh clock blockhash)) p) {u : Nat} {rec : DedupRecord}
    (he : .call u ⟨.dedupInsert key rec, ()⟩ ∈ p.log) :
    .deliver u d ∈ p.log ∧ ∃ nowMs sig slot expiryMs, rec = doneAt nowMs (Γ.signatureToString sig) slot ∧
      Effected d (traceOf u p.log) sig slot ∧ .call u ⟨.cacheInsert d.correlationId expiryMs, ()⟩ ∈ p.log := by
  have hmem := Pool.mem_traceOf.mpr he
  obtain ⟨hd, q, hsteps⟩ := copy_of_steps h he fun d' q hs => (key_of_dedupInsert hs hmem).trans hkey.symm
  obtain ⟨replySubject, replay, hfinish, -⟩ := finish_of_steps hkey hsteps hmem rfl
  obtain ⟨nowMs, signature, slot, t₁, reply, rfl, hattempt, hsub, expiryMs, hcached⟩ := hfinish.dedupInsert hmem
  obtain ⟨sig, rfl, heffect⟩ := hattempt.effected signature slot rfl
  exact ⟨hd, nowMs, sig, slot, expiryMs, rfl, effected_mono heffect fun e he _ => hsub e he, Pool.mem_traceOf.mp hcached⟩

/-- A claim of the key is answered with the effect of a copy, or for the claim of another. -/
theorem answered_of_claim (hkey : d.key = some key)
    (h : Pool.Reach (bridge Γ) (CopiesOf d) (Pool.init (.fresh clock blockhash)) p) {t : Nat} {c : String} {nowMs : Nat}
    {result : TxResultMessage} (he : .call t ⟨.claim (some key) c nowMs, some result⟩ ∈ p.log) :
    result.deduplicated = true ∧
    ((result.success = true ∧ ∃ u sig expiryMs, .deliver u d ∈ p.log ∧ Effected d (traceOf u p.log) sig result.slot ∧
        result.signature = some (Γ.signatureToString sig) ∧ .call u ⟨.cacheInsert d.correlationId expiryMs, ()⟩ ∈ p.log) ∨
      (result.success = false ∧ ∃ u c nowMs, u ≠ t ∧ .deliver u d ∈ p.log ∧
        .call u ⟨.claim (some key) c nowMs, none⟩ ∈ p.log)) := by
  obtain ⟨p₁, q₁, hr, -, hs, hprefix⟩ := h.step_of_mem_log he
  have hbefore : ∀ l ∈ p₁.log, l ∈ p.log := by
    intro l hl
    refine hprefix.subset ?_
    rw [hs.log_eq]
    exact List.mem_append_left _ hl
  -- the record that answers is the last one written under the key, by a copy
  obtain ⟨m, k, r, -, hanswer, -⟩ := hs.call_inv
  obtain ⟨key', rec, hk, hstored, -, rfl, -⟩ := claimOrReplay_replays hanswer.symm
  cases hk
  obtain ⟨u, hlast⟩ := lastWrite_of_stored hr hstored
  obtain ⟨l, hl, hwrite⟩ := mem_of_lastWrite hlast
  unfold writeOf at hwrite
  split at hwrite
  · rename_i u' key' c' n
    by_cases hk : key' = key
    · subst hk
      rw [if_pos rfl, Option.some.injEq, Prod.mk.injEq] at hwrite
      obtain ⟨rfl, rfl⟩ := hwrite
      have hclaim := hbefore _ hl
      have hmem := Pool.mem_traceOf.mpr hclaim
      obtain ⟨hd, q, hsteps⟩ := copy_of_steps h hclaim fun d' q hs => (key_of_claim hs hmem).trans hkey.symm
      refine ⟨rfl, Or.inr ⟨rfl, u', c', n, ?_, hd, hclaim⟩⟩
      rintro rfl
      cases claim_unique hkey hsteps hmem (Pool.mem_traceOf.mpr he)
    · rw [if_neg hk] at hwrite
      cases hwrite
  · rename_i u' key' rec' a
    by_cases hk : key' = key
    · subst hk
      rw [if_pos rfl, Option.some.injEq, Prod.mk.injEq] at hwrite
      obtain ⟨rfl, rfl⟩ := hwrite
      obtain ⟨hd, n, sig, slot, expiryMs, rfl, heffect, hcached⟩ := effect_of_dedupInsert hkey h (hbefore _ hl)
      exact ⟨rfl, Or.inl ⟨rfl, u', sig, expiryMs, hd, heffect, rfl, hcached⟩⟩
    · rw [if_neg hk] at hwrite
      cases hwrite
  · cases hwrite

/-- The result of a submit or a mint has the id of the reply. -/
theorem result_of_kind {reply : Reply} (h : reply.kind = .submit ∨ reply.kind = .mint) :
    ∃ r, reply.result = some r ∧ r.correlationId = reply.correlationId := by
  cases reply with
  | tx r => exact ⟨r, rfl, rfl⟩
  | mint r => exact ⟨_, rfl, rfl⟩
  | cancel r => rcases h with h | h <;> cases h
  | status r => rcases h with h | h <;> cases h

/-- A handler that claims a key answers a submit or a mint. -/
theorem writeRequest_of_key (hkey : d.key = some key) : ∃ request, d.writeRequest = some request ∧
    request.correlationId = d.correlationId ∧ (request.kind = .submit ∨ request.kind = .mint) := by
  unfold Delivery.key at hkey
  split at hkey
  · exact ⟨_, rfl, rfl, Or.inl rfl⟩
  · exact ⟨_, rfl, rfl, Or.inr rfl⟩
  · cases hkey

/-- A plain failure. -/
theorem failure_of_refuses {reply : Reply} (h : reply.refuses = true) {r : TxResultMessage} (hr : reply.result = some r) :
    r.success = false ∧ r.deduplicated = false := by
  cases reply with
  | tx r' =>
    cases hr
    simpa [Reply.refuses] using h
  | mint r' =>
    cases hr
    simpa [Reply.refuses] using h
  | cancel r' => cases hr
  | status r' => cases hr

theorem reports_failure {log : History} {t : Nat} {r : TxResultMessage} (hfails : r.success = false)
    (hnone : ∀ sig slot, ¬Effected d (traceOf t log) sig slot)
    (hdup : r.deduplicated = true → ∃ u key c nowMs, u ≠ t ∧ .deliver u d ∈ log ∧
      .call u ⟨.claim (some key) c nowMs, none⟩ ∈ log) : Reports Γ d log t r :=
  ⟨fun hs => (by simp [hfails] at hs), fun _ => hnone, fun _ => hdup⟩

theorem reports_success {log : History} {t : Nat} {r : TxResultMessage} (hs : r.success = true) {u : Nat} {sig : Signature}
    (hu : .deliver u d ∈ log) (heffect : Effected d (traceOf u log) sig r.slot)
    (hsig : r.signature = some (Γ.signatureToString sig)) (hdup : u ≠ t → r.deduplicated = true) : Reports Γ d log t r :=
  ⟨fun _ => ⟨u, sig, hu, heffect, hsig, hdup⟩, fun hf => (by simp [hs] at hf), fun hf => (by simp [hs] at hf)⟩

/-- What a copy publishes is a result under its id, which reports what is so; before a success an id was recorded. -/
theorem reports_of_publish (hkey : d.key = some key)
    (h : Pool.Reach (bridge Γ) (CopiesOf d) (Pool.init (.fresh clock blockhash)) p) {t : Nat} {subject : String} {reply : Reply}
    (hd : .deliver t d ∈ p.log) (he : .call t ⟨.publish subject reply, ()⟩ ∈ p.log) :
    ∃ r, reply.result = some r ∧ r.correlationId = d.correlationId ∧ Reports Γ d p.log t r ∧
      (r.success = true → ∃ u expiryMs, .call u ⟨.cacheInsert d.correlationId expiryMs, ()⟩ ∈ p.log) := by
  have hmem := Pool.mem_traceOf.mpr he
  obtain ⟨-, q, hsteps⟩ := h.steps_of_deliver hd
  obtain ⟨request, hrequest, hid, hkind⟩ := writeRequest_of_key hkey
  have hsaid := (says_of_steps hrequest (attempts_true Γ d) hsteps).1
  have hanswers := answers_of_forRequest h (hsaid.results subject reply hmem)
  obtain ⟨r, hr, hrid⟩ := result_of_kind (hanswers.1.symm ▸ hkind)
  refine ⟨r, hr, hrid.trans (hanswers.2.trans hid), ?_⟩
  obtain ⟨replySubject, replay, hfinish, hreplay⟩ := finish_of_steps hkey hsteps hmem rfl
  cases hfinish with
  | refused hgates =>
    obtain ⟨hfails, hplain⟩ := failure_of_refuses (hgates _ hmem) hr
    refine ⟨reports_failure hfails (fun sig slot => not_effected fun e he => isOutcome_of_gate (hgates e he)) ?_, ?_⟩
    · simp [hplain]
    · simp [hfails]
  | replayed nowMs result hclaim hnone hcall =>
    obtain ⟨-, rfl⟩ : subject = replySubject ∧ reply = replay result := by simpa using hcall
    obtain ⟨hdup, hcases⟩ := answered_of_claim hkey h (Pool.mem_traceOf.mp hclaim)
    cases hr.symm.trans (hreplay result hdup)
    rcases hcases with ⟨hs, u, sig, expiryMs, hu, heffect, hsig, hcached⟩ | ⟨hfails, u, c, n, hut, hu, hclaimed⟩
    · exact ⟨reports_success hs hu heffect hsig fun _ => hdup, fun _ => ⟨u, expiryMs, hcached⟩⟩
    · refine ⟨reports_failure hfails (fun sig slot => not_effected hnone) fun _ => ⟨u, key, c, n, hut, hu, hclaimed⟩, ?_⟩
      simp [hfails]
  | finished nowMs t₁ reply' done hattempt hsub hdecides hcached hcall =>
    obtain rfl := eq_of_publish hcall
    obtain ⟨r', hr', hplain, hsuccess, hout⟩ := hattempt.reported
    cases hr.symm.trans hr'
    cases done with
    | none =>
      refine ⟨reports_failure hsuccess (fun sig slot heffect => ?_) ?_, ?_⟩
      · exact hattempt.failed rfl sig slot (effected_mono heffect hdecides)
      · simp [hplain]
      · simp [hsuccess]
    | some out =>
      obtain ⟨hsig, hslot⟩ := hout out rfl
      obtain ⟨sig, hout₁, heffect⟩ := hattempt.effected out.1 out.2 rfl
      have hown : Effected d (traceOf t p.log) sig r.slot := hslot ▸ effected_mono heffect fun e he _ => hsub e he
      obtain ⟨expiryMs, hrecorded⟩ := hcached nofun
      exact ⟨reports_success hsuccess hd hown (hout₁ ▸ hsig) fun hne => (hne rfl).elim,
        fun _ => ⟨t, expiryMs, Pool.mem_traceOf.mp hrecorded⟩⟩

end Run

end RepliesAux

open RepliesAux AnsweringAux in
/-- The deliveries of one envelope with an idempotency key, in any interleaving in a session, report what is so: each publishes at
most one result, a success is an effect that took place, a failure is the publisher's own, and after a success every delivery
that looks the id up is silent. -/
theorem replies_report_effects {Γ : Ctx} {d : Delivery} {key : String} (hkey : d.key = some key) {clock : Nat}
    {blockhash : Option (Hash × Nat)} {p : BridgePool}
    (h : Pool.Reach (bridge Γ) (CopiesOf d) (Pool.init (.fresh clock blockhash)) p) : RepliesReport Γ d p.log := by
  obtain ⟨request, hrequest, -, -⟩ := writeRequest_of_key hkey
  have hsaid : ∀ t, .deliver t d ∈ p.log →
      Says request ((answering True request).after .waiting (traceOf t p.log)) (traceOf t p.log) := by
    intro t hd
    obtain ⟨-, q, hsteps⟩ := h.steps_of_deliver hd
    exact (says_of_steps hrequest (attempts_true Γ d) hsteps).1
  refine ⟨fun t hd => (hsaid t hd).single, fun t subject reply hd he => ?_, ?_⟩
  · obtain ⟨r, hr, hid, hreports, -⟩ := reports_of_publish hkey h hd he
    exact ⟨r, hr, hid, hreports⟩
  · intro before after t a u subject reply r hlog hd hu hpublished hr hsuccess subject' reply' he
    obtain ⟨p₁, q₁, hr₁, -, hs, rfl⟩ := h.step_of_split hlog
    have hdelivered : .deliver u d ∈ p₁.log := by
      obtain ⟨d', q, hdelivered, -⟩ := hr₁.steps hpublished
      have hd' : .deliver u d' ∈ p₁.log := (hdelivered d').mpr rfl
      obtain rfl : d' = d := (h.steps_of_deliver hu).1 d' (by rw [hlog]; exact List.mem_append_left _ hd')
      exact hd'
    obtain ⟨r', hr', -, -, hrecorded⟩ := reports_of_publish hkey hr₁ hdelivered hpublished
    cases hr.symm.trans hr'
    obtain ⟨v, expiryMs, hinsert⟩ := hrecorded hsuccess
    obtain ⟨m, k, answer, -, hfound, -⟩ := hs.call_inv
    have hcached : a = true := hfound.trans (cached_of_recorded (fun _ _ _ hc => hc.inSession) hr₁ hinsert)
    have hlookup : (⟨.cacheContains d.correlationId, true⟩ : CallEvent) ∈ traceOf t p.log := by
      refine Pool.mem_traceOf.mpr ?_
      rw [hlog, hcached]
      exact List.mem_append_right _ List.mem_cons_self
    cases ((hsaid t hd).dropped _ hlookup).2 _ (Pool.mem_traceOf.mpr he)

namespace RepliesAux

open SampleAux

/-- A submit, a copy of it that meets its claim, and the submit to its end. -/
def collisionScript : Script :=
  [.deliver 0 (.submit (.ok (submitOf datedTx "c" "k")))] ++ calls 0 4 ++
    [.deliver 1 (.submit (.ok (submitOf datedTx "c" "k")))] ++ calls 1 5 ++ calls 0 8

/-- A test for the steps of one session with copies only. -/
def copyStep (_ : Session) (_ : History) (l : BridgeLabel) : Bool :=
  isRepeated l && match l with
    | .env .reconnect => false
    | _ => true

theorem inSession_of_copyStep {w : Session} {log : History} {l : BridgeLabel} (h : copyStep w log l = true) : InSession l := by
  unfold InSession
  split
  · cases h
  · trivial

theorem eq_of_copyStep {w : Session} {log : History} {t : Nat} {m : Delivery} (h : copyStep w log (.deliver t m) = true) :
    m = .submit (.ok (submitOf datedTx "c" "k")) :=
  eq_of_isRepeated (Bool.and_eq_true_iff.mp h).1

/-- Whether a handler published a result of a submit with id "c" and this success. -/
def publishes (t : Nat) (success : Bool) : BridgeLabel → Bool
  | .call u ⟨.publish _ (.tx r), _⟩ => decide (u = t ∧ r.correlationId = "c" ∧ r.success = success)
  | _ => false

theorem eq_of_publishes {t : Nat} {success : Bool} {l : BridgeLabel} (h : publishes t success l = true) :
    ∃ subject r, l = .call t ⟨.publish subject (.tx r), ()⟩ ∧ r.correlationId = "c" ∧ r.success = success := by
  unfold publishes at h
  split at h
  · obtain ⟨rfl, hid, hs⟩ := of_decide_eq_true h
    exact ⟨_, _, rfl, hid, hs⟩
  · cases h

/-- Whether a copy published a failure and the submit a success. -/
def contradicts (p : BridgePool) : Bool := p.log.any (publishes 0 true) && p.log.any (publishes 1 false)

end RepliesAux

open RepliesAux SampleAux in
/-- A copy that meets the claim of the first reports a failure, the first then its success; each reports what is so. -/
theorem collision_reports : ∃ p : BridgePool,
    Pool.Reach (bridge (ctx [datedTx])) (CopiesOf (.submit (.ok (submitOf datedTx "c" "k")))) (Pool.init (.fresh 1000 none)) p ∧
    contradicts p = true ∧ RepliesReport (ctx [datedTx]) (.submit (.ok (submitOf datedTx "c" "k"))) p.log := by
  have hrun : ((Pool.init (.fresh 1000 none) : BridgePool).exec (bridge (ctx [datedTx])) copyStep collisionScript).any
      contradicts = true := by
    decide +kernel
  have hcopies : ∀ w log l, copyStep w log l = true → CopiesOf (.submit (.ok (submitOf datedTx "c" "k"))) w log l := by
    intro w log l hl
    refine ⟨inSession_of_copyStep hl, ?_⟩
    rintro t m rfl -
    exact eq_of_copyStep hl
  obtain ⟨p, hp, htest⟩ := Pool.exists_reach_of_exec hcopies hrun
  exact ⟨p, hp, htest, replies_report_effects rfl hp⟩

open RepliesAux SampleAux in
/-- Deliveries of one envelope publish a failure and a success under its id. -/
theorem redelivery_replies_contradict : ¬∀ (Γ : Ctx) (d : Delivery) (clock : Nat) (blockhash : Option (Hash × Nat))
    (p : BridgePool), d.key ≠ none →
    Pool.Reach (bridge Γ) (fun _ _ l => InSession l ∧ ∀ t m, l = .deliver t m → m = d) (Pool.init (.fresh clock blockhash)) p →
    ∀ t u subject subject' reply reply' r r', .call t ⟨.publish subject reply, ()⟩ ∈ p.log →
      .call u ⟨.publish subject' reply', ()⟩ ∈ p.log → reply.result = some r → reply'.result = some r' →
      r.correlationId = d.correlationId → r'.correlationId = d.correlationId → r.success = r'.success := by
  intro h
  have hrun : ((Pool.init (.fresh 1000 none) : BridgePool).exec (bridge (ctx [datedTx])) copyStep collisionScript).any
      contradicts = true := by
    decide +kernel
  have hcopies : ∀ w log l, copyStep w log l = true →
      InSession l ∧ ∀ t m, l = .deliver t m → m = .submit (.ok (submitOf datedTx "c" "k")) := by
    intro w log l hl
    refine ⟨inSession_of_copyStep hl, ?_⟩
    rintro t m rfl
    exact eq_of_copyStep hl
  obtain ⟨p, hp, htest⟩ := Pool.exists_reach_of_exec (C := fun _ _ l => InSession l ∧ ∀ t m, l = .deliver t m → m = _) hcopies hrun
  obtain ⟨htrue, hfalse⟩ := Bool.and_eq_true_iff.mp htest
  obtain ⟨l, hl, hpublish⟩ := List.any_eq_true.mp htrue
  obtain ⟨l', hl', hpublish'⟩ := List.any_eq_true.mp hfalse
  obtain ⟨subject, r, rfl, hid, hs⟩ := eq_of_publishes hpublish
  obtain ⟨subject', r', rfl, hid', hs'⟩ := eq_of_publishes hpublish'
  have hsame := h _ (.submit (.ok (submitOf datedTx "c" "k"))) _ _ p nofun hp 0 1 subject subject' _ _ r r' hl hl' rfl rfl hid hid'
  rw [hs, hs'] at hsame
  cases hsame

end ChainBridge
