import ChainBridge.Lemmas.Once
import ChainBridge.Lemmas.Sample
import Mathlib.Data.List.TakeWhile

/-!
# At most one accepted submission

Redelivery of one envelope within a session, and re-sends of one idempotency key across sessions.
-/

namespace ChainBridge

open Interleave ProtocolAux ClaimsAux OnceAux SampleAux

/-! ## Redelivery within a session -/

/-- The runs of one session in which every delivery is the same submit envelope and no clock reading expires a record. -/
structure Redelivery (envelope : TxSubmitMessage) (w : Session) (_log : History) (l : BridgeLabel) : Prop where
  inSession : InSession l
  same : ∀ t m, l = .deliver t m → m = .submit (.ok envelope)
  claims : ∀ t key c nowMs a, l = .call t ⟨.claim (some key) c nowMs, a⟩ →
    ∀ rec, w.dedupStore.get? key = some rec → nowMs < rec.expiryMs
  sweeps : ∀ nowMs, l = .env (.sweep nowMs) → ∀ key rec, w.dedupStore.get? key = some rec → nowMs < rec.expiryMs

namespace SubmissionAux

/-- A submit key is no mint key. -/
theorem not_isMintKey {a key : String} (h : dedupKey .submit a = some key) : ¬IsMintKey key := by
  rintro ⟨b, hb⟩
  have := (dedupKey_inj h hb).1
  cases this

theorem exists_dedupKey {e : Effect} {a : String} (h : a ≠ "") : ∃ key, dedupKey e a = some key := by
  cases hk : dedupKey e a with
  | none => exact (h ((dedupKey_eq_none_iff e a).mp hk)).elim
  | some key => exact ⟨key, rfl⟩

/-- A run of one session never had another one. -/
theorem not_acceptedBefore {Γ : Ctx} {C : Session → History → BridgeLabel → Prop} (hC : ∀ w log l, C w log l → InSession l)
    {w : Session} {p : BridgePool} (hp : Pool.Reach (bridge Γ) C (Pool.init w) p) (key : String) :
    ¬AcceptedBefore key p.log := by
  rintro ⟨l₁, l₂, hlog, -⟩
  have hmem : (.env .reconnect : BridgeLabel) ∈ p.log := by
    rw [hlog]
    exact List.mem_append_right _ List.mem_cons_self
  obtain ⟨w', log', hc⟩ := hp.mem_log hmem
  exact hC w' log' _ hc

/-- In a redelivery run every handler has the envelope's key. -/
theorem acceptedFor_eq {Γ : Ctx} {envelope : TxSubmitMessage} {w : Session} {p : BridgePool}
    (hp : Pool.Reach (bridge Γ) (Redelivery envelope) (Pool.init w) p) :
    acceptedFor (dedupKey .submit envelope.idempotencyKey) p.log = acceptedSends p.log := by
  obtain ⟨phase, ⟨hf, hd⟩, -⟩ := hp.invariant (dispatch_wp Γ) (fun v => Faithful v ∧ Delivered v)
    ⟨faithful_init w, fun t ht => (by cases ht)⟩ (fun v l u hv _ h => ⟨hv.1.step h, hv.2.step h⟩)
  refine List.filter_eq_self.mpr fun t ht => decide_eq_true ?_
  obtain ⟨s, hs⟩ := hd t ht
  have hm := hf.message t
  rw [hs] at hm
  obtain ⟨m, hm, -, -⟩ := hm.some
  obtain ⟨w', log', hc⟩ := hp.mem_log (mem_of_messageOf hm)
  rw [keyOf, hm, hc.same t m rfl]
  rfl

end SubmissionAux

open SubmissionAux

/-- Redelivery of an envelope with an idempotency key submits at most once: in every interleaving of its deliveries within one
session, at most one submission is accepted. The key is a sufficient condition: an envelope without one that its gates or the
signing path always refuse is submitted at most once as well. -/
theorem redelivery_submits_once (Γ : Ctx) (envelope : TxSubmitMessage) (hkey : envelope.idempotencyKey ≠ "") (clock : Nat)
    (blockhash : Option (Hash × Nat)) {p : BridgePool}
    (hp : Pool.Reach (bridge Γ) (Redelivery envelope) (Pool.init (.fresh clock blockhash)) p) :
    (acceptedSends p.log).length ≤ 1 := by
  obtain ⟨key, hk⟩ := exists_dedupKey (e := .submit) hkey
  rw [← acceptedFor_eq hp, hk]
  refine acceptedFor_length_le_one (not_isMintKey hk) (fun _ => True) (fun _ _ _ _ => trivial) (hp.mono ?_)
  intro p l q hr hc _
  constructor
  · intro t c nowMs a hl
    exact ⟨trivial, not_acceptedBefore (fun w log l hc => hc.inSession) hr key, hc.claims t key c nowMs a hl⟩
  · intro nowMs hl _ rec
    exact hc.sweeps nowMs hl key rec

namespace SubmissionAux

/-- A test that only a step of a redelivery run passes. -/
def redeliveryStep (envelope : TxSubmitMessage) (w : Session) (_ : History) : BridgeLabel → Bool
  | .deliver _ (.submit (.ok e)) => decide (e = envelope)
  | .deliver _ _ => false
  | .call _ ⟨.claim (some key) _ nowMs, _⟩ => (w.dedupStore.get? key).all fun rec => decide (nowMs < rec.expiryMs)
  | .env (.sweep _) => false
  | .env .reconnect => false
  | _ => true

theorem redelivery_of_step {envelope : TxSubmitMessage} {w : Session} {log : History} {l : BridgeLabel}
    (h : redeliveryStep envelope w log l = true) : Redelivery envelope w log l := by
  constructor
  · unfold InSession
    split
    · cases h
    · trivial
  · rintro t m rfl
    unfold redeliveryStep at h
    split at h <;> simp_all
  · rintro t key c nowMs a rfl rec hrec
    have h' : (w.dedupStore.get? key).all (fun rec => decide (nowMs < rec.expiryMs)) = true := h
    rw [hrec] at h'
    exact of_decide_eq_true h'
  · rintro nowMs rfl
    cases h

/-- The first delivery has signed when the second arrives; the second submits, then the first. -/
def redeliveryScript (envelope : TxSubmitMessage) : Script :=
  [.deliver 0 (.submit (.ok envelope))] ++ calls 0 6 ++
    [.env (.tick 32000), .deliver 1 (.submit (.ok envelope))] ++ calls 1 7 ++ calls 0 1

/-- The first delivery runs to its end, then the second. -/
def sequentialScript (envelope : TxSubmitMessage) : Script :=
  [.deliver 0 (.submit (.ok envelope)), .deliver 1 (.submit (.ok envelope))] ++ calls 1 3 ++ calls 0 13 ++ calls 1 3

end SubmissionAux

/-- Two deliveries of an envelope with a key: the second looks the correlation id up before the first submits, and is answered. -/
theorem redelivery_submits_once_run : ∃ p : BridgePool,
    Pool.Reach (bridge (ctx [datedTx])) (Redelivery (submitOf datedTx "c" "k")) (Pool.init (.fresh 1000 none)) p ∧
    acceptedSends p.log = [0] ∧ (acceptedSends p.log).length ≤ 1 := by
  have hrun : ((Pool.init (.fresh 1000 none) : BridgePool).exec (bridge (ctx [datedTx]))
      (redeliveryStep (submitOf datedTx "c" "k")) (sequentialScript (submitOf datedTx "c" "k"))).any
      (fun p => decide (acceptedSends p.log = [0])) = true := by
    decide +kernel
  obtain ⟨p, hp, ht⟩ := Pool.exists_reach_of_exec (fun _ _ _ h => redelivery_of_step h) hrun
  exact ⟨p, hp, of_decide_eq_true ht, redelivery_submits_once _ _ (by decide) _ _ hp⟩

/-- Without an idempotency key the redelivery of an envelope can submit twice: the first handler has passed the lookup of the
correlation id and records it only after its own submission. -/
theorem redelivery_submits_twice_without_key : ¬∀ (Γ : Ctx) (envelope : TxSubmitMessage) (clock : Nat)
    (blockhash : Option (Hash × Nat)) (p : BridgePool),
    Pool.Reach (bridge Γ) (Redelivery envelope) (Pool.init (.fresh clock blockhash)) p →
      (acceptedSends p.log).length ≤ 1 := by
  intro h
  have hrun : ((Pool.init (.fresh 1000 none) : BridgePool).exec (bridge (ctx [datedTx]))
      (redeliveryStep (submitOf datedTx "c" "")) (redeliveryScript (submitOf datedTx "c" ""))).any
      (fun p => decide (2 ≤ (acceptedSends p.log).length)) = true := by
    decide +kernel
  obtain ⟨p, hp, ht⟩ := Pool.exists_reach_of_exec (fun _ _ _ h => redelivery_of_step h) hrun
  have hle := h _ _ _ _ p hp
  have hge := of_decide_eq_true ht
  omega

/-! ## Re-sends across sessions -/

/-- The runs, over any number of sessions, in which every claim on the key is made within the lifetime of a record after the
reading `t₀` of the first one. -/
def WithinWindow (idempotencyKey : String) (t₀ : Nat) (w : Session) (_log : History) (l : BridgeLabel) : Prop :=
  ∀ t key c nowMs a, dedupKey .submit idempotencyKey = some key → l = .call t ⟨.claim (some key) c nowMs, a⟩ →
    t₀ ≤ nowMs ∧ w.clock < t₀ + dedupTtlMs ∧ nowMs + dedupTtlMs < 2 ^ 64

/-- Such a run in which no claim on the key is made in a later session than an accepted submission for it. -/
structure SameSessionWindow (idempotencyKey : String) (t₀ : Nat) (w : Session) (log : History) (l : BridgeLabel) : Prop where
  window : WithinWindow idempotencyKey t₀ w log l
  sameSession : ∀ t key c nowMs a, dedupKey .submit idempotencyKey = some key →
    l = .call t ⟨.claim (some key) c nowMs, a⟩ → ¬AcceptedBefore key log

namespace SubmissionAux

variable {Γ : Ctx} {idempotencyKey key : String} {t₀ : Nat}

/-- In a run within the window the records and the claims of the key outlive the window. -/
theorem dated_of_window (hk : dedupKey .submit idempotencyKey = some key) {v u : BridgeView} {l : BridgeLabel}
    (hv : Faithful v ∧ (claimsOf v).Dated key t₀) (hc : WithinWindow idempotencyKey t₀ v.world v.log l)
    (h : View.Step (bridge Γ) (protocol Γ) v l u) : Faithful u ∧ (claimsOf u).Dated key t₀ := by
  refine ⟨hv.1.step h, hv.2.step (claims_step hv.1 h) ?_⟩
  intro t nowMs he
  obtain ⟨c, hl⟩ := eventOf_claimed he
  obtain ⟨hle, -, hwrap⟩ := hc t key c nowMs _ hk hl
  show _ ≤ u64Add nowMs dedupTtlMs
  rw [u64Add_eq hwrap]
  omega

/-- A run within the window keeps the key to one submission as long as nothing of it is claimed after a restart. -/
theorem onceRun_of_window (hk : dedupKey .submit idempotencyKey = some key) {clock : Nat}
    {blockhash : Option (Hash × Nat)} {p q : BridgePool} {l : BridgeLabel}
    (hp : Pool.Reach (bridge Γ) (SameSessionWindow idempotencyKey t₀) (Pool.init (.fresh clock blockhash)) p)
    (hc : SameSessionWindow idempotencyKey t₀ p.world p.log l) (hs : Pool.Step (bridge Γ) p l q) :
    OnceRun key (fun w => w.clock < t₀ + dedupTtlMs) p.world p.log l := by
  obtain ⟨phase, ⟨hf, hd⟩, htr⟩ := hp.invariant (dispatch_wp Γ) (fun v => Faithful v ∧ (claimsOf v).Dated key t₀)
    ⟨faithful_init _, ⟨fun t h hh => (by cases hh), fun rec hrec => (by cases hrec)⟩⟩
    (fun v l u hv hc h => dated_of_window hk hv hc.window h)
  obtain ⟨phase', hview, -⟩ := hs.view (dispatch_wp Γ) htr
  constructor
  · rintro t c nowMs a rfl
    obtain ⟨-, hclock, -⟩ := hc.window t key c nowMs a hk rfl
    refine ⟨hclock, hc.sameSession t key c nowMs a hk rfl, fun rec hrec => ?_⟩
    obtain ⟨s, -, hs, hallow, -⟩ := hview.call_inv
    obtain ⟨prior, -, h⟩ | ⟨-, -, -, -, hn, -⟩ := allow_cases hallow
    · exact h.elim
    have hnow : nowMs ≤ p.world.clock := hn ▸ hf.reading t s hs
    have hexp := hd.stored rec hrec
    omega
  · rintro nowMs rfl hclock rec hrec
    have hnow : nowMs ≤ p.world.clock := by
      cases hs with
      | env e hw =>
        simp only [bridge, Session.move] at hw
        split at hw
        · assumption
        · cases hw
    have hexp := hd.stored rec hrec
    omega

end SubmissionAux

/-- Re-sends of one idempotency key submit at most once over all sessions, when no claim on the key comes after a restart that
follows an accepted submission for it. -/
theorem resend_submits_once (Γ : Ctx) (idempotencyKey : String) (hkey : idempotencyKey ≠ "") (t₀ clock : Nat)
    (blockhash : Option (Hash × Nat)) {p : BridgePool}
    (hp : Pool.Reach (bridge Γ) (SameSessionWindow idempotencyKey t₀) (Pool.init (.fresh clock blockhash)) p) :
    (acceptedFor (dedupKey .submit idempotencyKey) p.log).length ≤ 1 := by
  obtain ⟨key, hk⟩ := exists_dedupKey (e := .submit) hkey
  rw [hk]
  refine acceptedFor_length_le_one (not_isMintKey hk) (fun w => w.clock < t₀ + dedupTtlMs) ?_
    (hp.mono fun p l q hr hc hs => onceRun_of_window hk hr hc hs)
  intro w w' hle hw
  omega

namespace SubmissionAux

/-- A test that only a step of a run within the window passes. -/
def windowStep (t₀ : Nat) (w : Session) (_ : History) : BridgeLabel → Bool
  | .call _ ⟨.claim (some _) _ nowMs, _⟩ =>
    decide (t₀ ≤ nowMs ∧ w.clock < t₀ + dedupTtlMs ∧ nowMs + dedupTtlMs < 2 ^ 64)
  | _ => true

theorem window_of_step {idempotencyKey : String} {t₀ : Nat} {w : Session} {log : History} {l : BridgeLabel}
    (h : windowStep t₀ w log l = true) : WithinWindow idempotencyKey t₀ w log l := by
  rintro t key c nowMs a - rfl
  exact of_decide_eq_true h

/-- The part of a history from the first accepted submission on. -/
def sinceAccepted (log : History) : History := log.dropWhile fun l => (acceptedBy l).isNone

/-- Whether a label is a restart. -/
def isRestart : BridgeLabel → Bool
  | .env .reconnect => true
  | _ => false

/-- The test of a run within the window in which no restart follows an accepted submission. -/
def sameSessionStep (t₀ : Nat) (w : Session) (log : History) (l : BridgeLabel) : Bool :=
  windowStep t₀ w log l && !(sinceAccepted log).any isRestart

theorem any_isRestart_of_acceptedBefore {key : String} {log : History} (h : AcceptedBefore key log) :
    (sinceAccepted log).any isRestart = true := by
  obtain ⟨l₁, l₂, rfl, hne⟩ := h
  have hsome : (l₁.dropWhile fun l => (acceptedBy l).isNone).isEmpty = false := by
    rw [Bool.eq_false_iff]
    intro hnil
    rw [List.isEmpty_iff, List.dropWhile_eq_nil_iff] at hnil
    have hnone : acceptedSends l₁ = [] := by
      refine List.filterMap_eq_nil_iff.mpr fun l hl => ?_
      simpa using hnil l hl
    exact hne (by rw [acceptedFor, hnone]; rfl)
  rw [sinceAccepted, List.dropWhile_append, hsome]
  simp [isRestart]

theorem sameSession_of_step {idempotencyKey : String} {t₀ : Nat} {w : Session} {log : History} {l : BridgeLabel}
    (h : sameSessionStep t₀ w log l = true) : SameSessionWindow idempotencyKey t₀ w log l := by
  rw [sameSessionStep, Bool.and_eq_true, Bool.not_eq_true'] at h
  refine ⟨window_of_step h.1, fun t key c nowMs a _ _ hb => ?_⟩
  rw [any_isRestart_of_acceptedBefore hb] at h
  cases h.2

/-- The session ends after the first handler signed; the redelivery submits, and a re-send is answered. -/
def resendScript : Script :=
  [.deliver 0 (.submit (.ok (submitOf datedTx "c" "k")))] ++ calls 0 6 ++
    [.env .reconnect, .deliver 1 (.submit (.ok (submitOf datedTx "c" "k")))] ++ calls 1 13 ++
    [.env (.tick 20000), .deliver 2 (.submit (.ok (submitOf datedTx "c2" "k")))] ++ calls 2 6

/-- The session ends after the first handler submitted; the redelivery submits again. -/
def restartScript : Script :=
  [.deliver 0 (.submit (.ok (submitOf datedTx "c" "k")))] ++ calls 0 7 ++
    [.env .reconnect, .deliver 1 (.submit (.ok (submitOf datedTx "c" "k")))] ++ calls 1 7

end SubmissionAux

/-- A handler cut off before it submits, its redelivery and a re-send: one submission is accepted. -/
theorem resend_submits_once_run : ∃ p : BridgePool,
    Pool.Reach (bridge (ctx [datedTx])) (SameSessionWindow "k" 1000) (Pool.init (.fresh 1000 none)) p ∧
    acceptedSends p.log = [1] ∧ (acceptedFor (dedupKey .submit "k") p.log).length ≤ 1 := by
  have hrun : ((Pool.init (.fresh 1000 none) : BridgePool).exec (bridge (ctx [datedTx])) (sameSessionStep 1000)
      resendScript).any (fun p => decide (acceptedSends p.log = [1])) = true := by
    decide +kernel
  obtain ⟨p, hp, ht⟩ := Pool.exists_reach_of_exec (fun _ _ _ h => sameSession_of_step h) hrun
  exact ⟨p, hp, of_decide_eq_true ht, resend_submits_once _ _ (by decide) _ _ _ hp⟩

/-- A restart after an accepted submission forgets it: the redelivery of the unacknowledged message submits again. -/
theorem resend_submits_twice_after_restart : ¬∀ (Γ : Ctx) (idempotencyKey : String) (t₀ clock : Nat)
    (blockhash : Option (Hash × Nat)) (p : BridgePool), idempotencyKey ≠ "" →
    Pool.Reach (bridge Γ) (WithinWindow idempotencyKey t₀) (Pool.init (.fresh clock blockhash)) p →
      (acceptedFor (dedupKey .submit idempotencyKey) p.log).length ≤ 1 := by
  intro h
  have hrun : ((Pool.init (.fresh 1000 none) : BridgePool).exec (bridge (ctx [datedTx])) (windowStep 1000)
      restartScript).any (fun p => decide (2 ≤ (acceptedFor (dedupKey .submit "k") p.log).length)) = true := by
    decide +kernel
  obtain ⟨p, hp, ht⟩ := Pool.exists_reach_of_exec (fun _ _ _ h => window_of_step h) hrun
  have hle := h _ "k" 1000 _ _ p (by decide) hp
  have hge := of_decide_eq_true ht
  omega

end ChainBridge
