import ChainBridge.Lemmas.Claims
import ChainBridge.Lemmas.Sample
import Mathlib.Data.Nat.Init

/-!
# What a cancellation stops

A cancellation and a submit meet only in the cache of correlation ids, which the submit looks up once, before it signs. A
cancellation that reports success stops every handler that looks the id up afterwards, and none that did before.
-/

namespace ChainBridge

open Interleave ProtocolAux ClaimsAux SampleAux

/-- The runs of one session. -/
def OneSession (_w : Session) (_log : History) (l : BridgeLabel) : Prop := InSession l

/-- A handler works for a correlation id. -/
def WorksFor (log : History) (t : Nat) (c : String) : Prop := (messageOf t log).map Delivery.correlationId = some c

/-- A successful cancellation means that the transaction is not executed: no submission for the id was accepted before the reply,
and none is issued after it before the clock reaches the expiry of the cancellation's entry. -/
def CancelPreventsExecution (log : History) : Prop :=
  ∀ l₁ l₂ x subject r expiryMs, log = l₁ ++ .call x ⟨.publish subject (.cancel r), ()⟩ :: l₂ → r.success = true →
    .call x ⟨.cacheInsert r.correlationId expiryMs, ()⟩ ∈ l₁ →
    (∀ t tx sig, WorksFor log t r.correlationId → .call t ⟨.sendTransaction tx, .ok sig⟩ ∉ l₁) ∧
    ∀ k₁ k₂ t tx a, l₂ = k₁ ++ .call t ⟨.sendTransaction tx, a⟩ :: k₂ → (∀ n, .env (.tick n) ∈ k₁ → n < expiryMs) →
      ¬WorksFor log t r.correlationId

namespace CancelAux

variable {Γ : Ctx} {v u : BridgeView} {l : BridgeLabel}

/-- Either the last element of an extended list is the one split at, or the split is one of the list before. -/
theorem split_snoc {α : Type} {xs k₁ k₂ : List α} {x y : α} (h : xs ++ [x] = k₁ ++ y :: k₂) :
    (k₂ = [] ∧ xs = k₁ ∧ x = y) ∨ ∃ k, k₂ = k ++ [x] ∧ xs = k₁ ++ y :: k := by
  rcases List.eq_nil_or_concat k₂ with rfl | ⟨k, z, rfl⟩
  · obtain ⟨h₁, h₂⟩ := List.append_inj' h rfl
    cases h₂
    exact Or.inl ⟨rfl, h₁, rfl⟩
  · have h' : xs ++ [x] = (k₁ ++ y :: k) ++ [z] := by
      rw [h]
      simp
    obtain ⟨h₁, h₂⟩ := List.append_inj' h' rfl
    cases h₂
    exact Or.inr ⟨k, by simp, h₁⟩

/-! ## The cache of a session -/

/-- A step of the session keeps every correlation id that is remembered. -/
theorem cache_kept (hin : InSession l) (h : View.Step (bridge Γ) (protocol Γ) v l u) {c : String}
    (hc : v.world.idempotencyCache.contains c = true) : u.world.idempotencyCache.contains c = true := by
  cases h with
  | deliver t m hn => exact hc
  | @call t s i r hs ha =>
    cases i with
    | cacheInsert key expiryMs => exact KeyMap.contains_insert_of_contains _ key c expiryMs hc
    | _ => exact hc
  | @env w m hw =>
    cases m with
    | reconnect => exact hin.elim
    | tick clock =>
      simp only [bridge, Session.move] at hw
      split at hw
      · cases hw
        exact hc
      · cases hw
    | sweep nowMs =>
      simp only [bridge, Session.move] at hw
      split at hw
      · cases hw
        exact hc
      · cases hw
    | refresh hash height =>
      cases hw
      exact hc

/-- What every view of a session satisfies: progress is what the history shows, and an id once recorded is found by every
lookup. -/
structure CancelInv (v : BridgeView) : Prop where
  faithful : Faithful v
  looked : ∀ t s, v.phase t = some s → s.looked = true → .call t ⟨.cacheContains s.correlationId, false⟩ ∈ v.log
  cached : ∀ t s, v.phase t = some s → s.cached = true →
    ∃ expiryMs, .call t ⟨.cacheInsert s.correlationId expiryMs, ()⟩ ∈ v.log
  found : ∀ k₁ k₂ t c expiryMs, v.log = k₁ ++ .call t ⟨.cacheInsert c expiryMs, ()⟩ :: k₂ →
    v.world.idempotencyCache.contains c = true ∧ ∀ t', .call t' ⟨.cacheContains c, false⟩ ∉ k₂
  sent : ∀ t tx a, .call t ⟨.sendTransaction tx, a⟩ ∈ v.log →
    ∃ s, v.phase t = some s ∧ .call t ⟨.cacheContains s.correlationId, false⟩ ∈ v.log
  reported : ∀ x subject r, .call x ⟨.publish subject (.cancel r), ()⟩ ∈ v.log → r.success = true →
    ∃ k₁ k₂ expiryMs, v.log = k₁ ++ .call x ⟨.cacheInsert r.correlationId expiryMs, ()⟩ :: k₂ ∧
      .call x ⟨.publish subject (.cancel r), ()⟩ ∈ k₂

theorem cancelInv_init (w : Session) : CancelInv (View.init w) where
  faithful := faithful_init w
  looked := fun t s hs => (by cases hs)
  cached := fun t s hs => (by cases hs)
  found := fun k₁ k₂ t c expiryMs hlog => (by cases k₁ <;> cases hlog)
  sent := fun t tx a hm => (by cases hm)
  reported := fun x subject r hm => (by cases hm)

/-- Only a lookup changes the note of a lookup, and only an insertion that of a recorded id. -/
theorem next_notes (s : Progress) (c : Call) (a : c.Answer) :
    ((∀ key, c ≠ .cacheContains key) → (s.next c a).looked = s.looked) ∧
      ((∀ key expiryMs, c ≠ .cacheInsert key expiryMs) → (s.next c a).cached = s.cached) := by
  cases c with
  | cacheContains key => exact ⟨fun hne => absurd rfl (hne key), fun _ => rfl⟩
  | cacheInsert key expiryMs => exact ⟨fun _ => rfl, fun hne => absurd rfl (hne key expiryMs)⟩
  | claim key correlationId nowMs => cases a <;> exact ⟨fun _ => rfl, fun _ => rfl⟩
  | sendTransaction tx =>
    rcases a with e | sig
    · exact ⟨fun _ => rfl, fun _ => rfl⟩
    · simp only [Progress.next]
      split <;> exact ⟨fun _ => rfl, fun _ => rfl⟩
  | _ => exact ⟨fun _ => rfl, fun _ => rfl⟩

/-- The progress after a call shows a lookup that found nothing only if it did before, or this call was it. -/
theorem next_looked {s : Progress} {c : Call} {a : c.Answer} (h : (s.next c a).looked = true) :
    s.looked = true ∨ (⟨c, a⟩ : CallEvent) = ⟨.cacheContains s.correlationId, false⟩ := by
  by_cases hc : ∀ key, c ≠ .cacheContains key
  · rw [(next_notes s c a).1 hc] at h
    exact Or.inl h
  · simp only [not_forall, not_not] at hc
    obtain ⟨key, rfl⟩ := hc
    simp only [Progress.next, Bool.or_eq_true, Bool.and_eq_true, decide_eq_true_eq, Bool.not_eq_true'] at h
    rcases h with h | ⟨rfl, rfl⟩
    · exact Or.inl h
    · exact Or.inr rfl

/-- The progress after a call shows a recorded id only if it did before, or this call recorded it. -/
theorem next_cached {s : Progress} {c : Call} {a : c.Answer} (h : (s.next c a).cached = true) :
    s.cached = true ∨ ∃ expiryMs, (⟨c, a⟩ : CallEvent) = ⟨.cacheInsert s.correlationId expiryMs, ()⟩ := by
  by_cases hc : ∀ key expiryMs, c ≠ .cacheInsert key expiryMs
  · rw [(next_notes s c a).2 hc] at h
    exact Or.inl h
  · simp only [not_forall, not_not] at hc
    obtain ⟨key, expiryMs, rfl⟩ := hc
    simp only [Progress.next, Bool.or_eq_true, decide_eq_true_eq] at h
    rcases h with h | rfl
    · exact Or.inl h
    · exact Or.inr ⟨expiryMs, rfl⟩

/-- The correlation id of a handler never changes. -/
theorem correlationId_stays (h : View.Step (bridge Γ) (protocol Γ) v l u) {t : Nat} {s s' : Progress}
    (hs : v.phase t = some s) (hs' : u.phase t = some s') : s'.correlationId = s.correlationId := by
  rcases h.phase_cases hs' with h' | ⟨m, rfl, -⟩ | ⟨s₀, i, a, -, h', -, rfl⟩ | ⟨s₀, e, -, -, h', rfl⟩
  · rw [hs] at h'
    cases h'
    rfl
  · cases h with
    | deliver _ _ hn =>
      rw [hs] at hn
      cases hn
  · rw [hs] at h'
    cases h'
    exact (next_key s i a).2
  · rw [hs] at h'
    cases h'
    rfl

/-- A handler that has looked its id up has that lookup in the history. -/
theorem CancelInv.looked_step (hv : CancelInv v) (h : View.Step (bridge Γ) (protocol Γ) v l u) (t : Nat) (s' : Progress)
    (hs' : u.phase t = some s') (hl : s'.looked = true) : .call t ⟨.cacheContains s'.correlationId, false⟩ ∈ u.log := by
  rcases h.phase_cases hs' with hs | ⟨m, -, rfl⟩ | ⟨s, i, a, rfl, hs, -, rfl⟩ | ⟨s, e, -, -, hs, rfl⟩
  · exact h.mem_log (hv.looked t s' hs hl)
  · cases hl
  · have hid : ((protocol Γ).next s i a).correlationId = s.correlationId := (next_key s i a).2
    rw [hid]
    rcases next_looked hl with hl | he
    · exact h.mem_log (hv.looked t s hs hl)
    · rw [← he]
      exact h.label_mem
  · exact h.mem_log (hv.looked t s hs hl)

/-- A handler that has recorded its id has that record in the history. -/
theorem CancelInv.cached_step (hv : CancelInv v) (h : View.Step (bridge Γ) (protocol Γ) v l u) (t : Nat) (s' : Progress)
    (hs' : u.phase t = some s') (hc : s'.cached = true) :
    ∃ expiryMs, .call t ⟨.cacheInsert s'.correlationId expiryMs, ()⟩ ∈ u.log := by
  have hkept : ∀ s, v.phase t = some s → s.cached = true →
      ∃ expiryMs, .call t ⟨.cacheInsert s.correlationId expiryMs, ()⟩ ∈ u.log := by
    intro s hs hc
    obtain ⟨expiryMs, hm⟩ := hv.cached t s hs hc
    exact ⟨expiryMs, h.mem_log hm⟩
  rcases h.phase_cases hs' with hs | ⟨m, -, rfl⟩ | ⟨s, i, a, rfl, hs, -, rfl⟩ | ⟨s, e, -, -, hs, rfl⟩
  · exact hkept s' hs hc
  · cases hc
  · have hid : ((protocol Γ).next s i a).correlationId = s.correlationId := (next_key s i a).2
    rw [hid]
    rcases next_cached hc with hc | ⟨expiryMs, he⟩
    · exact hkept s hs hc
    · refine ⟨expiryMs, ?_⟩
      rw [← he]
      exact h.label_mem
  · exact hkept s hs hc

/-- After an id is recorded the session remembers it, so no later lookup misses it. -/
theorem CancelInv.found_step (hv : CancelInv v) (hin : InSession l) (h : View.Step (bridge Γ) (protocol Γ) v l u)
    (k₁ k₂ : History) (t : Nat) (c : String) (expiryMs : Nat)
    (hlog : u.log = k₁ ++ .call t ⟨.cacheInsert c expiryMs, ()⟩ :: k₂) :
    u.world.idempotencyCache.contains c = true ∧ ∀ t', .call t' ⟨.cacheContains c, false⟩ ∉ k₂ := by
  rw [h.log_eq] at hlog
  rcases split_snoc hlog with ⟨rfl, -, rfl⟩ | ⟨k, rfl, hlog'⟩
  -- the id is recorded by this step
  · obtain ⟨s, r, -, -, -, hw, -⟩ := h.call_inv
    refine ⟨?_, fun t' hm => (by cases hm)⟩
    rw [hw]
    simp [bridge, Session.serve, KeyMap.contains]
  -- it was recorded before, so a lookup in this step finds it
  · obtain ⟨hfound, hnone⟩ := hv.found k₁ k t c expiryMs hlog'
    refine ⟨cache_kept hin h hfound, fun t' hm => ?_⟩
    rw [List.mem_append, List.mem_singleton] at hm
    rcases hm with hm | rfl
    · exact hnone t' hm
    · obtain ⟨s, r, -, -, ha, -⟩ := h.call_inv
      have ha' : false = v.world.idempotencyCache.contains c := ha
      rw [hfound] at ha'
      cases ha'

/-- A handler that submits has looked its id up. -/
theorem CancelInv.sent_step (hv : CancelInv v) (h : View.Step (bridge Γ) (protocol Γ) v l u) (t : Nat) (tx : Transaction)
    (a : (Call.sendTransaction tx).Answer) (hm : .call t ⟨.sendTransaction tx, a⟩ ∈ u.log) :
    ∃ s, u.phase t = some s ∧ .call t ⟨.cacheContains s.correlationId, false⟩ ∈ u.log := by
  have hlooked : ∃ s, v.phase t = some s ∧ .call t ⟨.cacheContains s.correlationId, false⟩ ∈ v.log := by
    rcases h.log_cases hm with hm | rfl
    · exact hv.sent t tx a hm
    · obtain ⟨s, r, hs, hallow, -⟩ := h.call_inv
      obtain ⟨prior, -, hf⟩ | ⟨-, hl, -⟩ := allow_cases hallow
      · exact hf.elim
      · exact ⟨s, hs, hv.looked t s hs hl⟩
  obtain ⟨s, hs, hlook⟩ := hlooked
  obtain ⟨s', hs'⟩ := h.phase_stays hs
  refine ⟨s', hs', ?_⟩
  rw [correlationId_stays h hs hs']
  exact h.mem_log hlook

/-- A cancellation reports success after it has recorded its id. -/
theorem CancelInv.reported_step (hv : CancelInv v) (h : View.Step (bridge Γ) (protocol Γ) v l u) (x : Nat) (subject : String)
    (r : TxCancelResultMessage) (hm : .call x ⟨.publish subject (.cancel r), ()⟩ ∈ u.log) (hsucc : r.success = true) :
    ∃ k₁ k₂ expiryMs, u.log = k₁ ++ .call x ⟨.cacheInsert r.correlationId expiryMs, ()⟩ :: k₂ ∧
      .call x ⟨.publish subject (.cancel r), ()⟩ ∈ k₂ := by
  rcases h.log_cases hm with hm | rfl
  · obtain ⟨k₁, k₂, expiryMs, hlog, hpub⟩ := hv.reported x subject r hm hsucc
    refine ⟨k₁, k₂ ++ [l], expiryMs, ?_, List.mem_append_left _ hpub⟩
    rw [h.log_eq, hlog]
    simp
  · obtain ⟨s, r₀, hs, hallow, -⟩ := h.call_inv
    obtain ⟨prior, -, hf⟩ | ⟨-, hopen⟩ := allow_cases hallow
    · rcases hf with hf | hf <;> cases hf
    · obtain ⟨hcached, hid⟩ := hopen hsucc
      obtain ⟨expiryMs, hins⟩ := hv.cached x s hs hcached
      obtain ⟨k₁, k₂, hlog⟩ := List.append_of_mem hins
      refine ⟨k₁, k₂ ++ [_], expiryMs, ?_, List.mem_append_right _ List.mem_cons_self⟩
      rw [h.log_eq, hlog, hid]
      simp

theorem CancelInv.step (hv : CancelInv v) (hin : InSession l) (h : View.Step (bridge Γ) (protocol Γ) v l u) :
    CancelInv u where
  faithful := hv.faithful.step h
  looked := hv.looked_step h
  cached := hv.cached_step h
  found := hv.found_step hin h
  sent := hv.sent_step h
  reported := hv.reported_step h

end CancelAux

open CancelAux

/-- A cancellation that reports success has recorded its correlation id, and every submission for that id issued since then comes
from a handler that had looked the id up before. -/
theorem cancel_stops_later_lookups (Γ : Ctx) (clock : Nat) (blockhash : Option (Hash × Nat)) {p : BridgePool}
    (hp : Pool.Reach (bridge Γ) OneSession (Pool.init (.fresh clock blockhash)) p) (x : Nat) (subject : String)
    (r : TxCancelResultMessage) (hpub : .call x ⟨.publish subject (.cancel r), ()⟩ ∈ p.log) (hsucc : r.success = true) :
    ∃ k₁ k₂ expiryMs, p.log = k₁ ++ .call x ⟨.cacheInsert r.correlationId expiryMs, ()⟩ :: k₂ ∧
      .call x ⟨.publish subject (.cancel r), ()⟩ ∈ k₂ ∧
      ∀ t tx a, WorksFor p.log t r.correlationId → .call t ⟨.sendTransaction tx, a⟩ ∈ k₂ →
        .call t ⟨.cacheContains r.correlationId, false⟩ ∈ k₁ := by
  obtain ⟨phase, hv, -⟩ := hp.invariant (dispatch_wp Γ) CancelInv (cancelInv_init _) (fun v l u hv hc h => hv.step hc h)
  obtain ⟨k₁, k₂, expiryMs, hlog, hk⟩ := hv.reported x subject r hpub hsucc
  refine ⟨k₁, k₂, expiryMs, hlog, hk, fun t tx a hworks hsend => ?_⟩
  have hmem : Label.call t ⟨.sendTransaction tx, a⟩ ∈ p.log := by
    rw [show p.log = _ from hlog]
    exact List.mem_append_right _ (List.mem_cons_of_mem _ hsend)
  obtain ⟨s, hs, hlook⟩ := hv.sent t tx a hmem
  have hm := hv.faithful.message t
  rw [hs] at hm
  obtain ⟨m, hm, -, hid⟩ := hm.some
  have hc : s.correlationId = r.correlationId := by
    have hw : (messageOf t p.log).map Delivery.correlationId = some r.correlationId := hworks
    rw [show messageOf t p.log = some m from hm, Option.map_some, Option.some.injEq] at hw
    rw [hid, hw]
  rw [hc] at hlook
  have hlook' : Label.call t ⟨.cacheContains r.correlationId, false⟩ ∈ p.log := hlook
  rw [show p.log = _ from hlog, List.mem_append, List.mem_cons] at hlook'
  rcases hlook' with h₁ | h₂ | h₃
  · exact h₁
  · cases h₂
  · exact ((hv.found k₁ k₂ x _ expiryMs hlog).2 t h₃).elim

namespace CancelAux

/-- The cancellation of the runs below. -/
def cancelC : TxCancelMessage :=
  { correlationId := "c", replySubject := "chain.tx.cancelled",
    serviceIdentity := "spiffe://gridtokenx.th/prod/trading-service/matcher", createdAtMs := 1000, auth := none }

/-- Its reply. -/
def cancelledC : TxCancelResultMessage := { correlationId := "c", success := true, error := none }

/-- Whether a label is the reply. -/
def isReply : BridgeLabel → Bool
  | .call 1 ⟨.publish subject (.cancel r), _⟩ => decide (subject = "chain.tx.cancelled" ∧ r = cancelledC)
  | _ => false

theorem eq_of_isReply (h : isReply l = true) : l = .call 1 ⟨.publish "chain.tx.cancelled" (.cancel cancelledC), ()⟩ := by
  unfold isReply at h
  split at h
  · obtain ⟨rfl, rfl⟩ := of_decide_eq_true h
    rfl
  · cases h

/-- Whether a label is an accepted submission of the first handler. -/
def isAccepted : BridgeLabel → Bool
  | .call 0 ⟨.sendTransaction _, .ok _⟩ => true
  | _ => false

theorem eq_of_isAccepted (h : isAccepted l = true) : ∃ tx sig, l = .call 0 ⟨.sendTransaction tx, .ok sig⟩ := by
  unfold isAccepted at h
  split at h
  · exact ⟨_, _, rfl⟩
  · cases h

/-- Whether a label records the id. -/
def isRecorded : BridgeLabel → Bool
  | .call 1 ⟨.cacheInsert "c" _, _⟩ => true
  | _ => false

theorem eq_of_isRecorded (h : isRecorded l = true) : ∃ expiryMs, l = .call 1 ⟨.cacheInsert "c" expiryMs, ()⟩ := by
  unfold isRecorded at h
  split at h
  · exact ⟨_, rfl⟩
  · cases h

/-- A test for the steps of one session. -/
def sessionStep (_ : Session) (_ : History) : BridgeLabel → Bool
  | .env .reconnect => false
  | _ => true

theorem oneSession_of_step {w : Session} {log : History} (h : sessionStep w log l = true) : OneSession w log l := by
  unfold OneSession InSession
  split
  · cases h
  · trivial

/-- A submit passes its lookup, the cancellation reports success, the submit goes on, and a second submit looks the id up. -/
def lookupScript : Script :=
  [.deliver 0 (.submit (.ok (submitOf datedTx "c" "k")))] ++ calls 0 3 ++
    [.deliver 1 (.cancel (.ok cancelC))] ++ calls 1 7 ++ calls 0 10 ++
    [.deliver 2 (.submit (.ok (submitOf datedTx "c" "k")))] ++ calls 2 3

/-- A submit is accepted, then the cancellation reports success. -/
def lateScript : Script :=
  [.deliver 0 (.submit (.ok (submitOf datedTx "c" "k")))] ++ calls 0 13 ++ [.deliver 1 (.cancel (.ok cancelC))] ++ calls 1 6

end CancelAux

/-- A run with a cancellation between the lookup and the submission of a handler. -/
theorem cancel_stops_later_lookups_run : ∃ p : BridgePool,
    Pool.Reach (bridge (ctx [datedTx])) OneSession (Pool.init (.fresh 1000 none)) p ∧ acceptedSends p.log = [0] ∧
    ∃ k₁ k₂ expiryMs, p.log = k₁ ++ .call 1 ⟨.cacheInsert "c" expiryMs, ()⟩ :: k₂ ∧
      .call 1 ⟨.publish "chain.tx.cancelled" (.cancel cancelledC), ()⟩ ∈ k₂ ∧
      ∀ t tx a, WorksFor p.log t "c" → .call t ⟨.sendTransaction tx, a⟩ ∈ k₂ → .call t ⟨.cacheContains "c", false⟩ ∈ k₁ := by
  have hrun : ((Pool.init (.fresh 1000 none) : BridgePool).exec (bridge (ctx [datedTx])) sessionStep lookupScript).any
      (fun p => decide (acceptedSends p.log = [0]) && p.log.any isReply) = true := by
    decide +kernel
  obtain ⟨p, hp, ht⟩ := Pool.exists_reach_of_exec (fun _ _ _ h => oneSession_of_step h) hrun
  rw [Bool.and_eq_true, List.any_eq_true] at ht
  obtain ⟨hsends, l, hl, hreply⟩ := ht
  rw [eq_of_isReply hreply] at hl
  exact ⟨p, hp, of_decide_eq_true hsends, cancel_stops_later_lookups _ _ _ hp 1 _ cancelledC hl rfl⟩

/-- A cancellation reports success although the submission was already accepted. -/
theorem cancel_after_execution_reports_success : ¬∀ (Γ : Ctx) (clock : Nat) (blockhash : Option (Hash × Nat)) (p : BridgePool),
    Pool.Reach (bridge Γ) OneSession (Pool.init (.fresh clock blockhash)) p → CancelPreventsExecution p.log := by
  intro h
  have hrun : ((Pool.init (.fresh 1000 none) : BridgePool).exec (bridge (ctx [datedTx])) sessionStep lateScript).any
      (fun p => p.log.getLast?.any isReply && (p.log.dropLast.any isAccepted &&
        (p.log.dropLast.any isRecorded && decide ((messageOf 0 p.log).map Delivery.correlationId = some "c")))) = true := by
    decide +kernel
  obtain ⟨p, hp, ht⟩ := Pool.exists_reach_of_exec (fun _ _ _ h => oneSession_of_step h) hrun
  simp only [Bool.and_eq_true, List.any_eq_true, decide_eq_true_eq, Option.any_eq_true] at ht
  obtain ⟨⟨l, hlast, hreply⟩, ⟨l', hmem, haccepted⟩, ⟨l'', hmem', hrecorded⟩, hworks⟩ := ht
  rw [eq_of_isReply hreply] at hlast
  obtain ⟨tx, sig, rfl⟩ := eq_of_isAccepted haccepted
  obtain ⟨expiryMs, rfl⟩ := eq_of_isRecorded hrecorded
  obtain ⟨before, hlog⟩ := List.getLast?_eq_some_iff.mp hlast
  have hbefore : p.log.dropLast = before := by
    rw [hlog, List.dropLast_concat]
  rw [hbefore] at hmem hmem'
  exact ((h _ _ _ p hp) _ _ 1 _ cancelledC expiryMs hlog rfl hmem').1 0 tx sig hworks hmem

end ChainBridge
