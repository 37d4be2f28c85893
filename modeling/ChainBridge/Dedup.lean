import ChainBridge.Messages
import ChainBridge.Lib.KeyMap

/-!
# Effect-level deduplication

`nats_consumer/dedup.rs` and `NatsConsumer::claim_or_replay`. The store maps a key to a claim in flight or to the result of a
completed effect, each with an expiry. A handler claims its key before it signs, and afterwards records the effect or releases
the claim.
-/

namespace ChainBridge

open Interleave

/-- `DedupState`: claimed by an attempt that is signing, or completed with the result to replay. -/
inductive DedupState where
  | inFlight
  | done (signature : Option String) (slot : Nat)
  deriving DecidableEq

/-- `DedupRecord`: a state and the clock reading at which it expires. -/
structure DedupRecord where
  expiryMs : Nat
  state : DedupState
  deriving DecidableEq

/-- The effect-level store, shared by the submit and the mint handlers. -/
abbrev DedupStore : Type := KeyMap String DedupRecord

/-- How long a claim and a recorded effect live. -/
def dedupTtlMs : Nat := 120000

/-- The effects that share the store. -/
inductive Effect where
  | submit | mint
  deriving DecidableEq

/-- The prefix that keeps the keys of the two effects apart. -/
def Effect.namespaceOf : Effect → String
  | .submit => "submit:"
  | .mint => "mint:"

/-- The key of an effect: the idempotency key in its namespace, none for an empty one (no deduplication). -/
def dedupKey (e : Effect) (idempotencyKey : String) : Option String :=
  if idempotencyKey = "" then none else some (e.namespaceOf ++ idempotencyKey)

/-- The answer to a re-send that meets an unexpired record: a completed effect is replayed, a claim in flight is a collision. -/
def replayOf (state : DedupState) (correlationId : String) : TxResultMessage :=
  match state with
  | .done signature slot =>
    { correlationId, success := true, signature, error := none, slot, deduplicated := true }
  | .inFlight =>
    { correlationId, success := false, signature := none,
      error := some "Submit already in flight for this idempotency_key", slot := 0, deduplicated := true }

/-- The claim a handler leaves at a clock reading. -/
def claimAt (nowMs : Nat) : DedupRecord := { expiryMs := u64Add nowMs dedupTtlMs, state := .inFlight }

/-- The record of a completed effect; its expiry counts from the reading of the claim. -/
def doneAt (nowMs : Nat) (signature : String) (slot : Nat) : DedupRecord :=
  { expiryMs := u64Add nowMs dedupTtlMs, state := .done (some signature) slot }

/-- A recorded effect expires when its claim would have. -/
theorem doneAt_expiryMs (nowMs : Nat) (signature : String) (slot : Nat) :
    (doneAt nowMs signature slot).expiryMs = (claimAt nowMs).expiryMs := rfl

/-- `claim_or_replay`: with no key, proceed and leave the store; on an unexpired record, answer from it; otherwise claim the key
and proceed. -/
def claimOrReplay (store : DedupStore) (key : Option String) (correlationId : String) (nowMs : Nat) :
    Option TxResultMessage × DedupStore :=
  match key with
  | none => (none, store)
  | some key =>
    match store.get? key with
    | some rec =>
      if rec.expiryMs > nowMs then (some (replayOf rec.state correlationId), store)
      else (none, store.insert key (claimAt nowMs))
    | none => (none, store.insert key (claimAt nowMs))

/-- The sweep of the background task: keep the records that expire after the reading. -/
def sweepDedup (store : DedupStore) (nowMs : Nat) : DedupStore := store.retain fun _ rec => decide (rec.expiryMs > nowMs)

/-- The mint handler republishes the answer of `claim_or_replay` as a mint result. -/
def mintReplay (prior : TxResultMessage) : MintEnergyResultMessage :=
  { correlationId := prior.correlationId, success := prior.success, signature := prior.signature, error := prior.error,
    slot := prior.slot, deduplicated := true }

/-! ## What a claim does -/

/-- A claim that meets an unexpired record is answered from it and leaves the store. -/
theorem claimOrReplay_live {store : DedupStore} {key : String} {rec : DedupRecord} (c : String) {now : Nat}
    (h : store.get? key = some rec) (hlive : now < rec.expiryMs) :
    claimOrReplay store (some key) c now = (some (replayOf rec.state c), store) := by
  simp only [claimOrReplay, h, if_pos hlive]

/-- A claim proceeds exactly when no unexpired record is stored under its key, and then it owns the key. -/
theorem claimOrReplay_proceeds {store : DedupStore} {key c : String} {now : Nat}
    (h : (claimOrReplay store (some key) c now).1 = none) :
    (∀ rec, store.get? key = some rec → rec.expiryMs ≤ now) ∧
      (claimOrReplay store (some key) c now).2 = store.insert key (claimAt now) := by
  simp only [claimOrReplay] at h ⊢
  cases hg : store.get? key with
  | none => simp
  | some rec =>
    rw [hg] at h
    by_cases hlive : rec.expiryMs > now
    · simp [hlive] at h
    · simp only [Option.some.injEq, forall_eq', if_neg hlive, and_true]
      omega

/-- A claim is answered from the unexpired record under its key, and leaves the store as it is. -/
theorem claimOrReplay_replays {store : DedupStore} {key : Option String} {c : String} {now : Nat} {r : TxResultMessage}
    (h : (claimOrReplay store key c now).1 = some r) :
    ∃ k rec, key = some k ∧ store.get? k = some rec ∧ now < rec.expiryMs ∧ r = replayOf rec.state c ∧
      (claimOrReplay store key c now).2 = store := by
  cases key with
  | none => cases h
  | some key =>
    simp only [claimOrReplay] at h ⊢
    cases hg : store.get? key with
    | none => simp [hg] at h
    | some rec =>
      rw [hg] at h
      by_cases hlive : rec.expiryMs > now
      · simp only [if_pos hlive, Option.some.injEq] at h ⊢
        exact ⟨key, rec, rfl, hg, hlive, h.symm, trivial⟩
      · simp [hlive] at h

/-- A claim that is answered leaves the store as it is. -/
theorem claimOrReplay_answered {store : DedupStore} {key : Option String} {c : String} {now : Nat} {r : TxResultMessage}
    (h : (claimOrReplay store key c now).1 = some r) : (claimOrReplay store key c now).2 = store := by
  obtain ⟨k, rec, -, -, -, -, hstore⟩ := claimOrReplay_replays h
  exact hstore

/-- A claim changes no other key. -/
theorem get?_claimOrReplay {store : DedupStore} {key : Option String} {k c : String} {now : Nat} (h : key ≠ some k) :
    (claimOrReplay store key c now).2.get? k = store.get? k := by
  cases key with
  | none => rfl
  | some key =>
    have hk : k ≠ key := fun hk => h (congrArg some hk.symm)
    cases ho : (claimOrReplay store (some key) c now).1 with
    | some r => rw [claimOrReplay_answered ho]
    | none => rw [(claimOrReplay_proceeds ho).2, KeyMap.get?_insert_of_ne _ _ hk]

/-- The answer to a claim carries the correlation id of the claim. -/
theorem replayed_correlationId {store : DedupStore} {key : Option String} {c : String} {now : Nat} {r : TxResultMessage}
    (h : (claimOrReplay store key c now).1 = some r) : r.correlationId = c := by
  obtain ⟨k, rec, -, -, -, rfl, -⟩ := claimOrReplay_replays h
  cases rec.state <;> rfl

/-! ## Namespaced keys -/

/-- The key of an effect names the effect and the idempotency key. -/
theorem dedupKey_inj {e e' : Effect} {a b k : String} (h : dedupKey e a = some k) (h' : dedupKey e' b = some k) :
    e = e' ∧ a = b := by
  unfold dedupKey at h h'
  split at h <;> split at h'
  · cases h
  · cases h
  · cases h'
  · have hk : e.namespaceOf ++ a = e'.namespaceOf ++ b := by
      rw [Option.some.inj h, Option.some.inj h']
    cases e <;> cases e'
    · exact ⟨rfl, (String.append_right_inj _).mp hk⟩
    · have := congrArg String.toList hk
      simp [Effect.namespaceOf] at this
    · have := congrArg String.toList hk
      simp [Effect.namespaceOf] at this
    · exact ⟨rfl, (String.append_right_inj _).mp hk⟩

theorem dedupKey_eq_none_iff (e : Effect) (a : String) : dedupKey e a = none ↔ a = "" := by
  unfold dedupKey
  split <;> simp_all

end ChainBridge
