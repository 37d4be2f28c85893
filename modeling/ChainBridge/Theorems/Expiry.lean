import ChainBridge.Session
import ChainBridge.History
import ChainBridge.Lib.Erase
import ChainBridge.Lemmas.Sample

/-!
# Correlation ids that do not expire

The cleanup task was handed a copy of `idempotency_cache` when the consumer started, so its ticks drop expired ids from a map that
no handler reads. The ids the handlers record stay in theirs, and their lookup ignores the expiry. So the cache is free of expired
ids after a tick only where there was none to drop.
-/

namespace ChainBridge

open Interleave

/-- The expiry a step records for a correlation id (or for the mark of its cancellation). -/
def recordOf (key : String) : BridgeLabel → Option Nat
  | .call _ ⟨.cacheInsert key' expiryMs, _⟩ => if key' = key then some expiryMs else none
  | _ => none

/-- The expiry last recorded for a correlation id. -/
def lastRecorded (key : String) (log : History) : Option Nat := (log.filterMap (recordOf key)).getLast?

/-- Correlation ids expire in a run. Right after a cleanup tick at a reading, the cache that the handlers consult has no entry that
expires by then; and a lookup of an id that was last recorded, before a tick, with an expiry the tick had reached, does not find it. -/
structure EntriesExpire (steps : List (BridgeLabel × BridgePool)) (log : History) : Prop where
  swept : ∀ nowMs q, (.env (.sweep nowMs), q) ∈ steps →
    ∀ key expiryMs, q.world.idempotencyCache.get? key = some expiryMs → nowMs < expiryMs
  notDropped : ∀ before since after nowMs t key expiryMs found,
    log = before ++ .env (.sweep nowMs) :: since ++ .call t ⟨.cacheContains key, found⟩ :: after →
    lastRecorded key before = some expiryMs → lastRecorded key since = none → expiryMs ≤ nowMs → found = false

/-- Every tick of the cleanup task comes before the expiry that was last recorded for each correlation id. -/
def TicksBeforeExpiry (log : History) : Prop :=
  ∀ before nowMs after, log = before ++ .env (.sweep nowMs) :: after →
    ∀ key expiryMs, lastRecorded key before = some expiryMs → nowMs < expiryMs

namespace ExpiryAux

variable {Γ : Ctx} {w : Session} {p q : BridgePool} {l : BridgeLabel}

theorem lastRecorded_snoc (key : String) (log : History) (l : BridgeLabel) :
    lastRecorded key (log ++ [l]) = (recordOf key l).or (lastRecorded key log) := by
  rw [lastRecorded, List.filterMap_append, List.getLast?_append]
  simp only [List.filterMap_cons, List.filterMap_nil]
  cases recordOf key l <;> rfl

/-- What a call leaves in the cache: what it records, or what was there. -/
theorem cache_serve (s : Session) (t : Nat) (c : Call) (r : c.Answer) (key : String) :
    (s.serve c r).2.idempotencyCache.get? key =
      (recordOf key (.call t ⟨c, (s.serve c r).1⟩)).or (s.idempotencyCache.get? key) := by
  cases c with
  | cacheInsert key' expiryMs =>
    by_cases hk : key' = key
    · subst hk
      simp [Session.serve, recordOf]
    · simp only [Session.serve, recordOf, if_neg hk, Option.none_or]
      exact KeyMap.get?_insert_of_ne _ _ (Ne.symm hk)
  | _ => rfl

/-- No move within a session touches the cache of the handlers. -/
theorem cache_move {s s' : Session} {m : Move} (h : s.move m = some s') (hin : InSession (.env m)) :
    s'.idempotencyCache = s.idempotencyCache := by
  cases m with
  | tick clock =>
    simp only [Session.move, Option.ite_none_right_eq_some, Option.some.injEq] at h
    rw [← h.2]
  | sweep nowMs =>
    simp only [Session.move, Option.ite_none_right_eq_some, Option.some.injEq] at h
    rw [← h.2]
  | refresh hash height =>
    cases h
    rfl
  | reconnect => exact hin.elim

theorem cache_step (h : Pool.Step (bridge Γ) p l q) (hin : InSession l) (key : String) :
    q.world.idempotencyCache.get? key = (recordOf key l).or (p.world.idempotencyCache.get? key) := by
  cases h with
  | deliver t d hn => rfl
  | @call t d c k r ht => exact cache_serve p.world t c r key
  | @env w' m hw =>
    have hsame : w'.idempotencyCache = p.world.idempotencyCache := cache_move hw hin
    show w'.idempotencyCache.get? key = _
    rw [hsame]
    rfl

/-- The cache of a session holds every id with the expiry that was last recorded for it, whatever the ticks. -/
theorem cache_eq_lastRecorded (h : Pool.Reach (bridge Γ) (fun _ _ _ => True) (Pool.init w) p)
    (hw : w.idempotencyCache = .empty) (hin : ∀ l ∈ p.log, InSession l) (key : String) :
    p.world.idempotencyCache.get? key = lastRecorded key p.log := by
  induction h with
  | refl =>
    show w.idempotencyCache.get? key = none
    rw [hw]
    rfl
  | @step p q l hr _ hs ih =>
    have hlog := hs.log_eq
    have hbefore : ∀ l' ∈ p.log, InSession l' := fun l' hl' => hin l' (hlog ▸ List.mem_append_left _ hl')
    have hlast : InSession l := hin l (hlog ▸ List.mem_append_right _ List.mem_cons_self)
    rw [cache_step hs hlast key, hlog, lastRecorded_snoc, ih hbefore]

end ExpiryAux

open ExpiryAux

/-- In the runs of a session, correlation ids expire exactly where no tick comes at or after the expiry of an id recorded before
it: a tick drops nothing from the cache that the handlers consult. -/
theorem entries_expire_iff {Γ : Ctx} {clock : Nat} {blockhash : Option (Hash × Nat)} {steps : List (BridgeLabel × BridgePool)}
    {p : BridgePool} (h : Pool.Run (bridge Γ) (Pool.init (.fresh clock blockhash)) steps p) (hin : ∀ l ∈ p.log, InSession l) :
    EntriesExpire steps p.log ↔ TicksBeforeExpiry p.log := by
  -- the cache right after a tick is the one recorded before it
  have htick : ∀ {p₁ q : BridgePool} {nowMs : Nat} {after : History},
      Pool.Reach (bridge Γ) (fun _ _ _ => True) (Pool.init (.fresh clock blockhash)) p₁ →
      Pool.Step (bridge Γ) p₁ (.env (.sweep nowMs)) q → p.log = p₁.log ++ .env (.sweep nowMs) :: after →
      ∀ key, q.world.idempotencyCache.get? key = lastRecorded key p₁.log := by
    intro p₁ q nowMs after hr hs hlog key
    have hin₁ : ∀ l ∈ p₁.log, InSession l := fun l hl => hin l (hlog ▸ List.mem_append_left _ hl)
    rw [cache_step hs trivial key]
    exact cache_eq_lastRecorded hr rfl hin₁ key
  constructor
  · intro hexpire before nowMs after hlog key expiryMs hrecorded
    obtain ⟨p₁, q, hr, hs, rfl, hmem⟩ := h.mem_of_split hlog
    exact hexpire.swept nowMs q hmem key expiryMs ((htick hr hs hlog key).trans hrecorded)
  · intro hticks
    constructor
    · intro nowMs q hmem key expiryMs hcached
      obtain ⟨p₁, after, hr, hs, hlog⟩ := h.split_of_mem hmem
      exact hticks p₁.log nowMs after hlog key expiryMs ((htick hr hs hlog key).symm.trans hcached)
    · intro before since after nowMs t key expiryMs found hlog hrecorded _ hreached
      rw [List.append_assoc, List.cons_append] at hlog
      have hlater := hticks before nowMs _ hlog key expiryMs hrecorded
      omega

namespace ExpiryAux

open SampleAux

/-- A submit that goes through at reading 1000, which records its correlation id until 61000. -/
def recordScript : Script := .deliver 0 (.submit (.ok (submitOf datedTx "c" "k"))) :: calls 0 13

/-- A step that is no tick and records nothing that expires by a reading. -/
def keepsUntil (nowMs : Nat) : BridgeLabel → Bool
  | .env (.sweep _) => false
  | .call _ ⟨.cacheInsert _ expiryMs, _⟩ => decide (nowMs < expiryMs)
  | l => sessionStep l

theorem sessionStep_of_keepsUntil {nowMs : Nat} {l : BridgeLabel} (h : keepsUntil nowMs l = true) : sessionStep l = true := by
  unfold keepsUntil at h
  split at h
  · cases h
  · rfl
  · exact h

theorem lt_of_lastRecorded {nowMs : Nat} {log : History} (hlog : ∀ l ∈ log, keepsUntil nowMs l = true) {key : String}
    {expiryMs : Nat} (h : lastRecorded key log = some expiryMs) : nowMs < expiryMs := by
  obtain ⟨l, hl, hrec⟩ := List.mem_filterMap.mp (List.mem_of_getLast? h)
  have hkeeps := hlog l hl
  unfold recordOf at hrec
  split at hrec
  · rw [Option.ite_none_right_eq_some] at hrec
    cases hrec.2
    exact of_decide_eq_true hkeeps
  · cases hrec

/-- The submit has gone through, the clock has come to the expiry, and there has been no tick. -/
theorem recorded_at_expiry : ∃ steps p, Pool.Run (bridge (ctx [datedTx])) (Pool.init (.fresh 1000 none)) steps p ∧
    (∀ l ∈ p.log, keepsUntil 60999 l = true) ∧ p.world.idempotencyCache.get? "c" = some 61000 ∧ p.world.clock = 61000 := by
  have hrun : ((Pool.init (.fresh 1000 none) : BridgePool).exec (bridge (ctx [datedTx])) (fun _ _ l => keepsUntil 60999 l)
      (recordScript ++ [.env (.tick 61000)])).any (fun p =>
        decide (p.world.idempotencyCache.get? "c" = some 61000 ∧ p.world.clock = 61000)) = true := by
    decide +kernel
  obtain ⟨p, hp, htest⟩ := Pool.exists_reach_of_exec (C := fun _ _ l => keepsUntil 60999 l = true) (fun _ _ _ h => h) hrun
  obtain ⟨steps, hsteps⟩ := hp.run
  obtain ⟨hcached, hclock⟩ := of_decide_eq_true htest
  refine ⟨steps, p, hsteps, fun l hl => ?_, hcached, hclock⟩
  obtain ⟨-, -, hkeeps⟩ := hp.mem_log hl
  exact hkeeps

/-- A tick of the cleanup task, as a step of a run. -/
theorem run_tick {Γ : Ctx} {steps : List (BridgeLabel × BridgePool)} {p₀ p : BridgePool} (h : Pool.Run (bridge Γ) p₀ steps p) {nowMs : Nat}
    (hnow : nowMs ≤ p.world.clock) : ∃ q : BridgePool, Pool.Run (bridge Γ) p₀ (steps ++ [(.env (.sweep nowMs), q)]) q ∧
      q.log = p.log ++ [.env (.sweep nowMs)] ∧ q.world.idempotencyCache = p.world.idempotencyCache := by
  have hmove : ∃ w', p.world.move (.sweep nowMs) = some w' := by
    rw [Session.move, if_pos hnow]
    exact ⟨_, rfl⟩
  obtain ⟨w', hw⟩ := hmove
  have hstep := Pool.Step.env (S := bridge Γ) (p := p) (Move.sweep nowMs) hw
  exact ⟨_, h.snoc hstep, rfl, cache_move hw trivial⟩

theorem inSession_snoc_tick {log : History} {nowMs n : Nat} (h : ∀ l ∈ log, keepsUntil n l = true) :
    ∀ l ∈ log ++ [.env (.sweep nowMs)], InSession l := by
  intro l hl
  rcases List.mem_append.mp hl with hl | hl
  · exact inSession_of_sessionStep (sessionStep_of_keepsUntil (h l hl))
  · rw [List.mem_singleton.mp hl]
    trivial

end ExpiryAux

/-- Correlation ids do not expire in every run: after a tick at reading 61000, the cache of the handlers still has the id of a
submit that was recorded until 61000. -/
theorem entries_outlive_sweep : ¬∀ (Γ : Ctx) (clock : Nat) (blockhash : Option (Hash × Nat))
    (steps : List (BridgeLabel × BridgePool)) (p : BridgePool),
    Pool.Run (bridge Γ) (Pool.init (.fresh clock blockhash)) steps p → (∀ l ∈ p.log, InSession l) →
      EntriesExpire steps p.log := by
  intro hall
  obtain ⟨steps, p, hrun, hkeeps, hcached, hclock⟩ := recorded_at_expiry
  obtain ⟨q, htick, hlog, hsame⟩ := run_tick hrun (Nat.le_of_eq hclock.symm)
  have hexpire := hall _ _ _ _ _ htick (hlog ▸ inSession_snoc_tick hkeeps)
  have hlt : 61000 < 61000 :=
    hexpire.swept 61000 q (List.mem_append_right _ List.mem_cons_self) "c" 61000 (by rw [hsame, hcached])
  exact Nat.lt_irrefl _ hlt

/-- With the tick one millisecond earlier, nothing that is recorded has expired by then. -/
theorem tick_before_expiry : ∃ steps p, Pool.Run (bridge (SampleAux.ctx [SampleAux.datedTx])) (Pool.init (.fresh 1000 none)) steps p ∧
    p.world.idempotencyCache.get? "c" = some 61000 ∧ EntriesExpire steps p.log := by
  obtain ⟨steps, p, hrun, hkeeps, hcached, hclock⟩ := recorded_at_expiry
  obtain ⟨q, htick, hlog, hsame⟩ := run_tick hrun (show 60999 ≤ p.world.clock by omega)
  have hin : ∀ l ∈ q.log, InSession l := hlog ▸ inSession_snoc_tick hkeeps
  refine ⟨_, q, htick, by rw [hsame, hcached], (entries_expire_iff htick hin).mpr ?_⟩
  intro before nowMs after hsplit key expiryMs hrecorded
  rw [hlog] at hsplit
  rcases Pool.split_snoc hsplit with ⟨-, rfl, hl⟩ | ⟨after', -, hbefore⟩
  · cases hl
    exact lt_of_lastRecorded hkeeps hrecorded
  · have hno := hkeeps (.env (.sweep nowMs)) (by simp [hbefore])
    cases hno

end ChainBridge
