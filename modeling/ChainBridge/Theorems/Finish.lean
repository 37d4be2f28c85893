import ChainBridge.Lemmas.Claims
import ChainBridge.Lemmas.Sample
import Mathlib.Data.Nat.Init

/-!
# A handler finishes its own claim

A claim is a lease of 120 seconds, and nothing bounds the time a handler takes between its claim and its finish. The finish does not
look at the record it replaces: a handler that finishes within its lease, or gives up before another handler has claimed the key,
finds its own record; a handler that finishes later records an effect that has expired already, over whatever record is there.
-/

namespace ChainBridge

open Interleave

/-- A handler finishes a key: it records its effect there, or removes the key. -/
def Finishes (t : Nat) (key : String) (l : BridgeLabel) : Prop :=
  (∃ rec, l = .call t ⟨.dedupInsert key rec, ()⟩) ∨ l = .call t ⟨.dedupRemove key, ()⟩

/-- A handler that finishes meets no record but its own, and an effect is recorded before it expires. -/
structure FinishesOwn (w : Session) (log : History) (l : BridgeLabel) : Prop where
  own : ∀ t key old, Finishes t key l → w.dedupStore.get? key = some old → lastWrite key log = some (t, old)
  unexpired : ∀ t key rec, l = .call t ⟨.dedupInsert key rec, ()⟩ → w.clock < rec.expiryMs

/-- The lease of a handler's claim of a key runs. -/
def Leased (w : Session) (log : History) (t : Nat) (key : String) : Prop :=
  ∀ c nowMs, .call t ⟨.claim (some key) c nowMs, none⟩ ∈ log → w.clock < (claimAt nowMs).expiryMs

/-- A handler records its effect while its lease runs, and gives up while it runs or before another claim of the key went
through. -/
def FinishesInLease (w : Session) (log : History) : BridgeLabel → Prop
  | .call t ⟨.dedupInsert key _, _⟩ => Leased w log t key
  | .call t ⟨.dedupRemove key, _⟩ => Leased w log t key ∨ lastClaimant key log = some t
  | _ => True

namespace FinishAux

open ProtocolAux ClaimsAux

variable {Γ : Ctx} {v u : BridgeView} {l : BridgeLabel}

/-- What every view of such a run satisfies: the claims are owned by the writers in the history, which shows every claim held. -/
structure FinishInv (v : BridgeView) : Prop where
  faithful : Faithful v
  owned : (claimsOf v).Owned (lastWrite · v.log) (lastClaimant · v.log)
  claimed : ∀ t h, (claimsOf v).holder t = some h → ∃ c, .call t ⟨.claim (some h.key) c h.nowMs, none⟩ ∈ v.log

theorem finishInv_init (w : Session) (hw : w.dedupStore = .empty) : FinishInv (View.init w) where
  faithful := faithful_init w
  owned :=
    { attributed := fun key rec hrec => by
        have hstore : w.dedupStore.get? key = some rec := hrec
        rw [hw] at hstore
        cases hstore
      leased := fun t h hh => by cases hh
      last := fun t h hh => by cases hh }
  claimed := fun t h hh => by cases hh

/-- The finishes of such a run are in their leases. -/
theorem FinishInv.inLease (hv : FinishInv v) (hc : FinishesInLease v.world v.log l) :
    (claimsOf v).InLease (lastClaimant · v.log) (eventOf v.log l) := by
  have hleased : ∀ t h, (claimsOf v).holder t = some h → Leased v.world v.log t h.key →
      (claimsOf v).clock < (claimAt h.nowMs).expiryMs := by
    intro t h hh hl
    obtain ⟨c, hmem⟩ := hv.claimed t h hh
    exact hl c h.nowMs hmem
  constructor
  · intro t rec h hh he
    rw [eventOf_recorded he] at hc
    exact hleased t h hh hc
  · intro t h hh he
    rw [eventOf_released he] at hc
    exact hc.imp_left (hleased t h hh)

theorem FinishInv.step (hv : FinishInv v) (hc : FinishesInLease v.world v.log l)
    (h : View.Step (bridge Γ) (protocol Γ) v l u) : FinishInv u := by
  have hs := claims_step hv.faithful h
  have howned := hv.owned.step (hv.inLease hc) hs
  simp only [write_eventOf, claimant_eventOf] at howned
  refine ⟨hv.faithful.step h, ?_, fun t held hh => ?_⟩
  · rw [h.log_eq]
    simp only [lastWrite_snoc, lastClaimant_snoc]
    exact howned
  · rcases hs.holder_cases hh with ⟨h₀, hh₀, hk, hn⟩ | he
    · obtain ⟨c, hmem⟩ := hv.claimed t h₀ hh₀
      exact ⟨c, hk ▸ hn ▸ h.mem_log hmem⟩
    · obtain ⟨c, hl⟩ := eventOf_claimed he
      exact ⟨c, hl ▸ h.label_mem⟩

end FinishAux

open FinishAux ClaimsAux in
/-- In every run whose handlers record their effects within their leases, and give up within them or before another claim of the
key went through, a handler that finishes meets no record but its own, and no effect has expired when it is recorded. -/
theorem handlers_finish_own_claims {Γ : Ctx} {clock : Nat} {blockhash : Option (Hash × Nat)} {p q : BridgePool} {l : BridgeLabel}
    (h : Pool.Reach (bridge Γ) FinishesInLease (Pool.init (.fresh clock blockhash)) p)
    (hc : FinishesInLease p.world p.log l) (hs : Pool.Step (bridge Γ) p l q) : FinishesOwn p.world p.log l := by
  obtain ⟨phase, hv, htr⟩ := h.invariant (dispatch_wp Γ) FinishInv (finishInv_init _ rfl) (fun v l u hv hc h => hv.step hc h)
  obtain ⟨phase', hview, -⟩ := hs.view (dispatch_wp Γ) htr
  have hstep := claims_step hv.faithful hview
  have hlease := hv.inLease hc
  -- what finishes is a claim held, and the history names its last writer
  constructor
  · rintro t key old (⟨rec, rfl⟩ | rfl) hold
    · obtain ⟨nowMs, signature, slot, -, hh⟩ := Claims.Step.recorded_eq hstep
      exact hv.owned.stored_eq hh (Or.inl (hlease.recorded t rec _ hh rfl)) hold
    · obtain ⟨nowMs, accepted, hh⟩ := Claims.Step.released_eq hstep
      exact hv.owned.stored_eq hh (hlease.released t _ hh rfl) hold
  · rintro t key rec rfl
    obtain ⟨nowMs, signature, slot, rfl, hh⟩ := Claims.Step.recorded_eq hstep
    rw [doneAt_expiryMs]
    exact hlease.recorded t (doneAt nowMs signature slot) ⟨key, nowMs, true⟩ hh rfl

namespace FinishAux

open SampleAux

/-- A submit up to the record of its effect. -/
def promptScript : Script := [.deliver 0 (.submit (.ok (submitOf datedTx "c1" "k")))] ++ calls 0 10

/-- The same with 120 seconds behind its claim, in which a second submit with the key made its own claim. -/
def slowScript : Script :=
  [.deliver 0 (.submit (.ok (submitOf datedTx "c1" "k")))] ++ calls 0 4 ++
    [.env (.tick 121000), .deliver 1 (.submit (.ok { submitOf datedTx "c2" "k" with createdAtMs := 121000 }))] ++ calls 1 4 ++
    calls 0 6

/-- Whether the next call of the first handler records its effect. -/
def recordsNext (Γ : Ctx) (p : BridgePool) : Bool :=
  (p.act (bridge Γ) (.call 0 answer)).any fun out => match out.1 with
    | .call 0 ⟨.dedupInsert "submit:k" _, _⟩ => true
    | _ => false

theorem step_of_recordsNext {Γ : Ctx} {p : BridgePool} (h : recordsNext Γ p = true) :
    ∃ rec q, Pool.Step (bridge Γ) p (.call 0 ⟨.dedupInsert "submit:k" rec, ()⟩) q := by
  obtain ⟨out, hact, hout⟩ := (Option.any_eq_true _ _).mp h
  obtain ⟨l, q⟩ := out
  have hstep := Pool.step_of_act hact
  simp only at hout
  split at hout
  · exact ⟨_, q, hstep⟩
  · cases hout

/-- A test for steps that finish nothing. -/
def promptStep (_ : Session) (_ : History) : BridgeLabel → Bool
  | .call _ ⟨.dedupInsert _ _, _⟩ => false
  | .call _ ⟨.dedupRemove _, _⟩ => false
  | _ => true

theorem inLease_of_promptStep {w : Session} {log : History} {l : BridgeLabel} (h : promptStep w log l = true) :
    FinishesInLease w log l := by
  unfold FinishesInLease
  split
  · cases h
  · cases h
  · trivial

/-- Whether a label is no claim, or one at the reading 1000. -/
def isPrompt : BridgeLabel → Bool
  | .call _ ⟨.claim _ _ nowMs, _⟩ => decide (nowMs = 1000)
  | _ => true

theorem leased_of_prompt {w : Session} {log : History} {t : Nat} {key : String} (hclock : w.clock = 1000)
    (h : log.all isPrompt = true) : Leased w log t key := by
  intro c nowMs hmem
  have hreading : nowMs = 1000 := of_decide_eq_true (List.all_eq_true.mp h _ hmem)
  rw [hclock, hreading]
  decide

end FinishAux

open FinishAux SampleAux in
/-- A submit that records its effect at once meets its own claim. -/
theorem prompt_submit_finishes_own : ∃ (p q : BridgePool) (rec : DedupRecord),
    Pool.Reach (bridge (ctx [datedTx])) FinishesInLease (Pool.init (.fresh 1000 none)) p ∧
    Pool.Step (bridge (ctx [datedTx])) p (.call 0 ⟨.dedupInsert "submit:k" rec, ()⟩) q ∧
    p.world.dedupStore.get? "submit:k" = some (claimAt 1000) ∧
    FinishesOwn p.world p.log (.call 0 ⟨.dedupInsert "submit:k" rec, ()⟩) := by
  have hrun : ((Pool.init (.fresh 1000 none) : BridgePool).exec (bridge (ctx [datedTx])) promptStep promptScript).any
      (fun p => recordsNext (ctx [datedTx]) p && (decide (p.world.dedupStore.get? "submit:k" = some (claimAt 1000)) &&
        (decide (p.world.clock = 1000) && p.log.all isPrompt))) = true := by
    decide +kernel
  obtain ⟨p, hp, htest⟩ := Pool.exists_reach_of_exec (fun _ _ _ h => inLease_of_promptStep h) hrun
  simp only [Bool.and_eq_true, decide_eq_true_eq] at htest
  obtain ⟨hnext, hstored, hclock, hprompt⟩ := htest
  obtain ⟨rec, q, hstep⟩ := step_of_recordsNext hnext
  exact ⟨p, q, rec, hp, hstep, hstored, handlers_finish_own_claims hp (leased_of_prompt hclock hprompt) hstep⟩

open FinishAux SampleAux in
/-- A submit that took longer than its lease records an effect that has expired over the claim of the handler that took over. -/
theorem slow_submit_overwrites_claim : ¬∀ (Γ : Ctx) (clock : Nat) (blockhash : Option (Hash × Nat)) (p q : BridgePool)
    (l : BridgeLabel), Pool.Reach (bridge Γ) (fun _ _ _ => True) (Pool.init (.fresh clock blockhash)) p →
    Pool.Step (bridge Γ) p l q → FinishesOwn p.world p.log l := by
  intro h
  have hrun : ((Pool.init (.fresh 1000 none) : BridgePool).exec (bridge (ctx [datedTx])) (fun _ _ _ => true) slowScript).any
      (fun p => recordsNext (ctx [datedTx]) p && (decide (p.world.dedupStore.get? "submit:k" = some (claimAt 121000)) &&
        decide (lastWrite "submit:k" p.log = some (1, claimAt 121000)))) = true := by
    decide +kernel
  obtain ⟨p, hp, htest⟩ := Pool.exists_reach_of_exec (C := fun _ _ _ => True) (fun _ _ _ _ => trivial) hrun
  simp only [Bool.and_eq_true, decide_eq_true_eq] at htest
  obtain ⟨hnext, hstored, hwrote⟩ := htest
  obtain ⟨rec, q, hstep⟩ := step_of_recordsNext hnext
  have hown := (h _ _ _ p q _ hp hstep).own 0 "submit:k" _ (Or.inl ⟨rec, rfl⟩) hstored
  rw [hwrote] at hown
  cases hown

end ChainBridge
