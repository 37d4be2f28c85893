import ChainBridge.Lemmas.Claims
import ChainBridge.Lemmas.Sample

/-!
# Exclusion and replay

Handlers side by side on one dedup store: at most one is between its claim and its finish on a key, and a completed effect is
replayed until its record expires.
-/

namespace ChainBridge

open Interleave ProtocolAux ClaimsAux SampleAux

/-- The runs in question: one session, in which no handler is still between its claim and its finish when the clock reaches the
claim's expiry, and the expiry of a claim does not wrap. -/
structure DedupRun (w : Session) (log : History) (l : BridgeLabel) : Prop where
  inSession : InSession l
  timely : ∀ t key nowMs, heldClaim (traceOf t log) = some (key, nowMs) → w.clock < nowMs + dedupTtlMs
  noWrap : ∀ t key c nowMs a, l = .call t ⟨.claim key c nowMs, a⟩ → nowMs + dedupTtlMs < 2 ^ 64

namespace DedupAux

variable {Γ : Ctx} {v u : BridgeView} {l : BridgeLabel}

/-! ## The claim a history shows -/

/-- The claim held, as a history shows it. -/
def shown (h : Holding) : String × Nat := (h.key, h.nowMs)

theorem heldClaim_snoc (tr : List CallEvent) (e : CallEvent) : heldClaim (tr ++ [e]) = nextClaim (heldClaim tr) e := by
  simp only [heldClaim, List.foldl_append, List.foldl_cons, List.foldl_nil]

theorem nextClaim_plain (held : Option (String × Nat)) {c : Call} (h : ClaimsAux.Call.isPlain c = true) (a : c.Answer) :
    nextClaim held ⟨c, a⟩ = held := by
  cases c <;> first | rfl | cases h

/-- One call changes the claim a history shows as it changes the progress. -/
theorem nextClaim_next {s : Progress} {c : Call} (ha : (protocol Γ).allow s c) (a : c.Answer) :
    nextClaim (s.holding.map shown) ⟨c, a⟩ = (s.next c a).holding.map shown := by
  by_cases hc : ClaimsAux.Call.isPlain c = true
  · rw [nextClaim_plain _ hc, holding_eq_of_stage (next_key s c a).1 (next_plain s hc a)]
  · cases c with
    | claim key correlationId nowMs =>
      obtain ⟨prior, -, h⟩ | ⟨-, hg, hk, -, -, -⟩ := allow_cases ha
      · exact h.elim
      have hfree : s.holding = none := holding_eq_none (Or.inl hg)
      cases a with
      | some prior =>
        have hnew : (s.next (.claim key correlationId nowMs) (some prior)).holding = none :=
          holding_eq_none (Or.inr (Or.inr ⟨prior, rfl⟩))
        rw [hnew, hfree]
        cases key <;> rfl
      | none =>
        cases key with
        | none => simp only [nextClaim, Progress.next, Progress.holding, ← hk]
        | some key => simp only [nextClaim, Progress.next, Progress.holding, ← hk, Option.map_some, shown]
    | sendTransaction tx =>
      obtain ⟨prior, -, h⟩ | ⟨-, -, nowMs, hst⟩ := allow_cases ha
      · exact h.elim
      cases a with
      | error e => exact congrArg (Option.map shown) (holding_eq_of_stage (s := s) rfl rfl)
      | ok sig =>
        simp only [nextClaim, Progress.next, Progress.holding, hst]
        cases s.key <;> rfl
    | dedupInsert key rec =>
      have hnew : (s.next (.dedupInsert key rec) a).holding = none := holding_eq_none (Or.inr (Or.inl rfl))
      rw [hnew]
      rfl
    | dedupRemove key =>
      have hnew : (s.next (.dedupRemove key) a).holding = none := holding_eq_none (Or.inr (Or.inl rfl))
      rw [hnew]
      rfl
    | _ => exact (hc rfl).elim

/-- The history shows the claims held. -/
def Shown (v : BridgeView) : Prop := ∀ t, heldClaim (traceOf t v.log) = ((claimsOf v).holder t).map shown

theorem Shown.step (hv : Shown v) (hin : InSession l) (h : View.Step (bridge Γ) (protocol Γ) v l u) : Shown u := by
  intro t'
  have ht := hv t'
  cases h with
  | deliver t m hn =>
    show heldClaim (traceOf t' (v.log ++ [.deliver t m])) = _
    rw [Pool.traceOf_snoc_deliver, ht]
    simp only [claimsOf, holder_update_phase]
    by_cases htt : t' = t
    · subst htt
      rw [Function.update_self, hn]
      exact (congrArg (Option.map shown) (start_holding m)).symm
    · rw [Function.update_of_ne htt]
  | @call t s c r hs ha =>
    show heldClaim (traceOf t' (v.log ++ [.call t _])) = _
    simp only [claimsOf, holder_update_phase]
    by_cases htt : t' = t
    · subst htt
      rw [Pool.traceOf_snoc_self, heldClaim_snoc, ht, Function.update_self]
      simp only [claimsOf, hs, Option.bind_some]
      exact nextClaim_next ha _
    · rw [Pool.traceOf_snoc_other (Ne.symm htt), ht, Function.update_of_ne htt]
      rfl
  | @env w m hw =>
    show heldClaim (traceOf t' (v.log ++ [.env m])) = _
    rw [Pool.traceOf_snoc_env, ht]
    cases m with
    | reconnect => exact hin.elim
    | tick clock => rfl
    | sweep nowMs => rfl
    | refresh hash height => rfl

/-! ## The invariant -/

/-- What every view of such a run satisfies. -/
structure DedupInv (v : BridgeView) : Prop where
  faithful : Faithful v
  shows : Shown v
  exclusive : (claimsOf v).Exclusive
  noWrap : ∀ t h, (claimsOf v).holder t = some h → h.nowMs + dedupTtlMs < 2 ^ 64
  recorded : ∀ t key rec a, .call t ⟨.dedupInsert key rec, a⟩ ∈ v.log →
    (claimsOf v).Replayable key rec ∧ ∃ signature slot, rec.state = .done (some signature) slot

theorem dedupInv_init (w : Session) : DedupInv (View.init w) where
  faithful := faithful_init w
  shows := fun _ => rfl
  exclusive := ⟨fun t h hh => (by cases hh), fun t u h h' hh => (by cases hh)⟩
  noWrap := fun t h hh => by cases hh
  recorded := fun t key rec a hm => by cases hm

/-- In such a run no claim held has expired. -/
theorem DedupInv.timely (hv : DedupInv v) (hc : DedupRun v.world v.log l) : (claimsOf v).Timely := by
  intro t h hh
  have hshown : heldClaim (traceOf t v.log) = some (h.key, h.nowMs) := by
    rw [hv.shows t, hh]
    rfl
  show v.world.clock < u64Add h.nowMs dedupTtlMs
  rw [u64Add_eq (hv.noWrap t h hh)]
  exact hc.timely t h.key h.nowMs hshown

theorem DedupInv.step (hv : DedupInv v) (hc : DedupRun v.world v.log l)
    (h : View.Step (bridge Γ) (protocol Γ) v l u) : DedupInv u := by
  have hs := claims_step hv.faithful h
  have ht := hv.timely hc
  have hne : eventOf v.log l ≠ .restarted := by
    intro he
    have hin := hc.inSession
    rw [eventOf_restarted he] at hin
    exact hin
  refine ⟨hv.faithful.step h, hv.shows.step hc.inSession h, hv.exclusive.step ht hs, ?_, ?_⟩
  · intro t h hh
    rcases hs.holder_cases hh with ⟨h₀, hh₀, -, hn⟩ | he
    · rw [← hn]
      exact hv.noWrap t h₀ hh₀
    · obtain ⟨c, hl⟩ := eventOf_claimed he
      exact hc.noWrap t _ c _ _ hl
  · intro t key rec a hm
    rcases h.log_cases hm with hm | rfl
    · obtain ⟨hr, hdone⟩ := hv.recorded t key rec a hm
      exact ⟨hr.step hne hs, hdone⟩
    · refine ⟨hv.exclusive.replayable hs, ?_⟩
      obtain ⟨nowMs, signature, slot, rfl, -⟩ := hs.recorded_eq
      exact ⟨signature, slot, rfl⟩

/-! ## A handler whose claim was answered -/

/-- A handler that was answered stays so, and everything it does from then on is to publish the answer and acknowledge. -/
structure Answered (t : Nat) (prior : TxResultMessage) (past : List CallEvent) (v : BridgeView) : Prop where
  stage : ∃ s, v.phase t = some s ∧ s.stage = .answered prior
  calls : ∃ tr, traceOf t v.log = past ++ tr ∧ ∀ e ∈ tr, allowAnswered prior e.1

theorem Answered.step {t : Nat} {prior : TxResultMessage} {past : List CallEvent} (hv : Answered t prior past v)
    (hin : InSession l) (h : View.Step (bridge Γ) (protocol Γ) v l u) : Answered t prior past u := by
  obtain ⟨⟨s, hs, hst⟩, tr, htr, hall⟩ := hv
  cases h with
  | deliver t' m hn =>
    have htt : t ≠ t' := by
      rintro rfl
      rw [hs] at hn
      cases hn
    refine ⟨⟨s, ?_, hst⟩, tr, ?_, hall⟩
    · simp only [Function.update_of_ne htt, hs]
    · rw [Pool.traceOf_snoc_deliver, htr]
  | @call t' s' c r hs' ha =>
    by_cases htt : t = t'
    · subst htt
      obtain rfl : s = s' := Option.some.inj (hs.symm.trans hs')
      have ha' : allowAnswered prior c := by
        obtain ⟨prior', hst', h⟩ | ⟨ho, -⟩ := allow_cases ha
        · rw [hst] at hst'
          cases hst'
          exact h
        · exact (ho prior hst).elim
      refine ⟨⟨_, Function.update_self .., ?_⟩, tr ++ [⟨c, (v.world.serve c r).1⟩], ?_, ?_⟩
      · cases c <;> first | exact hst | exact ha'.elim
      · rw [Pool.traceOf_snoc_self, htr, List.append_assoc]
        rfl
      · intro e he
        rw [List.mem_append, List.mem_singleton] at he
        rcases he with he | rfl
        · exact hall e he
        · exact ha'
    · refine ⟨⟨s, ?_, hst⟩, tr, ?_, hall⟩
      · simp only [Function.update_of_ne htt, hs]
      · rw [Pool.traceOf_snoc_other (Ne.symm htt), htr]
  | @env w m hw =>
    refine ⟨⟨s, ?_, hst⟩, tr, ?_, hall⟩
    · cases m with
      | reconnect => exact hin.elim
      | tick clock => exact hs
      | sweep nowMs => exact hs
      | refresh hash height => exact hs
    · rw [Pool.traceOf_snoc_env, htr]

theorem answered_of_claim {t : Nat} {key : Option String} {c : String} {nowMs : Nat} {prior : TxResultMessage}
    (h : View.Step (bridge Γ) (protocol Γ) v (.call t ⟨.claim key c nowMs, some prior⟩) u) :
    Answered t prior (traceOf t u.log) u := by
  obtain ⟨s, r, -, -, -, -, hphase⟩ := h.call_inv
  refine ⟨⟨{ s with stage := .answered prior }, ?_, rfl⟩, [], (List.append_nil _).symm, fun e he => ?_⟩
  · rw [hphase, Function.update_self]
    rfl
  · cases he

end DedupAux

open DedupAux

/-- Deduplication is exclusive and replays faithfully. In every such run, at every state: two handlers between their claim and
their finish on one key are one handler; and when a handler claims a key on which an effect is recorded whose record has not
expired, it gets the recorded result under its own correlation id, and all it does from then on is to publish that result and
acknowledge its delivery. -/
theorem dedup_exclusive_and_replays (Γ : Ctx) (clock : Nat) (blockhash : Option (Hash × Nat)) {p : BridgePool}
    (hp : Pool.Reach (bridge Γ) DedupRun (Pool.init (.fresh clock blockhash)) p) :
    (∀ t u key n n', heldClaim (traceOf t p.log) = some (key, n) → heldClaim (traceOf u p.log) = some (key, n') → t = u) ∧
    ∀ t key rec u c nowMs a q, .call t ⟨.dedupInsert key rec, ()⟩ ∈ p.log → p.world.clock < rec.expiryMs →
      Pool.Step (bridge Γ) p (.call u ⟨.claim (some key) c nowMs, a⟩) q →
      ∃ signature slot, rec.state = .done (some signature) slot ∧
        (messageOf u p.log).map Delivery.correlationId = some c ∧
        a = some { correlationId := c, success := true, signature := some signature, error := none, slot,
                   deduplicated := true } ∧
        ∀ r, Pool.Reach (bridge Γ) DedupRun q r → ∃ tr, traceOf u r.log = traceOf u q.log ++ tr ∧
          ∀ e ∈ tr, allowAnswered { correlationId := c, success := true, signature := some signature, error := none, slot,
                                    deduplicated := true } e.1 := by
  obtain ⟨phase, hv, htr⟩ := hp.invariant (dispatch_wp Γ) DedupInv (dedupInv_init _) (fun v l u hv hc h => hv.step hc h)
  constructor
  · intro t u key n n' ht hu
    rw [hv.shows t, Option.map_eq_some_iff] at ht
    rw [hv.shows u, Option.map_eq_some_iff] at hu
    obtain ⟨h, hh, he⟩ := ht
    obtain ⟨h', hh', he'⟩ := hu
    have hk : h.key = key := congrArg Prod.fst he
    have hk' : h'.key = key := congrArg Prod.fst he'
    exact hv.exclusive.unique t u h h' hh hh' (hk.trans hk'.symm)
  · intro t key rec u c nowMs a q hrec hlive hstep
    obtain ⟨hreplay, signature, slot, hdone⟩ := hv.recorded t key rec () hrec
    obtain ⟨phase', hview, htr'⟩ := hstep.view (dispatch_wp Γ) htr
    obtain ⟨s, r₀, hs, hallow, ha, -, hphase⟩ := hview.call_inv
    obtain ⟨prior, -, h⟩ | ⟨-, -, hk, hc, hn, -⟩ := allow_cases hallow
    · exact h.elim
    have hnow : nowMs ≤ p.world.clock := hn ▸ hv.faithful.reading u s hs
    have hstored : p.world.dedupStore.get? key = some rec := (hreplay hlive).1
    have hanswer : a = some (replayOf rec.state c) := by
      rw [ha]
      exact congrArg Prod.fst (claimOrReplay_live c hstored (Nat.lt_of_le_of_lt hnow hlive))
    rw [hdone] at hanswer
    refine ⟨signature, slot, hdone, ?_, hanswer, fun r hr => ?_⟩
    · obtain ⟨m, hm, -, hcm⟩ := (hs ▸ hv.faithful.message u : MessageMatches (some s) (messageOf u p.log)).some
      rw [hm, Option.map_some, ← hcm, ← hc]
    · subst hanswer
      obtain ⟨phase'', hfinal, -⟩ := hr.invariant_from (dispatch_wp Γ) htr' _ (answered_of_claim hview)
        (fun v l u hv hc h => hv.step hc.inSession h)
      exact hfinal.calls

namespace DedupAux

/-- A test that a step early on the clock passes only in a run of `DedupRun`. -/
def earlyStep (w : Session) (_ : History) : BridgeLabel → Bool
  | .env .reconnect => false
  | .call _ ⟨.claim _ _ nowMs, _⟩ => decide (w.clock < dedupTtlMs ∧ nowMs + dedupTtlMs < 2 ^ 64)
  | _ => decide (w.clock < dedupTtlMs)

theorem dedupRun_of_early {w : Session} {log : History} {l : BridgeLabel} (h : earlyStep w log l = true) :
    DedupRun w log l := by
  have hclock : w.clock < dedupTtlMs := by
    unfold earlyStep at h
    split at h
    · cases h
    · exact (of_decide_eq_true h).1
    · exact of_decide_eq_true h
  refine ⟨?_, fun t key nowMs _ => Nat.lt_of_lt_of_le hclock (Nat.le_add_left _ _), ?_⟩
  · unfold InSession
    split
    · cases h
    · trivial
  · rintro t key c nowMs a rfl
    exact (of_decide_eq_true h).2

/-- Two handlers with one idempotency key: the first runs to its end, then the second. -/
def replayScript : Script :=
  [.deliver 0 (.submit (.ok (submitOf datedTx "c1" "k")))] ++ calls 0 13 ++
    [.deliver 1 (.submit (.ok (submitOf datedTx "c2" "k")))] ++ calls 1 6

/-- Whether the second handler was answered with the result of the first. -/
def replayed : BridgeLabel → Bool
  | .call 1 ⟨.claim (some "submit:k") "c2" _, some r⟩ => r.success && r.deduplicated && r.correlationId == "c2"
  | _ => false

end DedupAux

/-- A run in which an effect is recorded and replayed. -/
theorem dedup_replay_run : ∃ p : BridgePool,
    Pool.Reach (bridge (ctx [datedTx])) DedupRun (Pool.init (.fresh 1000 none)) p ∧ p.log.any replayed = true ∧
    ∀ t u key n n', heldClaim (traceOf t p.log) = some (key, n) → heldClaim (traceOf u p.log) = some (key, n') → t = u := by
  have hrun : ((Pool.init (.fresh 1000 none) : BridgePool).exec (bridge (ctx [datedTx])) earlyStep replayScript).any
      (fun p => p.log.any replayed) = true := by
    decide +kernel
  obtain ⟨p, hp, ht⟩ := Pool.exists_reach_of_exec (fun _ _ _ h => dedupRun_of_early h) hrun
  exact ⟨p, hp, ht, (dedup_exclusive_and_replays _ _ _ hp).1⟩

end ChainBridge
