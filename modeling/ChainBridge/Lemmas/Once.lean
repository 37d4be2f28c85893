import ChainBridge.Lemmas.Claims

/-!
# One accepted submission for a key

The run version of `Claims.Once`: as long as the records of a submit key cannot expire at a claim or a sweep, and no claim on it
comes after a restart that follows an accepted submission, at most one submission for the key is accepted.
-/

namespace ChainBridge

open Interleave ProtocolAux ClaimsAux

/-- A submission for the key was accepted in an earlier session. -/
def AcceptedBefore (key : String) (log : History) : Prop :=
  ∃ l₁ l₂, log = l₁ ++ .env .reconnect :: l₂ ∧ acceptedFor (some key) l₁ ≠ []

/-- The steps that keep a key to one submission, while its records are in their window. -/
structure OnceRun (key : String) (window : Session → Prop) (w : Session) (log : History) (l : BridgeLabel) : Prop where
  claim : ∀ t c nowMs a, l = .call t ⟨.claim (some key) c nowMs, a⟩ →
    window w ∧ ¬AcceptedBefore key log ∧ ∀ rec, w.dedupStore.get? key = some rec → nowMs < rec.expiryMs
  sweep : ∀ nowMs, l = .env (.sweep nowMs) → window w →
    ∀ rec, w.dedupStore.get? key = some rec → nowMs < rec.expiryMs

namespace OnceAux

variable {Γ : Ctx} {v u : BridgeView} {l : BridgeLabel} {key : String}

/-- A step that is no accepted submission is not counted. -/
theorem countAfter_eventOf {log : History} (count : Nat) (h : acceptedBy l = none) :
    Claims.countAfter count key (eventOf log l) = count := by
  unfold eventOf
  split
  · rfl
  · cases h
  all_goals rfl

/-! ## Counting the accepted submissions -/

/-- Every accepted submission was made by a handler that was delivered. -/
def Delivered (v : BridgeView) : Prop := ∀ t ∈ acceptedSends v.log, ∃ s, v.phase t = some s

theorem acceptedSends_snoc (log : History) (l : BridgeLabel) :
    acceptedSends (log ++ [l]) = acceptedSends log ++ (acceptedBy l).toList := by
  rw [acceptedSends, List.filterMap_append]
  cases h : acceptedBy l with
  | none => simp [acceptedSends, h]
  | some t => simp [acceptedSends, h]

/-- A delivered handler keeps its key as the history grows. -/
theorem keyOf_snoc (hf : Faithful v) {t : Nat} {s : Progress} (hs : v.phase t = some s) (l : BridgeLabel) :
    keyOf t (v.log ++ [l]) = keyOf t v.log := by
  have ht := hf.message t
  rw [hs] at ht
  obtain ⟨m, hm, -, -⟩ := ht.some
  rw [keyOf, messageOf_append, hm, Option.some_or, keyOf, hm]

theorem phase_of_accepted (h : View.Step (bridge Γ) (protocol Γ) v l u) {t : Nat} (ht : acceptedBy l = some t) :
    ∃ s, v.phase t = some s := by
  unfold acceptedBy at ht
  split at ht
  · cases ht
    obtain ⟨s, -, hs, -⟩ := h.call_inv
    exact ⟨s, hs⟩
  · cases ht

theorem Delivered.step (hv : Delivered v) (h : View.Step (bridge Γ) (protocol Γ) v l u) : Delivered u := by
  intro t ht
  rw [h.log_eq, acceptedSends_snoc, List.mem_append, Option.mem_toList] at ht
  have : ∃ s, v.phase t = some s := ht.elim (hv t) (fun hl => phase_of_accepted h hl)
  obtain ⟨s, hs⟩ := this
  exact h.phase_stays hs

/-- The accepted submissions for a key, counted step by step. -/
theorem length_acceptedFor (hf : Faithful v) (hd : Delivered v) (h : View.Step (bridge Γ) (protocol Γ) v l u) :
    (acceptedFor (some key) u.log).length =
      Claims.countAfter (acceptedFor (some key) v.log).length key (eventOf v.log l) := by
  have hold : (acceptedSends v.log).filter (fun t => decide (keyOf t (v.log ++ [l]) = some key)) =
      acceptedFor (some key) v.log := by
    refine List.filter_congr fun t ht => ?_
    obtain ⟨s, hs⟩ := hd t ht
    rw [keyOf_snoc hf hs]
  rw [h.log_eq, acceptedFor, acceptedSends_snoc, List.filter_append, hold, List.length_append]
  cases hl : acceptedBy l with
  | none =>
    rw [countAfter_eventOf _ hl]
    rfl
  | some t =>
    obtain ⟨s, hs⟩ := phase_of_accepted h hl
    have hk : keyOf t (v.log ++ [l]) = keyOf t v.log := keyOf_snoc hf hs l
    unfold acceptedBy at hl
    split at hl
    · cases hl
      rw [Option.toList_some, List.filter_cons, List.filter_nil, hk]
      simp only [eventOf]
      cases keyOf t v.log with
      | none => rfl
      | some key' =>
        by_cases hkk : key' = key
        · simp [Claims.countAfter, hkk]
        · simp [Claims.countAfter, hkk]
    · cases hl

/-! ## The invariant -/

/-- What every view of such a run satisfies. -/
structure OnceInv (key : String) (window : Session → Prop) (v : BridgeView) : Prop where
  faithful : Faithful v
  delivered : Delivered v
  once : (claimsOf v).Once key (acceptedFor (some key) v.log).length (AcceptedBefore key v.log) (window v.world)

theorem onceInv_init (key : String) (window : Session → Prop) (w : Session) : OnceInv key window (View.init w) where
  faithful := faithful_init w
  delivered := fun t ht => (by cases ht)
  once := ⟨fun t u h h' hh => (by cases hh), fun t h hh => (by cases hh), Nat.zero_le _, fun hc => (hc rfl).elim,
    fun hc => (hc rfl).elim⟩

theorem acceptedBefore_snoc {log : History} (l : BridgeLabel) (h : AcceptedBefore key log) :
    AcceptedBefore key (log ++ [l]) := by
  obtain ⟨l₁, l₂, rfl, hne⟩ := h
  exact ⟨l₁, l₂ ++ [l], by simp, hne⟩

theorem OnceInv.step {window : Session → Prop} (hkey : ¬IsMintKey key)
    (hwindow : ∀ w w' : Session, w.clock ≤ w'.clock → window w' → window w) (hv : OnceInv key window v)
    (hc : OnceRun key window v.world v.log l) (h : View.Step (bridge Γ) (protocol Γ) v l u) : OnceInv key window u := by
  have hs := claims_step hv.faithful h
  have hev : Claims.OnceEvent (claimsOf v) (eventOf v.log l) key (AcceptedBefore key v.log) (window v.world) := by
    constructor
    · intro t nowMs he
      obtain ⟨c, hl⟩ := eventOf_claimed he
      exact hc.claim t c nowMs _ hl
    · intro nowMs he
      exact hc.sweep nowMs (eventOf_swept he)
  refine ⟨hv.faithful.step h, hv.delivered.step h, ?_⟩
  rw [length_acceptedFor hv.faithful hv.delivered h]
  refine hv.once.step hkey hev hs ?_ ?_ (hwindow _ _ hs.clock_le)
  · intro hb
    rw [h.log_eq]
    exact acceptedBefore_snoc l hb
  · intro he hne
    rw [h.log_eq, eventOf_restarted he]
    exact ⟨v.log, [], rfl, fun hnil => hne (by rw [hnil]; rfl)⟩

end OnceAux

open OnceAux

/-- In every such run at most one submission for the key is accepted. -/
theorem acceptedFor_length_le_one {Γ : Ctx} {key : String} (hkey : ¬IsMintKey key) (window : Session → Prop)
    (hwindow : ∀ w w' : Session, w.clock ≤ w'.clock → window w' → window w) {w : Session} {p : BridgePool}
    (hp : Pool.Reach (bridge Γ) (OnceRun key window) (Pool.init w) p) : (acceptedFor (some key) p.log).length ≤ 1 := by
  obtain ⟨phase, hv, -⟩ := hp.invariant (dispatch_wp Γ) (OnceInv key window) (onceInv_init key window w)
    (fun v l u hv hc h => hv.step hkey hwindow hc h)
  exact hv.once.atMost

end ChainBridge
