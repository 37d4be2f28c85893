import ChainBridge.History
import ChainBridge.Lemmas.Protocol

/-!
# The bridge keeps the claim protocol

Every step of the bridge, seen through the progress of its handlers, is the step of the claim protocol that `eventOf` names.
-/

namespace ChainBridge

open Interleave ProtocolAux

namespace ClaimsAux

variable {Γ : Ctx} {v u : BridgeView} {l : BridgeLabel}

/-! ## What every view of a run satisfies -/

/-- A handler's progress agrees with its delivery: same key, same correlation id. -/
def MessageMatches : Option Progress → Option Delivery → Prop
  | none, none => True
  | some s, some m => s.key = m.key ∧ s.correlationId = m.correlationId
  | _, _ => False

/-- No reading is ahead of the clock, and every progress agrees with the delivery in the history. -/
structure Faithful (v : BridgeView) : Prop where
  reading : ∀ t s, v.phase t = some s → s.reading ≤ v.world.clock
  message : ∀ t, MessageMatches (v.phase t) (messageOf t v.log)

theorem messageOf_append (t : Nat) (log log' : History) :
    messageOf t (log ++ log') = (messageOf t log).or (messageOf t log') := by
  simp only [messageOf, List.findSome?_append]

theorem messageOf_snoc_call (t t' : Nat) (e : CallEvent) (log : History) :
    messageOf t (log ++ [.call t' e]) = messageOf t log := by
  rw [messageOf_append]
  exact Option.or_none

theorem messageOf_snoc_env (t : Nat) (m : Move) (log : History) : messageOf t (log ++ [.env m]) = messageOf t log := by
  rw [messageOf_append]
  exact Option.or_none

theorem messageOf_snoc_deliver (t t' : Nat) (m : Delivery) (log : History) :
    messageOf t (log ++ [.deliver t' m]) = (messageOf t log).or (if t' = t then some m else none) := by
  rw [messageOf_append]
  congr 1
  simp only [messageOf, List.findSome?_cons, List.findSome?_nil]
  split <;> simp_all

/-- The delivery of a handler is in the history. -/
theorem mem_of_messageOf {t : Nat} {m : Delivery} {log : History} (h : messageOf t log = some m) : .deliver t m ∈ log := by
  obtain ⟨l, hl, hm⟩ := List.exists_of_findSome?_eq_some h
  split at hm
  · split at hm
    · rename_i htt
      cases hm
      rw [← htt]
      exact hl
    · cases hm
  · cases hm

/-- A call changes neither the key nor the correlation id. -/
theorem next_key (s : Progress) (c : Call) (a : c.Answer) :
    (s.next c a).key = s.key ∧ (s.next c a).correlationId = s.correlationId := by
  cases c with
  | claim key correlationId nowMs => cases a <;> exact ⟨rfl, rfl⟩
  | sendTransaction tx =>
    rcases a with e | sig
    · exact ⟨rfl, rfl⟩
    · simp only [Progress.next]
      split <;> exact ⟨rfl, rfl⟩
  | _ => exact ⟨rfl, rfl⟩

/-- A reading after a call is the old one, or the clock's. -/
theorem next_reading {s : Progress} {w : Session} (h : s.reading ≤ w.clock) (c : Call) (r : c.Answer) :
    (s.next c (w.serve c r).1).reading ≤ w.clock := by
  cases c with
  | now => exact Nat.le_refl _
  | claim key correlationId nowMs =>
    simp only [Session.serve]
    cases (claimOrReplay w.dedupStore key correlationId nowMs).1 <;> exact h
  | sendTransaction tx =>
    rcases r with e | sig
    · exact h
    · simp only [Session.serve, Progress.next]
      split <;> exact h
  | _ => exact h

theorem faithful_init (w : Session) : Faithful (View.init w) where
  reading := fun t s h => by cases h
  message := fun _ => trivial

theorem MessageMatches.some {s : Progress} {o : Option Delivery} (h : MessageMatches (some s) o) :
    ∃ m, o = some m ∧ s.key = m.key ∧ s.correlationId = m.correlationId := by
  cases o with
  | none => exact h.elim
  | some m => exact ⟨m, rfl, h⟩

theorem MessageMatches.none {o : Option Delivery} (h : MessageMatches none o) : o = none := by
  cases o with
  | none => rfl
  | some m => exact h.elim

theorem clock_le_step (h : View.Step (bridge Γ) (protocol Γ) v l u) : v.world.clock ≤ u.world.clock := by
  cases h with
  | deliver t m hn => exact Nat.le_refl _
  | @call t s i r hs ha => exact Nat.le_of_eq (clock_serve v.world i r).symm
  | @env w e hw => exact clock_le_move hw

theorem Faithful.reading_step (hf : Faithful v) (h : View.Step (bridge Γ) (protocol Γ) v l u) {t : Nat} {s' : Progress}
    (hs' : u.phase t = some s') : s'.reading ≤ u.world.clock := by
  have hclock := clock_le_step h
  rcases h.phase_cases hs' with hs | ⟨m, -, rfl⟩ | ⟨s, i, a, rfl, hs, -, rfl⟩ | ⟨s, e, -, -, hs, rfl⟩
  · exact Nat.le_trans (hf.reading t s' hs) hclock
  · exact Nat.zero_le _
  · obtain ⟨-, r, -, -, ha, -, -⟩ := h.call_inv
    rw [ha]
    exact Nat.le_trans (next_reading (hf.reading t s hs) i r) hclock
  · exact Nat.le_trans (hf.reading t s hs) hclock

theorem Faithful.message_step (hf : Faithful v) (h : View.Step (bridge Γ) (protocol Γ) v l u) (t' : Nat) :
    MessageMatches (u.phase t') (messageOf t' u.log) := by
  have ht := hf.message t'
  cases h with
  | deliver t m hn =>
    simp only [messageOf_snoc_deliver]
    by_cases htt : t' = t
    · subst htt
      rw [hn] at ht
      rw [Function.update_self, ht.none, Option.none_or, if_pos rfl]
      exact ⟨rfl, rfl⟩
    · rw [Function.update_of_ne htt, if_neg (Ne.symm htt), Option.or_none]
      exact ht
  | @call t s i r hs ha =>
    simp only [messageOf_snoc_call]
    by_cases htt : t' = t
    · subst htt
      rw [hs] at ht
      obtain ⟨m, hm, hk, hc⟩ := ht.some
      rw [Function.update_self, hm]
      have hn := next_key s i (v.world.serve i r).1
      exact ⟨hn.1.trans hk, hn.2.trans hc⟩
    · rw [Function.update_of_ne htt]
      exact ht
  | @env w e hw =>
    simp only [messageOf_snoc_env, View.cutPhases]
    split
    · -- a handler that is dropped keeps its key and its correlation id
      simp only
      cases hp : v.phase t' with
      | none =>
        rw [hp] at ht
        exact ht
      | some s =>
        rw [hp] at ht
        obtain ⟨m, hm, hkey⟩ := ht.some
        rw [hm]
        exact hkey
    · exact ht

theorem Faithful.step (hf : Faithful v) (h : View.Step (bridge Γ) (protocol Γ) v l u) : Faithful u where
  reading := fun _ _ hs' => hf.reading_step h hs'
  message := hf.message_step h

/-- The key of a handler in the history is the one of its progress. -/
theorem Faithful.keyOf_eq (hf : Faithful v) {t : Nat} {s : Progress} (hs : v.phase t = some s) :
    keyOf t v.log = s.key := by
  have ht := hf.message t
  rw [hs] at ht
  obtain ⟨m, hm, hk, -⟩ := ht.some
  rw [keyOf, hm, hk]
  rfl

/-! ## What the event of a step says about its label -/

/-- The step behind an event. A quiet step neither writes a record nor lets a claim through. -/
inductive EventFrom (log : History) : BridgeLabel → ClaimEvent → Prop where
  | claimed (t : Nat) (key c : String) (nowMs : Nat) :
      EventFrom log (.call t ⟨.claim (some key) c nowMs, none⟩) (.claimed t key nowMs)
  | accepted {t : Nat} {key : String} (tx : Transaction) (sig : Signature) : keyOf t log = some key →
      EventFrom log (.call t ⟨.sendTransaction tx, .ok sig⟩) (.accepted t key)
  | recorded (t : Nat) (key : String) (rec : DedupRecord) :
      EventFrom log (.call t ⟨.dedupInsert key rec, ()⟩) (.recorded t key rec)
  | released (t : Nat) (key : String) : EventFrom log (.call t ⟨.dedupRemove key, ()⟩) (.released t key)
  | swept (nowMs : Nat) : EventFrom log (.env (.sweep nowMs)) (.swept nowMs)
  | restarted : EventFrom log (.env .reconnect) .restarted
  | quiet {l : BridgeLabel} : (∀ key, writeOf key l = none) → (∀ key, claimantOf key l = none) → EventFrom log l .quiet

theorem eventFrom_eventOf (log : History) (l : BridgeLabel) : EventFrom log l (eventOf log l) := by
  unfold eventOf
  split
  · exact .claimed ..
  · split
    · rename_i key hkey
      exact .accepted _ _ hkey
    · exact .quiet (fun _ => rfl) (fun _ => rfl)
  · exact .recorded ..
  · exact .released ..
  · exact .swept _
  · exact .restarted
  · rename_i hclaim _ hinsert _ _ _
    refine .quiet (fun key => ?_) (fun key => ?_)
    · unfold writeOf
      split
      · exact (hclaim _ _ _ _ rfl).elim
      · exact (hinsert _ _ _ _ rfl).elim
      · rfl
    · unfold claimantOf
      split
      · exact (hclaim _ _ _ _ rfl).elim
      · rfl

theorem eventOf_claimed {log : History} {t : Nat} {key : String} {nowMs : Nat} (h : eventOf log l = .claimed t key nowMs) :
    ∃ c, l = .call t ⟨.claim (some key) c nowMs, none⟩ := by
  have hfrom := eventFrom_eventOf log l
  rw [h] at hfrom
  cases hfrom
  exact ⟨_, rfl⟩

theorem eventOf_swept {log : History} {nowMs : Nat} (h : eventOf log l = .swept nowMs) : l = .env (.sweep nowMs) := by
  have hfrom := eventFrom_eventOf log l
  rw [h] at hfrom
  cases hfrom
  rfl

theorem eventOf_restarted {log : History} (h : eventOf log l = .restarted) : l = .env .reconnect := by
  have hfrom := eventFrom_eventOf log l
  rw [h] at hfrom
  cases hfrom
  rfl

theorem eventOf_recorded {log : History} {t : Nat} {key : String} {rec : DedupRecord} (h : eventOf log l = .recorded t key rec) :
    l = .call t ⟨.dedupInsert key rec, ()⟩ := by
  have hfrom := eventFrom_eventOf log l
  rw [h] at hfrom
  cases hfrom
  rfl

theorem eventOf_released {log : History} {t : Nat} {key : String} (h : eventOf log l = .released t key) :
    l = .call t ⟨.dedupRemove key, ()⟩ := by
  have hfrom := eventFrom_eventOf log l
  rw [h] at hfrom
  cases hfrom
  rfl

theorem write_eventOf (log : History) (key : String) (l : BridgeLabel) : (eventOf log l).write key = writeOf key l := by
  have hfrom := eventFrom_eventOf log l
  generalize eventOf log l = e at hfrom
  cases hfrom with
  | quiet hwrite _ => exact (hwrite key).symm
  | _ => rfl

theorem claimant_eventOf (log : History) (key : String) (l : BridgeLabel) : (eventOf log l).claimant key = claimantOf key l := by
  have hfrom := eventFrom_eventOf log l
  generalize eventOf log l = e at hfrom
  cases hfrom with
  | quiet _ hclaimant => exact (hclaimant key).symm
  | _ => rfl

/-! ## The steps of the claim protocol -/

/-- The claims after one handler's progress changed. -/
theorem holder_update_phase (phase : Nat → Option Progress) (t : Nat) (s : Progress) :
    (fun t' => (Function.update phase t (some s) t').bind Progress.holding) =
      Function.update (fun t' => (phase t').bind Progress.holding) t s.holding := by
  funext t'
  by_cases htt : t' = t
  · subst htt
    rw [Function.update_self, Function.update_self]
    rfl
  · rw [Function.update_of_ne htt, Function.update_of_ne htt]

/-- The claims after a handler's progress changed without changing its claim. -/
theorem holder_update_same {phase : Nat → Option Progress} {t : Nat} {s : Progress}
    (h : s.holding = (phase t).bind Progress.holding) :
    (fun t' => (Function.update phase t (some s) t').bind Progress.holding) = fun t' => (phase t').bind Progress.holding := by
  rw [holder_update_phase, h]
  exact Function.update_eq_self t _

theorem holding_eq_of_stage {s s' : Progress} (hk : s'.key = s.key) (hst : s'.stage = s.stage) : s'.holding = s.holding := by
  unfold Progress.holding
  rw [hk, hst]

theorem holding_eq_none {s : Progress} (h : s.stage = .gates ∨ s.stage = .closed ∨ ∃ prior, s.stage = .answered prior) :
    s.holding = none := by
  unfold Progress.holding
  rcases h with h | h | ⟨prior, h⟩ <;> rw [h] <;> cases s.key <;> rfl

/-- A handler holds no claim when it starts. -/
theorem start_holding (m : Delivery) : (Progress.start m).holding = none := by
  refine holding_eq_none ?_
  cases m with
  | submit payload => exact Or.inl rfl
  | mint payload => exact Or.inl rfl
  | cancel payload => exact Or.inr (Or.inl rfl)
  | status payload => exact Or.inr (Or.inl rfl)
  | unknown subject => exact Or.inr (Or.inl rfl)

/-- A step that leaves the store and the claims is quiet. -/
theorem claims_quiet (hc : v.world.clock ≤ u.world.clock) (hst : u.world.dedupStore = v.world.dedupStore)
    (hh : (fun t => (u.phase t).bind Progress.holding) = fun t => (v.phase t).bind Progress.holding) :
    Claims.Step (claimsOf v) .quiet (claimsOf u) := by
  have he : claimsOf u = { claimsOf v with clock := u.world.clock } := by
    simp only [claimsOf, hst, hh]
  rw [he]
  exact .quiet hc

/-- The calls that neither change the store nor a claim. -/
def Call.isPlain : Call → Bool
  | .claim _ _ _ => false
  | .sendTransaction _ => false
  | .dedupInsert _ _ => false
  | .dedupRemove _ => false
  | _ => true

theorem serve_plain (w : Session) {c : Call} (h : Call.isPlain c = true) (r : c.Answer) :
    (w.serve c r).2.dedupStore = w.dedupStore := by
  cases c <;> first | rfl | cases h

theorem next_plain (s : Progress) {c : Call} (h : Call.isPlain c = true) (a : c.Answer) : (s.next c a).stage = s.stage := by
  cases c <;> first | rfl | cases h

theorem eventOf_plain (log : History) (t : Nat) {c : Call} (h : Call.isPlain c = true) (a : c.Answer) :
    eventOf log (.call t ⟨c, a⟩) = .quiet := by
  cases c <;> first | rfl | cases h

/-- A call is made by a handler whose claim was answered, or is one the open protocol allows. -/
theorem allow_cases {s : Progress} {c : Call} (h : (protocol Γ).allow s c) :
    (∃ prior, s.stage = .answered prior ∧ allowAnswered prior c) ∨ (Open s ∧ allowOpen Γ s c) := by
  by_cases hs : ∃ prior, s.stage = .answered prior
  · obtain ⟨prior, hs⟩ := hs
    refine Or.inl ⟨prior, hs, ?_⟩
    have h' : Progress.allow Γ s c := h
    unfold Progress.allow at h'
    rw [hs] at h'
    exact h'
  · have ho : Open s := fun prior hp => hs ⟨prior, hp⟩
    exact Or.inr ⟨ho, (allow_iff ho c).mp h⟩

section Calls

variable {t : Nat} {s : Progress}

/-- The view after a call. -/
def afterCall (v : BridgeView) (t : Nat) (s : Progress) (c : Call) (r : c.Answer) : BridgeView where
  world := (v.world.serve c r).2
  phase := Function.update v.phase t (some (s.next c (v.world.serve c r).1))
  log := v.log ++ [.call t ⟨c, (v.world.serve c r).1⟩]

theorem claimsOf_afterCall (v : BridgeView) (t : Nat) (s : Progress) (c : Call) (r : c.Answer) :
    claimsOf (afterCall v t s c r) =
      { clock := v.world.clock
        store := (v.world.serve c r).2.dedupStore
        holder := Function.update (claimsOf v).holder t (s.next c (v.world.serve c r).1).holding } := by
  simp only [claimsOf, afterCall, clock_serve, holder_update_phase]

theorem claims_plain (hs : v.phase t = some s) {c : Call} (hc : Call.isPlain c = true) (r : c.Answer) :
    Claims.Step (claimsOf v) .quiet (claimsOf (afterCall v t s c r)) := by
  refine claims_quiet (Nat.le_of_eq (clock_serve v.world c r).symm) (serve_plain v.world hc r) (holder_update_same ?_)
  rw [hs]
  exact holding_eq_of_stage (next_key s c _).1 (next_plain s hc _)

theorem claims_claim (hf : Faithful v) (hs : v.phase t = some s) {key : Option String} {c : String} {nowMs : Nat}
    (ha : (protocol Γ).allow s (.claim key c nowMs)) (r : Option TxResultMessage) :
    Claims.Step (claimsOf v) (eventOf v.log (.call t ⟨.claim key c nowMs, (v.world.serve (.claim key c nowMs) r).1⟩))
      (claimsOf (afterCall v t s (.claim key c nowMs) r)) := by
  obtain ⟨prior, -, h⟩ | ⟨-, hg, hk, -, hn, -⟩ := allow_cases ha
  · exact h.elim
  have hfree : s.holding = none := holding_eq_none (Or.inl hg)
  have hnow : nowMs ≤ v.world.clock := hn ▸ hf.reading t s hs
  cases key with
  | none =>
    refine claims_quiet (Nat.le_refl _) rfl (holder_update_same ?_)
    rw [hs]
    show Progress.holding { s with stage := .holding nowMs } = s.holding
    rw [hfree]
    simp only [Progress.holding, ← hk]
  | some key =>
    cases hout : (claimOrReplay v.world.dedupStore (some key) c nowMs).1 with
    | some prior =>
      have hev : eventOf v.log (.call t ⟨.claim (some key) c nowMs, (v.world.serve (.claim (some key) c nowMs) r).1⟩) =
          .quiet := by
        simp only [Session.serve, hout, eventOf]
      rw [hev]
      refine claims_quiet (Nat.le_refl _) (claimOrReplay_answered hout) (holder_update_same ?_)
      rw [hs]
      show (s.next (.claim (some key) c nowMs) (claimOrReplay v.world.dedupStore (some key) c nowMs).1).holding = s.holding
      rw [hout, hfree]
      exact holding_eq_none (Or.inr (Or.inr ⟨prior, rfl⟩))
    | none =>
      have hev : eventOf v.log (.call t ⟨.claim (some key) c nowMs, (v.world.serve (.claim (some key) c nowMs) r).1⟩) =
          .claimed t key nowMs := by
        simp only [Session.serve, hout, eventOf]
      obtain ⟨hexp, hstore⟩ := claimOrReplay_proceeds hout
      have hnext : (s.next (.claim (some key) c nowMs) (claimOrReplay v.world.dedupStore (some key) c nowMs).1).holding =
          some ⟨key, nowMs, false⟩ := by
        rw [hout]
        simp only [Progress.next, Progress.holding, ← hk]
      have hholder : (claimsOf v).holder t = none := by
        simp only [claimsOf, hs, Option.bind_some, hfree]
      rw [hev, claimsOf_afterCall]
      simp only [Session.serve, hstore, hnext]
      exact .claimed hholder hnow hexp

theorem claims_send (hf : Faithful v) (hs : v.phase t = some s) {tx : Transaction}
    (ha : (protocol Γ).allow s (.sendTransaction tx)) (r : Except String Signature) :
    Claims.Step (claimsOf v) (eventOf v.log (.call t ⟨.sendTransaction tx, r⟩))
      (claimsOf (afterCall v t s (.sendTransaction tx) r)) := by
  obtain ⟨prior, -, h⟩ | ⟨-, -, nowMs, hst⟩ := allow_cases ha
  · exact h.elim
  cases r with
  | error e =>
    refine claims_quiet (Nat.le_refl _) rfl (holder_update_same ?_)
    rw [hs]
    exact holding_eq_of_stage rfl rfl
  | ok sig =>
    have hnext : s.next (.sendTransaction tx) (.ok sig) = { s with stage := .accepted nowMs sig } := by
      simp only [Progress.next, hst]
    cases hk : s.key with
    | none =>
      have hev : eventOf v.log (.call t ⟨.sendTransaction tx, .ok sig⟩) = .quiet := by
        simp only [eventOf, hf.keyOf_eq hs, hk]
      rw [hev]
      refine claims_quiet (Nat.le_refl _) rfl (holder_update_same ?_)
      rw [hs]
      show (s.next (.sendTransaction tx) (.ok sig)).holding = s.holding
      rw [hnext]
      simp only [Progress.holding, hk]
    | some key =>
      have hev : eventOf v.log (.call t ⟨.sendTransaction tx, .ok sig⟩) = .accepted t key := by
        simp only [eventOf, hf.keyOf_eq hs, hk]
      have hholder : (claimsOf v).holder t = some ⟨key, nowMs, false⟩ := by
        simp only [claimsOf, hs, Option.bind_some, Progress.holding, hk, hst]
      have hnew : (s.next (.sendTransaction tx) (.ok sig)).holding = some ⟨key, nowMs, true⟩ := by
        rw [hnext]
        simp only [Progress.holding, hk]
      rw [hev, claimsOf_afterCall]
      simp only [Session.serve, hnew]
      exact .accepted hholder

theorem claims_dedupInsert (hs : v.phase t = some s) {key : String} {rec : DedupRecord}
    (ha : (protocol Γ).allow s (.dedupInsert key rec)) (r : Unit) :
    Claims.Step (claimsOf v) (.recorded t key rec) (claimsOf (afterCall v t s (.dedupInsert key rec) r)) := by
  obtain ⟨prior, -, h⟩ | ⟨-, hk, nowMs, sig, slot, hst, rfl⟩ := allow_cases ha
  · exact h.elim
  have hholder : (claimsOf v).holder t = some ⟨key, nowMs, true⟩ := by
    simp only [claimsOf, hs, Option.bind_some, Progress.holding, hk, hst]
  have hnew : (s.next (.dedupInsert key (doneAt nowMs (Γ.signatureToString sig) slot)) r).holding = none :=
    holding_eq_none (Or.inr (Or.inl rfl))
  rw [claimsOf_afterCall]
  simp only [Session.serve, hnew]
  exact .recorded hholder

theorem claims_dedupRemove (hs : v.phase t = some s) {key : String} (ha : (protocol Γ).allow s (.dedupRemove key))
    (r : Unit) : Claims.Step (claimsOf v) (.released t key) (claimsOf (afterCall v t s (.dedupRemove key) r)) := by
  obtain ⟨prior, -, h⟩ | ⟨-, hk, hst⟩ := allow_cases ha
  · exact h.elim
  have hnew : (s.next (.dedupRemove key) r).holding = none := holding_eq_none (Or.inr (Or.inl rfl))
  rw [claimsOf_afterCall]
  simp only [Session.serve, hnew]
  rcases hst with ⟨nowMs, hst⟩ | ⟨⟨nowMs, sig, hst⟩, hmint⟩
  · have hholder : (claimsOf v).holder t = some ⟨key, nowMs, false⟩ := by
      simp only [claimsOf, hs, Option.bind_some, Progress.holding, hk, hst]
    exact .released hholder (fun h => by cases h)
  · have hholder : (claimsOf v).holder t = some ⟨key, nowMs, true⟩ := by
      simp only [claimsOf, hs, Option.bind_some, Progress.holding, hk, hst]
    exact .released hholder (fun _ => hmint)

end Calls

/-- A move of the environment: time, a sweep, or a restart. -/
theorem claims_move {w : Session} {m : Move} (hw : v.world.move m = some w) :
    Claims.Step (claimsOf v) (eventOf v.log (.env m))
      (claimsOf { world := w, phase := View.cutPhases (protocol Γ) v.phase m.isReconnect, log := v.log ++ [.env m] }) := by
  cases m with
  | tick clock =>
    have hle := clock_le_move hw
    simp only [Session.move] at hw
    split at hw
    · cases hw
      exact claims_quiet hle rfl rfl
    · cases hw
  | refresh hash height =>
    cases hw
    exact claims_quiet (Nat.le_refl _) rfl rfl
  | sweep nowMs =>
    simp only [Session.move] at hw
    split at hw
    · rename_i hn
      cases hw
      exact .swept hn
    · cases hw
  | reconnect =>
    cases hw
    have hh : (fun t => (View.cutPhases (protocol Γ) v.phase true t).bind Progress.holding) = fun _ => none := by
      funext t
      show ((v.phase t).map (protocol Γ).cut).bind Progress.holding = none
      cases v.phase t with
      | none => rfl
      | some s => exact holding_eq_none (Or.inr (Or.inl rfl))
    have he : claimsOf ⟨.fresh v.world.clock v.world.blockhashCache,
        View.cutPhases (protocol Γ) v.phase (Move.isReconnect .reconnect), v.log ++ [.env .reconnect]⟩ =
        { claimsOf v with store := .empty, holder := fun _ => none } := by
      simp only [claimsOf, Move.isReconnect, hh, Session.fresh]
    rw [he]
    exact .restarted

end ClaimsAux

open ClaimsAux

/-- Every step of the bridge is a step of the claim protocol. -/
theorem claims_step {Γ : Ctx} {v u : BridgeView} {l : BridgeLabel} (hf : Faithful v)
    (h : View.Step (bridge Γ) (protocol Γ) v l u) : Claims.Step (claimsOf v) (eventOf v.log l) (claimsOf u) := by
  cases h with
  | deliver t m hn =>
    refine claims_quiet (Nat.le_refl _) rfl (holder_update_same ?_)
    rw [hn]
    exact start_holding m
  | @call t s c r hs ha =>
    by_cases hc : Call.isPlain c = true
    · have hev := eventOf_plain v.log t hc ((bridge Γ).serve v.world c r).1
      rw [hev]
      exact claims_plain hs hc r
    · cases c with
      | claim key correlationId nowMs => exact claims_claim hf hs ha r
      | sendTransaction tx => exact claims_send hf hs ha r
      | dedupInsert key rec => exact claims_dedupInsert hs ha r
      | dedupRemove key => exact claims_dedupRemove hs ha r
      | _ => exact (hc rfl).elim
  | @env w m hw => exact claims_move hw

namespace ClaimsAux

variable {Γ : Ctx}

/-! ## The key of a handler -/

/-- The calls of a handler change neither its key nor its correlation id. -/
theorem after_key (s : Progress) (t : List CallEvent) : ((protocol Γ).after s t).key = s.key := by
  induction t generalizing s with
  | nil => rfl
  | cons e t ih => exact (ih (s.next e.1 e.2)).trans (next_key s e.1 e.2).1

/-- A handler was allowed what it did, with the key of its delivery. -/
theorem allowed_of_steps {d : Delivery} {t : List CallEvent} {q : Handler Unit} (h : Prog.Steps (dispatch Γ d) t q)
    {e : CallEvent} (he : e ∈ t) : ∃ s, (protocol Γ).allow s e.1 ∧ s.key = d.key := by
  obtain ⟨t₁, t₂, rfl⟩ := List.append_of_mem he
  exact ⟨_, Prog.wp_allow (dispatch_wp Γ d) h, after_key (Progress.start d) t₁⟩

/-- A handler claims the key of its delivery. -/
theorem key_of_claim {d : Delivery} {t : List CallEvent} {q : Handler Unit} (h : Prog.Steps (dispatch Γ d) t q)
    {key : Option String} {c : String} {nowMs : Nat} {a : Option TxResultMessage}
    (he : (⟨.claim key c nowMs, a⟩ : CallEvent) ∈ t) : d.key = key := by
  obtain ⟨s, hallow, hkey⟩ := allowed_of_steps h he
  obtain ⟨prior, -, hno⟩ | ⟨-, -, hk, -⟩ := allow_cases hallow
  · exact hno.elim
  · exact hkey.symm.trans hk.symm

/-- A handler records its effect under the key of its delivery. -/
theorem key_of_dedupInsert {d : Delivery} {t : List CallEvent} {q : Handler Unit} (h : Prog.Steps (dispatch Γ d) t q)
    {key : String} {rec : DedupRecord} {a : Unit} (he : (⟨.dedupInsert key rec, a⟩ : CallEvent) ∈ t) : d.key = some key := by
  obtain ⟨s, hallow, hkey⟩ := allowed_of_steps h he
  obtain ⟨prior, -, hno⟩ | ⟨-, hk, -⟩ := allow_cases hallow
  · exact hno.elim
  · exact hkey.symm.trans hk

/-! ## The last record written under a key -/

theorem lastWrite_snoc (key : String) (log : History) (l : BridgeLabel) :
    lastWrite key (log ++ [l]) = (writeOf key l).or (lastWrite key log) := by
  rw [lastWrite, List.filterMap_append, List.getLast?_append]
  simp only [List.filterMap_cons, List.filterMap_nil]
  cases writeOf key l <;> rfl

theorem lastClaimant_snoc (key : String) (log : History) (l : BridgeLabel) :
    lastClaimant key (log ++ [l]) = (claimantOf key l).or (lastClaimant key log) := by
  rw [lastClaimant, List.filterMap_append, List.getLast?_append]
  simp only [List.filterMap_cons, List.filterMap_nil]
  cases claimantOf key l <;> rfl

/-- The last record written is in the history. -/
theorem mem_of_lastWrite {key : String} {log : History} {out : Nat × DedupRecord} (h : lastWrite key log = some out) :
    ∃ l ∈ log, writeOf key l = some out :=
  List.mem_filterMap.mp (List.mem_of_getLast? h)

/-- A record stored under a key is the last one written there. -/
theorem lastWrite_of_stored {C : Session → History → BridgeLabel → Prop} {clock : Nat}
    {blockhash : Option (Hash × Nat)} {p : BridgePool} (h : Pool.Reach (bridge Γ) C (Pool.init (.fresh clock blockhash)) p)
    {key : String} {rec : DedupRecord} (hrec : p.world.dedupStore.get? key = some rec) :
    ∃ t, lastWrite key p.log = some (t, rec) := by
  obtain ⟨phase, hv, -⟩ := h.invariant (dispatch_wp Γ) (fun v => Faithful v ∧ (claimsOf v).Attributed (lastWrite · v.log))
    ⟨faithful_init _, fun key rec hrec => (by cases hrec)⟩ fun v l u hv _ hs => by
      have ha := hv.2.step (claims_step hv.1 hs)
      simp only [write_eventOf] at ha
      refine ⟨hv.1.step hs, ?_⟩
      rw [hs.log_eq]
      simp only [lastWrite_snoc]
      exact ha
  exact hv.2 key rec hrec

end ClaimsAux

end ChainBridge
