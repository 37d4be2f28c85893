import ChainBridge.Lemmas.StoreRuns
import ChainBridge.Lemmas.Sample

/-!
# Submits and mints do not interfere through the store

The keys of the two effects are in different namespaces, every step of a handler is at the key of its own request, and a sweep
decides record by record. So the steps of one effect can be deleted from a run without a trace in what the claims of the other
return, or in the other's part of the store.
-/

namespace ChainBridge

open Interleave

/-- The effect a submit and a mint have against each other. -/
def Effect.other : Effect → Effect
  | .submit => .mint
  | .mint => .submit

/-- A key in the namespace of an effect. -/
def Effect.Names (e : Effect) (key : String) : Prop := ∃ a, key = e.namespaceOf ++ a

/-- Two stores are the same in the namespace of an effect. -/
def SameIn (e : Effect) (store store' : DedupStore) : Prop := ∀ key, e.Names key → store.get? key = store'.get? key

/-- The run without the steps of the handlers of an effect. -/
def eraseEffect (e : Effect) (run : List StoreStep) : List StoreStep := run.filter fun s => decide (s.effect ≠ some e)

namespace IsolationAux

variable {e : Effect} {store store' : DedupStore} {s : StoreStep}

theorem names_of_dedupKey {a key : String} (h : dedupKey e a = some key) : e.Names key := by
  unfold dedupKey at h
  split at h
  · cases h
  · exact ⟨a, (Option.some.inj h).symm⟩

/-- No key is in both namespaces. -/
theorem not_names_other {key : String} (h : e.other.Names key) : ¬e.Names key := by
  rintro ⟨a, ha⟩
  obtain ⟨b, hb⟩ := h
  have hkey := congrArg String.toList (ha.symm.trans hb)
  cases e <;> simp [Effect.other, Effect.namespaceOf] at hkey

/-- A claim looks at the record of its own key only, and changes no other. -/
theorem claimOrReplay_congr {key : String} (h : store.get? key = store'.get? key) (c : String) (now : Nat) :
    (claimOrReplay store (some key) c now).1 = (claimOrReplay store' (some key) c now).1 ∧
      ∀ k, store.get? k = store'.get? k → (claimOrReplay store (some key) c now).2.get? k =
        (claimOrReplay store' (some key) c now).2.get? k := by
  have hinsert : ∀ k, store.get? k = store'.get? k →
      (store.insert key (claimAt now)).get? k = (store'.insert key (claimAt now)).get? k := by
    intro k hk
    simp only [KeyMap.insert, KeyMap.get?] at hk ⊢
    rw [hk]
  simp only [claimOrReplay, ← h]
  cases store.get? key with
  | none => exact ⟨rfl, hinsert⟩
  | some rec =>
    by_cases hlive : rec.expiryMs > now
    · simp only [if_pos hlive]
      exact ⟨trivial, fun k hk => hk⟩
    · simp only [if_neg hlive]
      exact ⟨trivial, hinsert⟩

/-- A step of the effect, or a sweep: the same answer and the same change in its namespace. -/
theorem apply_own (h : SameIn e store store') (hs : s.effect ≠ some e.other) :
    s.result store = s.result store' ∧ SameIn e (s.apply store) (s.apply store') := by
  have hown : ∀ e', some e' ≠ some e.other → e' = e := by
    intro e' he'
    cases e <;> cases e' <;> first | rfl | exact (he' rfl).elim
  cases s with
  | claim t e' a c now =>
    obtain rfl := hown e' hs
    simp only [StoreStep.result, StoreStep.apply]
    cases hkey : dedupKey e' a with
    | none => exact ⟨rfl, h⟩
    | some key =>
      obtain ⟨hresult, hafter⟩ := claimOrReplay_congr (h key (names_of_dedupKey hkey)) c now
      exact ⟨by rw [hresult], fun k hk => hafter k (h k hk)⟩
  | success t e' a rec =>
    refine ⟨rfl, fun k hk => ?_⟩
    simp only [StoreStep.apply]
    cases dedupKey e' a with
    | none => exact h k hk
    | some key =>
      have hsame := h k hk
      simp only [KeyMap.insert, KeyMap.get?] at hsame ⊢
      rw [hsame]
  | failure t e' a =>
    refine ⟨rfl, fun k hk => ?_⟩
    simp only [StoreStep.apply]
    cases dedupKey e' a with
    | none => exact h k hk
    | some key =>
      have hsame := h k hk
      simp only [KeyMap.remove, KeyMap.get?] at hsame ⊢
      rw [hsame]
  | sweep now =>
    refine ⟨rfl, fun k hk => ?_⟩
    rw [StoreStep.apply, StoreStep.apply, sweepDedup, sweepDedup, KeyMap.get?_retain, KeyMap.get?_retain, h k hk]

/-- A step of the other effect changes nothing in the namespace, and answers the other effect. -/
theorem apply_other (hs : s.effect = some e.other) :
    SameIn e (s.apply store) store ∧ ∀ out, s.result store = some out → out.2.1 = e.other := by
  have hne : ∀ {a key k : String}, dedupKey e.other a = some key → e.Names k → k ≠ key := by
    rintro a key k ha hk rfl
    exact not_names_other (names_of_dedupKey ha) hk
  cases s with
  | claim t e' a c now =>
    obtain rfl := Option.some.inj hs
    refine ⟨fun k hk => get?_claimOrReplay fun hkey => hne hkey hk rfl, fun out hout => ?_⟩
    obtain rfl := Option.some.inj hout
    rfl
  | success t e' a rec =>
    obtain rfl := Option.some.inj hs
    refine ⟨fun k hk => ?_, fun out hout => (by cases hout)⟩
    simp only [StoreStep.apply]
    cases hkey : dedupKey e.other a with
    | none => rfl
    | some key => exact KeyMap.get?_insert_of_ne _ _ (hne hkey hk)
  | failure t e' a =>
    obtain rfl := Option.some.inj hs
    refine ⟨fun k hk => ?_, fun out hout => (by cases hout)⟩
    simp only [StoreStep.apply]
    cases hkey : dedupKey e.other a with
    | none => rfl
    | some key => exact KeyMap.get?_remove_of_ne _ (hne hkey hk)
  | sweep now => cases hs

theorem other_ne (e : Effect) : e.other ≠ e := by
  cases e <;> decide

/-- Deleting the steps of the other effect, from stores that are the same in the namespace. -/
theorem erase_run (run : List StoreStep) (h : SameIn e store store') :
    (claimResults store run).filter (fun out => decide (out.2.1 = e)) = claimResults store' (eraseEffect e.other run) ∧
      SameIn e (replay store run) (replay store' (eraseEffect e.other run)) := by
  induction run generalizing store store' with
  | nil => exact ⟨rfl, h⟩
  | cons s run ih =>
    by_cases hs : s.effect = some e.other
    · have hother : SameIn e (s.apply store) store ∧ ∀ out, s.result store = some out → out.2.1 = e.other := apply_other hs
      obtain ⟨hsame, hresult⟩ := hother
      have hgone : eraseEffect e.other (s :: run) = eraseEffect e.other run := by simp [eraseEffect, hs]
      have hnone : (s.result store).toList.filter (fun out => decide (out.2.1 = e)) = [] := by
        cases hr : s.result store with
        | none => rfl
        | some out => simp [hresult out hr, other_ne e]
      rw [hgone, claimResults, List.filter_append, hnone, List.nil_append, replay_cons]
      exact ih fun k hk => (hsame k hk).trans (h k hk)
    · obtain ⟨hresult, hsame⟩ := apply_own h hs
      have hkept : eraseEffect e.other (s :: run) = s :: eraseEffect e.other run := by simp [eraseEffect, hs]
      have hmine : (s.result store').toList.filter (fun out => decide (out.2.1 = e)) = (s.result store').toList := by
        refine List.filter_eq_self.mpr fun out hout => ?_
        cases s with
        | claim t e' a c now =>
          simp only [StoreStep.result, Option.toList_some, List.mem_singleton] at hout
          subst hout
          cases e <;> cases e' <;> first | rfl | exact (hs rfl).elim
        | _ => cases hout
      obtain ⟨hresults, hlater⟩ := ih hsame
      rw [hkept, claimResults, claimResults, List.filter_append, hresult, hmine, hresults, replay_cons, replay_cons]
      exact ⟨rfl, hlater⟩

end IsolationAux

open IsolationAux

/-- Submits and mints do not interfere through the store. For every run of claims, successes, failures and sweeps, with any
idempotency keys, deleting all steps of the handlers of the other effect leaves, at every point of the run, what
`claim_or_replay` returned to the handlers of this effect and the part of the store in its namespace. What a session of the bridge
does to its store is such a run. -/
theorem effects_do_not_interfere (e : Effect) :
    (∀ (store : DedupStore) (run : List StoreStep) (n : Nat),
      (claimResults store (run.take n)).filter (fun out => decide (out.2.1 = e)) =
        claimResults store (eraseEffect e.other (run.take n)) ∧
      SameIn e (replay store (run.take n)) (replay store (eraseEffect e.other (run.take n)))) ∧
    ∀ (Γ : Ctx) (w : Session) (p : BridgePool), Pool.Reach (bridge Γ) (fun _ _ l => InSession l) (Pool.init w) p →
      replay w.dedupStore (storeRun p.log) = p.world.dedupStore ∧
      (claimResults w.dedupStore (storeRun p.log)).map (fun out => (out.1, out.2.2)) = claimAnswers p.log :=
  ⟨fun _ run n => erase_run (run.take n) fun _ _ => rfl, fun _ _ _ h => session_replays h⟩

namespace IsolationAux

open SampleAux

/-- A submit at the time of the signed mint. -/
def submitAtMint (correlationId : String) : TxSubmitMessage :=
  { submitOf mintTx correlationId "k" with createdAtMs := 1800000001000 }

/-- A submit that runs to its end, with a mint that claims its key while it is signed, and a second submit with the same key. -/
def mintBetweenScript : Script :=
  [.deliver 0 (.submit (.ok (submitAtMint "c1")))] ++ calls 0 4 ++ [.deliver 1 (.mint (.ok signedMint))] ++ calls 1 4 ++
    calls 0 10 ++ [.deliver 2 (.submit (.ok (submitAtMint "c2")))] ++ calls 2 6

end IsolationAux

open SampleAux in
/-- A mint claims its key between two submits with one key: the claims of the submits return what they return without it, and
their part of the store is the same. -/
theorem mint_leaves_submits : ∃ p : BridgePool,
    Pool.Reach (bridge mintCtx) (fun _ _ l => InSession l) (Pool.init (.fresh 1800000001000 none)) p ∧
    (claimResults .empty (storeRun p.log)).map (fun out => out.2.1) = [.submit, .mint, .submit] ∧
    (claimResults .empty (storeRun p.log)).filter (fun out => decide (out.2.1 = .submit)) =
      claimResults .empty (eraseEffect .mint (storeRun p.log)) ∧
    SameIn .submit p.world.dedupStore (replay .empty (eraseEffect .mint (storeRun p.log))) := by
  have hrun : ((Pool.init (.fresh 1800000001000 none) : BridgePool).exec (bridge mintCtx) (fun _ _ l => sessionStep l)
      mintBetweenScript).any (fun p =>
        decide ((claimResults .empty (storeRun p.log)).map (fun out => out.2.1) = [.submit, .mint, .submit])) = true := by
    decide +kernel
  obtain ⟨p, hp, htest⟩ := Pool.exists_reach_of_exec (C := fun _ _ l => InSession l)
    (fun _ _ _ h => inSession_of_sessionStep h) hrun
  obtain ⟨herase, hsession⟩ := effects_do_not_interfere .submit
  have hreplay : replay .empty (storeRun p.log) = p.world.dedupStore := (hsession _ _ p hp).1
  obtain ⟨hclaims, hsame⟩ := herase .empty (storeRun p.log) (storeRun p.log).length
  rw [List.take_length] at hclaims hsame
  rw [hreplay] at hsame
  exact ⟨p, hp, of_decide_eq_true htest, hclaims, hsame⟩

end ChainBridge
