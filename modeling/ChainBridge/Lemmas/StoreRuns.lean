import ChainBridge.StoreRuns
import ChainBridge.Lemmas.Claims
import ChainBridge.Lemmas.Handlers
import Mathlib.Data.List.Basic

/-!
# The store of a session is the run of its steps

Only a submit and a mint touch the store, under the key of their own request, so the history of a session replays to its store and
to the answers of its claims.
-/

namespace ChainBridge

open Interleave

namespace StoreAux

open ClaimsAux HandlersAux

variable {Γ : Ctx}

/-- The calls on the store. -/
def Call.onStore : Call → Bool
  | .claim _ _ _ => true
  | .dedupInsert _ _ => true
  | .dedupRemove _ => true
  | _ => false

/-- The program leaves the store alone. -/
abbrev OffStore {α : Type} (p : Handler α) : Prop := p.Only (fun c => Call.onStore c = false) (fun _ => True)

theorem offStore_refuse (correlationId claimedIdentity action stage reason subject : String) (reply : Reply) (kind : AckKind) :
    OffStore (refuse correlationId claimedIdentity action stage reason subject reply kind) :=
  only_refuse (K := fun c => Call.onStore c = false) rfl (fun _ => rfl) (fun _ _ => rfl) (fun _ => rfl) ..

theorem offStore_handleCancel (payload : Except String TxCancelMessage) : OffStore (handleCancel Γ payload) := by
  cases payload with
  | error e => exact ⟨rfl, fun _ => trivial⟩
  | ok envelope =>
    rw [handleCancel_eq]
    refine Gates.only_run (g := cancelGates Γ envelope) (K := fun c => Call.onStore c = false) rfl rfl rfl
      (fun _ => offStore_refuse ..) (offStore_refuse ..) (fun _ => offStore_refuse ..) fun nowMs => ?_
    rw [cancelRest_eq]
    refine Prog.only_performAll fun i hi => ?_
    simp only [List.mem_cons, List.not_mem_nil, or_false] at hi
    rcases hi with rfl | rfl | rfl | rfl <;> rfl

/-- A delivery that asks for no effect leaves the store alone. -/
theorem offStore_of_request {d : Delivery} (h : d.request = none) : OffStore (dispatch Γ d) := by
  cases d with
  | submit payload =>
    cases payload with
    | error e => exact ⟨rfl, fun _ => trivial⟩
    | ok envelope => cases h
  | mint payload =>
    cases payload with
    | error e => exact ⟨rfl, fun _ => trivial⟩
    | ok envelope => cases h
  | cancel payload => exact offStore_handleCancel payload
  | status payload =>
    exact only_handleStatus (K := fun c => Call.onStore c = false) rfl (fun _ => rfl) (fun _ => rfl) (fun _ _ => rfl)
      (fun _ => rfl) payload
  | unknown subject => exact ⟨rfl, fun _ => trivial⟩

/-- The key of a delivery is the key of its request. -/
theorem key_of_request {d : Delivery} {e : Effect} {k : String} (h : d.request = some (e, k)) : d.key = dedupKey e k := by
  unfold Delivery.request at h
  split at h <;> cases h <;> rfl

/-- A handler that touches the store has a request. -/
theorem request_of_onStore {d : Delivery} {t : List CallEvent} {q : Handler Unit} (h : Prog.Steps (dispatch Γ d) t q)
    {e : CallEvent} (he : e ∈ t) (hon : Call.onStore e.1 = true) : ∃ r, d.request = some r := by
  cases hd : d.request with
  | some r => exact ⟨r, rfl⟩
  | none =>
    have hoff := (Prog.only_steps (offStore_of_request hd) h).1 e he
    rw [hoff] at hon
    cases hon

/-- A handler removes the key of its delivery. -/
theorem key_of_dedupRemove {d : Delivery} {t : List CallEvent} {q : Handler Unit} (h : Prog.Steps (dispatch Γ d) t q)
    {key : String} {a : Unit} (he : (⟨.dedupRemove key, a⟩ : CallEvent) ∈ t) : d.key = some key := by
  obtain ⟨s, hallow, hkey⟩ := allowed_of_steps h he
  obtain ⟨prior, -, hno⟩ | ⟨-, hk, -⟩ := allow_cases hallow
  · exact hno.elim
  · exact hkey.symm.trans hk

/-! ## The run of a history that grows -/

section Grow

variable {C : Session → History → BridgeLabel → Prop} {w : Session} {p : BridgePool}

/-- What a label does to the store depends on the request of its handler only. -/
theorem storeStep_congr {log log' : History} {l : BridgeLabel}
    (h : ∀ t e, l = .call t e → requestOf t log = requestOf t log') : storeStep log l = storeStep log' l := by
  unfold storeStep
  split <;> first | rw [h _ _ rfl] | rfl

/-- A handler that was delivered has a delivery in the history. -/
theorem messageOf_of_deliver {t : Nat} {d : Delivery} {log : History} (h : .deliver t d ∈ log) :
    ∃ d', messageOf t log = some d' := by
  cases hm : messageOf t log with
  | some d' => exact ⟨d', rfl⟩
  | none =>
    have hnone := List.findSome?_eq_none_iff.mp hm _ h
    simp at hnone

/-- The history says which delivery a running handler has. -/
theorem messageOf_of_thread (h : Pool.Reach (bridge Γ) C (Pool.init w) p) {t : Nat} {d : Delivery} {q : Handler Unit}
    (ht : p.threads t = some (d, q)) : messageOf t p.log = some d := by
  have hmem := h.deliver_of_thread ht
  obtain ⟨d', hd'⟩ := messageOf_of_deliver hmem
  rw [hd', (h.steps_of_deliver hmem).1 d' (mem_of_messageOf hd')]

/-- What a label of the history does to the store is settled when it happens. -/
theorem storeStep_stable (h : Pool.Reach (bridge Γ) C (Pool.init w) p) (l' : BridgeLabel) {l : BridgeLabel} (hl : l ∈ p.log) :
    storeStep (p.log ++ [l']) l = storeStep p.log l := by
  refine storeStep_congr fun t e hcall => ?_
  subst hcall
  obtain ⟨d, q, hd, -⟩ := h.steps hl
  obtain ⟨d', hd'⟩ := messageOf_of_deliver ((hd d).mpr rfl)
  rw [requestOf, requestOf, messageOf_append, hd']
  rfl

/-- A step adds what its label does to the store. -/
theorem storeRun_concat (h : Pool.Reach (bridge Γ) C (Pool.init w) p) (l : BridgeLabel) :
    storeRun (p.log ++ [l]) = storeRun p.log ++ (storeStep (p.log ++ [l]) l).toList := by
  have hstable : p.log.filterMap (storeStep (p.log ++ [l])) = p.log.filterMap (storeStep p.log) :=
    List.filterMap_congr fun l' hl' => storeStep_stable h l hl'
  rw [storeRun, List.filterMap_append, hstable, storeRun]
  cases hstep : storeStep (p.log ++ [l]) l <;> simp [hstep]

/-- What a step does to a store and what it answers, when it is a step on the store. -/
structure Replays (store : DedupStore) (o : Option StoreStep) (store' : DedupStore)
    (answers : List (Nat × Option TxResultMessage)) : Prop where
  store_eq : (o.map (StoreStep.apply store)).getD store = store'
  answers_eq : ((o.bind (StoreStep.result store)).map fun out => (out.1, out.2.2)).toList = answers

theorem replays_none (store : DedupStore) : Replays store none store [] := ⟨rfl, rfl⟩

/-- A call is the step of the handler's request: the same store after it, and for a claim the same answer. -/
theorem replays_call (h : Pool.Reach (bridge Γ) C (Pool.init w) p) {t : Nat} {d : Delivery} {c : Call}
    {k : c.Answer → Handler Unit} (ht : p.threads t = some (d, .call c k)) (r : c.Answer) :
    Replays p.world.dedupStore (storeStep p.log (.call t ⟨c, (p.world.serve c r).1⟩)) (p.world.serve c r).2.dedupStore
      (claimAnswers [.call t ⟨c, (p.world.serve c r).1⟩]) := by
  have hsteps : Prog.Steps (dispatch Γ d) (traceOf t p.log ++ [⟨c, (p.world.serve c r).1⟩]) (k (p.world.serve c r).1) :=
    (h.steps_of_thread ht).trans (.cons c _ (.nil _))
  have hmem : (⟨c, (p.world.serve c r).1⟩ : CallEvent) ∈ traceOf t p.log ++ [⟨c, (p.world.serve c r).1⟩] :=
    List.mem_append_right _ List.mem_cons_self
  by_cases hon : Call.onStore c = true
  · obtain ⟨⟨e, key⟩, hreq⟩ := request_of_onStore hsteps hmem hon
    have hkey := key_of_request hreq
    have hrequest : requestOf t p.log = some (e, key) := by
      rw [requestOf, messageOf_of_thread h ht]
      exact hreq
    cases c with
    | claim o correlationId nowMs =>
      have ho : dedupKey e key = o := hkey.symm.trans (key_of_claim hsteps hmem)
      simp only [storeStep, hrequest]
      subst ho
      exact ⟨rfl, rfl⟩
    | dedupInsert key' rec =>
      have ho : dedupKey e key = some key' := hkey.symm.trans (key_of_dedupInsert hsteps hmem)
      simp only [storeStep, hrequest]
      exact ⟨by simp [StoreStep.apply, ho, Session.serve], rfl⟩
    | dedupRemove key' =>
      have ho : dedupKey e key = some key' := hkey.symm.trans (key_of_dedupRemove hsteps hmem)
      simp only [storeStep, hrequest]
      exact ⟨by simp [StoreStep.apply, ho, Session.serve], rfl⟩
    | _ => cases hon
  · cases c <;> first | exact replays_none _ | exact (hon rfl).elim

/-- A move of the environment within a session: only a sweep touches the store. -/
theorem replays_move {m : Move} {w' : Session} (hw : p.world.move m = some w') (hin : InSession (.env m)) :
    Replays p.world.dedupStore (storeStep p.log (.env m)) w'.dedupStore [] := by
  cases m with
  | tick clock =>
    simp only [Session.move, Option.ite_none_right_eq_some, Option.some.injEq] at hw
    rw [← hw.2]
    exact replays_none _
  | sweep nowMs =>
    simp only [Session.move, Option.ite_none_right_eq_some, Option.some.injEq] at hw
    rw [← hw.2]
    exact ⟨rfl, rfl⟩
  | refresh hash height =>
    cases hw
    exact replays_none _
  | reconnect => exact hin.elim

/-- Every step within a session is a step on the store, or leaves it alone. -/
theorem replays_step {q : BridgePool} {l : BridgeLabel} (h : Pool.Reach (bridge Γ) C (Pool.init w) p) (hin : InSession l)
    (hs : Pool.Step (bridge Γ) p l q) :
    Replays p.world.dedupStore (storeStep (p.log ++ [l]) l) q.world.dedupStore (claimAnswers [l]) := by
  have hlast : ∀ t e, l = .call t e → requestOf t (p.log ++ [l]) = requestOf t p.log := by
    rintro t e rfl
    rw [requestOf, messageOf_snoc_call, requestOf]
  rw [storeStep_congr hlast]
  cases hs with
  | deliver t d hn => exact replays_none _
  | @call t d c k r ht => exact replays_call h ht r
  | @env w' m hw => exact replays_move hw hin

end Grow

end StoreAux

open StoreAux

/-- The history of a session replays to its store and to the answers of its claims. -/
theorem session_replays {Γ : Ctx} {w : Session} {p : BridgePool}
    (h : Pool.Reach (bridge Γ) (fun _ _ l => InSession l) (Pool.init w) p) :
    replay w.dedupStore (storeRun p.log) = p.world.dedupStore ∧
      (claimResults w.dedupStore (storeRun p.log)).map (fun out => (out.1, out.2.2)) = claimAnswers p.log := by
  induction h with
  | refl => exact ⟨rfl, rfl⟩
  | @step p q l hr hin hs ih =>
    obtain ⟨hstore, hanswers⟩ := ih
    obtain ⟨hstore', hanswers'⟩ := replays_step hr hin hs
    rw [hs.log_eq, storeRun_concat hr l]
    have hsnoc : claimAnswers (p.log ++ [l]) = claimAnswers p.log ++ claimAnswers [l] := List.filterMap_append
    cases ho : storeStep (p.log ++ [l]) l with
    | none =>
      rw [ho] at hstore' hanswers'
      simp only [Option.toList_none, List.append_nil, hsnoc, ← hanswers']
      exact ⟨hstore.trans hstore', by simpa using hanswers⟩
    | some s =>
      rw [ho] at hstore' hanswers'
      simp only [Option.toList_some, replay_concat, claimResults_concat, hstore, List.map_append, hanswers, hsnoc, ← hanswers']
      refine ⟨hstore', ?_⟩
      rw [Option.bind_some, Option.toList_map]

end ChainBridge
