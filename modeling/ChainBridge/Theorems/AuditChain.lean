import ChainBridge.AuditDb
import ChainBridge.Lemmas.Sample
import Mathlib.Data.List.Basic

/-!
# The chain in `audit_log`

An append reads the tip and inserts a row linked to it in two statements. As long as no row comes between the two, the table
is one chain; the link of the row that is inserted second of two appends that read the same tip is not the last row.
-/

namespace ChainBridge

open Interleave SampleAux

namespace AuditChainAux

variable {Γ : Ctx}

/-! ## An append as a monitor sees it -/

/-- Where an append is: before its query, between its two statements with the tip it read, or past them. -/
inductive AppendPhase where
  | querying (e : AuditEntry)
  | linking (e : AuditEntry) (prev : Option AuditHash)
  | finished

/-- An append queries the tip, then inserts the row linked to it. -/
def AppendPhase.allow (Γ : Ctx) : AppendPhase → DbCall → Prop
  | .querying _, .selectTip => True
  | .linking e prev, .insert row => ∃ json, Γ.outcomeJson e.outcome = .ok json ∧ row = linkedRow Γ e prev json
  | _, _ => False

/-- The phase after the answer of a statement. -/
def AppendPhase.next : AppendPhase → (c : DbCall) → c.Answer → AppendPhase
  | .querying e, .selectTip, .ok none => .linking e none
  | .querying e, .selectTip, .ok (some bytes) =>
    match vecToHash bytes with
    | .ok h => .linking e (some h)
    | .error _ => .finished
  | _, _, _ => .finished

/-- The monitor of the appends. -/
def appendWatch (Γ : Ctx) : Watch DbCall DbCall.Answer AuditEntry AppendPhase where
  allow := AppendPhase.allow Γ
  next := AppendPhase.next
  start := .querying
  cut := fun _ => .finished

/-- With the tip known, the only statement left is the insert of the row linked to it. -/
theorem insert_wp (Γ : Ctx) (e : AuditEntry) (prev : Option AuditHash) :
    Prog.wp (appendWatch Γ).toMonitor
      (do
        let _ ← (match Γ.outcomeJson e.outcome with
          | .error err => return .error ("serialize outcome: " ++ err)
          | .ok json => do
            match ← Prog.perform (DbCall.insert (linkedRow Γ e prev json)) with
            | .error err => return .error ("audit insert failed: " ++ err)
            | .ok id => return .ok id : Prog DbCall DbCall.Answer (Except String Int))
        return ())
      (AppendPhase.linking e prev) (fun _ _ => True) := by
  cases hjson : Γ.outcomeJson e.outcome with
  | error err => trivial
  | ok json =>
    refine ⟨⟨json, hjson, rfl⟩, fun answer => ?_⟩
    cases answer <;> trivial

/-- Every append follows the monitor. -/
theorem append_wp (Γ : Ctx) (e : AuditEntry) :
    ((auditLog Γ).start e).wp (appendWatch Γ).toMonitor ((appendWatch Γ).start e) (fun _ _ => True) := by
  refine ⟨trivial, fun answer => ?_⟩
  rcases answer with err | _ | bytes
  · trivial
  · exact insert_wp Γ e none
  · cases hbytes : vecToHash bytes with
    | error err =>
      simp only [appendWatch, AppendPhase.next, Prog.bind, hbytes]
      trivial
    | ok h =>
      simp only [appendWatch, AppendPhase.next, Prog.bind, hbytes]
      exact insert_wp Γ e (some h)

/-! ## The rows an append inserts -/

theorem vecToHash_ok {bytes : Bytes} {h : AuditHash} (hb : vecToHash bytes = .ok h) : hashToVec h = bytes := by
  unfold vecToHash at hb
  split at hb
  · cases hb
    rfl
  · cases hb

/-- The hash of an entry is the one recomputed from the row that stores it. -/
theorem rowLink_linkedRow {e : AuditEntry} {prev : Option AuditHash} {json : String}
    (hjson : Γ.outcomeJson e.outcome = .ok json) :
    (linkedRow Γ e prev json).entryHash = rowLink Γ (prev.map hashToVec) (linkedRow Γ e prev json).fieldBytes := by
  have hprev : prevBytes prev = (prev.map hashToVec).getD (List.replicate 32 0) := by
    cases prev with
    | none => rfl
    | some h => rfl
  simp only [linkedRow, rowLink, AuditRow.fieldBytes, AuditEntry.entryHash, hashToVec, hashv, outcomeText, hjson, hprev,
    Except.toOption, Option.getD_some, List.flatten_cons, List.flatten_nil, List.append_nil, List.append_assoc, UInt64.toUInt64_toInt64]

/-- The ids stay increasing. -/
theorem insertRow_ids {db : AuditDb} (h : db.rows.Pairwise (·.id < ·.id)) (row : AuditRow) (sequence : Int) :
    (db.insertRow row (db.nextId sequence)).rows.Pairwise (·.id < ·.id) := by
  refine List.pairwise_append.mpr ⟨h, List.pairwise_singleton _ _, fun r hr r' hr' => ?_⟩
  rw [List.mem_singleton.mp hr']
  show r.id < db.nextId sequence
  obtain ⟨rows, last, hrows⟩ : ∃ rows last, db.rows = rows ++ [last] := by
    rcases List.eq_nil_or_concat' db.rows with hnil | hlast
    · rw [hnil] at hr
      cases hr
    · exact hlast
  have hle : r.id ≤ last.id := by
    rw [hrows, List.mem_append, List.mem_singleton] at hr
    rcases hr with hr | rfl
    · rw [hrows] at h
      exact Int.le_of_lt ((List.pairwise_append.mp h).2.2 r hr last (List.mem_singleton.mpr rfl))
    · exact Int.le_refl _
  unfold AuditDb.nextId
  rw [hrows, List.getLast?_concat]
  simp only
  omega

theorem lastLink_rows (db : AuditDb) : HashChain.lastLink none (db.rows.map (·.stored)) = db.tip := by
  simp only [HashChain.lastLink, AuditDb.tip, List.getLast?_map, Option.map_map, Option.or_none]
  rfl

/-- The row of an append extends the chain when the tip it read is still the tip. -/
theorem chained_insertRow {db : AuditDb} (h : Chained Γ db.rows) {e : AuditEntry} {prev : Option AuditHash} {json : String}
    (hjson : Γ.outcomeJson e.outcome = .ok json) (hprev : prev.map hashToVec = db.tip) (id : Int) :
    Chained Γ (db.insertRow (linkedRow Γ e prev json) id).rows := by
  show HashChain.Linked _ _ ((db.rows ++ [_]).map _)
  rw [List.map_append]
  refine HashChain.linked_concat_iff.mpr ⟨h, ?_, ?_⟩
  · rw [lastLink_rows]
    exact hprev
  · rw [lastLink_rows, ← hprev]
    exact rowLink_linkedRow hjson

/-! ## The invariant -/

/-- A view of the appends by the monitor. -/
abbrev DbView : Type := View DbCall.Answer AuditDb AuditEntry DbMove AppendPhase

/-- The table is a chain, and an append that was not overtaken holds its tip. -/
structure ChainInv (Γ : Ctx) (v : DbView) : Prop where
  lost : ∀ t, (overtaken t v.log).1 = v.world.lost.isSome
  ids : v.world.rows.Pairwise (·.id < ·.id)
  chained : Chained Γ v.world.rows
  fresh : ∀ t e prev, v.phase t = some (.linking e prev) → (overtaken t v.log).2 = false →
    prev.map hashToVec = v.world.tip

theorem overtaken_concat (t : Nat) (log : List DbLabel) (l : DbLabel) :
    overtaken t (log ++ [l]) = overtakenStep t (overtaken t log) l := by
  simp only [overtaken, List.foldl_append, List.foldl_cons, List.foldl_nil]

theorem overtakenStep_insert (t : Nat) (s : Bool × Bool) (t' : Nat) (row : AuditRow) (answer : (DbCall.insert row).Answer) :
    overtakenStep t s (.call t' ⟨.insert row, answer⟩) = (s.1, s.2 || inserts s.1 (.call t' ⟨.insert row, answer⟩)) := rfl

/-- The tip an append holds after its query is the one the table answered with. -/
theorem next_linking {e e' : AuditEntry} {tip : Option Bytes} {prev : Option AuditHash}
    (h : AppendPhase.next (.querying e) .selectTip (.ok tip) = .linking e' prev) : prev.map hashToVec = tip := by
  cases tip with
  | none =>
    cases h
    rfl
  | some bytes =>
    simp only [AppendPhase.next] at h
    split at h
    · rename_i hb
      cases h
      exact congrArg some (vecToHash_ok hb)
    · cases h

/-- A query leaves the table as it is; the append that made it holds the tip. -/
theorem ChainInv.select {v : DbView} (h : ChainInv Γ v) (t : Nat) (e : AuditEntry) (answer : DbCall.selectTip.Answer)
    (ha : ∀ tip, answer = .ok tip → tip = v.world.tip) :
    ChainInv Γ ⟨v.world, Function.update v.phase t (some (AppendPhase.next (.querying e) .selectTip answer)),
      v.log ++ [.call t ⟨.selectTip, answer⟩]⟩ := by
  refine ⟨fun u => ?_, h.ids, h.chained, fun u e' prev hu hnot => ?_⟩
  · rw [overtaken_concat]
    exact h.lost u
  · simp only at hu hnot ⊢
    by_cases hut : u = t
    · subst hut
      rw [Function.update_self, Option.some.injEq] at hu
      cases answer with
      | error err => cases hu
      | ok tip => rw [next_linking hu, ha tip rfl]
    · rw [Function.update_of_ne hut] at hu
      rw [overtaken_concat, overtakenStep, if_neg (Ne.symm hut)] at hnot
      exact h.fresh u e' prev hu hnot

/-- An insert that takes effect extends the chain; every append that is between its two statements is overtaken. -/
theorem ChainInv.inserted {v : DbView} (h : ChainInv Γ v) {t : Nat} {e : AuditEntry} {prev : Option AuditHash}
    (ht : v.phase t = some (.linking e prev)) {json : String} (hjson : Γ.outcomeJson e.outcome = .ok json)
    (hnot : (overtaken t v.log).2 = false) (sequence : Int) (phase : Nat → Option AppendPhase)
    (answer : (DbCall.insert (linkedRow Γ e prev json)).Answer)
    (hins : inserts v.world.lost.isSome (.call t ⟨.insert (linkedRow Γ e prev json), answer⟩) = true) :
    ChainInv Γ ⟨v.world.insertRow (linkedRow Γ e prev json) (v.world.nextId sequence), phase,
      v.log ++ [.call t ⟨.insert (linkedRow Γ e prev json), answer⟩]⟩ := by
  refine ⟨fun u => ?_, insertRow_ids h.ids _ _, chained_insertRow h.chained hjson (h.fresh t e prev ht hnot) _,
    fun u e' prev' _ hnot' => ?_⟩
  · rw [overtaken_concat]
    exact h.lost u
  · rw [overtaken_concat, overtakenStep_insert, h.lost u, hins, Bool.or_true] at hnot'
    cases hnot'

/-- A step that leaves the rows as they are, overtakes no append and lets none hold a new tip. -/
theorem ChainInv.frame {v u : DbView} (h : ChainInv Γ v) (hrows : u.world.rows = v.world.rows)
    (hlost : ∀ t, (overtaken t u.log).1 = u.world.lost.isSome)
    (hphase : ∀ t e prev, u.phase t = some (.linking e prev) → v.phase t = some (.linking e prev))
    (hover : ∀ t, (overtaken t u.log).2 = false → (overtaken t v.log).2 = false) : ChainInv Γ u := by
  refine ⟨hlost, hrows ▸ h.ids, hrows ▸ h.chained, fun t e prev ht hnot => ?_⟩
  rw [h.fresh t e prev (hphase t e prev ht) (hover t hnot), AuditDb.tip, AuditDb.tip, hrows]

/-- A step that is no query and leaves the table as it is, whatever it makes of the append. -/
theorem ChainInv.unchanged {v : DbView} (h : ChainInv Γ v) {phase : Nat → Option AppendPhase} {l : DbLabel}
    (hl : ∀ t s, overtakenStep t s l = (s.1, s.2 || inserts s.1 l))
    (hphase : ∀ t e prev, phase t = some (.linking e prev) → v.phase t = some (.linking e prev)) :
    ChainInv Γ ⟨v.world, phase, v.log ++ [l]⟩ := by
  refine h.frame rfl (fun t => ?_) hphase (fun t hnot => ?_)
  · rw [overtaken_concat, hl]
    exact h.lost t
  · rw [overtaken_concat, hl, Bool.or_eq_false_iff] at hnot
    exact hnot.1

/-- A thread that changes to a phase that holds no tip. -/
theorem linking_of_update {phase : Nat → Option AppendPhase} {t : Nat} {s : AppendPhase}
    (hs : ∀ e prev, s ≠ .linking e prev) {u : Nat} {e : AuditEntry} {prev : Option AuditHash}
    (h : Function.update phase t (some s) u = some (.linking e prev)) : phase u = some (.linking e prev) := by
  by_cases hut : u = t
  · subst hut
    rw [Function.update_self, Option.some.injEq] at h
    exact (hs e prev h).elim
  · rwa [Function.update_of_ne hut] at h

theorem chainInv_step {v u : DbView} {l : DbLabel} (h : ChainInv Γ v) (hc : NotOvertaken v.world v.log l)
    (hs : View.Step (auditLog Γ) (appendWatch Γ) v l u) : ChainInv Γ u := by
  cases hs with
  | deliver t e hn =>
    exact h.unchanged (fun _ _ => rfl) (fun u e' prev hu => linking_of_update (fun _ _ h => by cases h) hu)
  | @env w m hw =>
    cases hw
    cases m with
    | connection lost =>
      refine h.frame rfl (fun u => ?_) (fun u e prev hu => hu) fun u hu => ?_
      · rw [overtaken_concat]
        rfl
      · rw [overtaken_concat] at hu
        exact hu
    | restart =>
      refine h.unchanged (fun _ _ => rfl) (fun u e prev hu => ?_)
      obtain ⟨s, -, hs⟩ := Option.map_eq_some_iff.mp hu
      cases hs
  | @call t s c r hp hallow =>
    cases c with
    | selectTip =>
      obtain ⟨e, rfl⟩ : ∃ e, s = .querying e := by
        cases s with
        | querying e => exact ⟨e, rfl⟩
        | linking e prev => exact hallow.elim
        | finished => exact hallow.elim
      cases r with
      | error err => exact h.select t e (.error err) (fun tip ht => by cases ht)
      | ok tip =>
        refine h.select t e (.ok v.world.tip) (fun tip ht => ?_)
        cases ht
        rfl
    | insert row =>
      obtain ⟨e, prev, rfl⟩ : ∃ e prev, s = .linking e prev := by
        cases s with
        | querying e => exact hallow.elim
        | linking e prev => exact ⟨e, prev, rfl⟩
        | finished => exact hallow.elim
      obtain ⟨json, hjson, rfl⟩ := hallow
      cases r with
      | ok sequence => exact h.inserted hp hjson (hc t _ rfl rfl) sequence _ (.ok _) rfl
      | error err =>
        -- a failed insert leaves the table as it is, unless only its answer was lost
        simp only [auditLog, AuditDb.serve] at hc ⊢
        cases hlost : v.world.lost with
        | none =>
          exact h.unchanged (fun _ _ => rfl) (fun u e' prev' hu => linking_of_update (fun _ _ h => by cases h) hu)
        | some sequence =>
          have hins : inserts v.world.lost.isSome (.call t ⟨.insert (linkedRow Γ e prev json), .error err⟩) = true := by
            rw [hlost]
            rfl
          rw [hlost] at hc
          exact h.inserted hp hjson (hc t _ rfl hins) sequence _ (.error err) hins

theorem chainInv_init (Γ : Ctx) : ChainInv Γ (View.init .empty) where
  lost := fun _ => rfl
  ids := .nil
  chained := trivial
  fresh := fun _ _ _ h => by cases h

end AuditChainAux

open AuditChainAux

/-- In every run of any number of appends in which no append is overtaken between its two statements, the rows in the order of
their ids form one chain, and recomputing it from the first row to the last gives the `entry_hash` of the last. -/
theorem audit_log_is_chain (Γ : Ctx) {p : DbPool} (h : Pool.Reach (auditLog Γ) NotOvertaken (Pool.init .empty) p) :
    p.world.rows.Pairwise (·.id < ·.id) ∧ Chained Γ p.world.rows ∧
      HashChain.tip (rowLink Γ) (p.world.rows.map (·.fieldBytes)) = p.world.tip := by
  obtain ⟨phase, hinv, -⟩ := h.invariant (append_wp Γ) (ChainInv Γ) (chainInv_init Γ)
    (fun v l u hv hc hs => chainInv_step hv hc hs)
  refine ⟨hinv.ids, hinv.chained, ?_⟩
  have htip := HashChain.Linked.lastLink_eq hinv.chained
  rw [lastLink_rows, List.map_map] at htip
  exact htip.symm

namespace AuditChainAux

/-- The answers of a table that fails no statement. -/
def dbAnswer : (c : DbCall) → Option c.Answer
  | .selectTip => some (.ok none)
  | .insert _ => some (.ok 1)

/-- Two appends, one after the other. -/
def serialAppends : List (Pool.Action DbCall DbCall.Answer AuditEntry DbMove) :=
  [.deliver 0 first, .call 0 dbAnswer, .call 0 dbAnswer, .deliver 1 second, .call 1 dbAnswer, .call 1 dbAnswer]

/-- Two appends that both read the tip before either inserts. -/
def racingAppends : List (Pool.Action DbCall DbCall.Answer AuditEntry DbMove) :=
  [.deliver 0 first, .deliver 1 second, .call 0 dbAnswer, .call 1 dbAnswer, .call 0 dbAnswer, .call 1 dbAnswer]

/-- The condition of the runs, as a test. -/
def notOvertakenStep (db : AuditDb) (log : List DbLabel) : DbLabel → Bool
  | .call t e => !inserts db.lost.isSome (.call t e) || !(overtaken t log).2
  | _ => true

theorem notOvertaken_of_step {db : AuditDb} {log : List DbLabel} {l : DbLabel} (h : notOvertakenStep db log l = true) :
    NotOvertaken db log l := by
  rintro t e rfl hins
  simpa [notOvertakenStep, hins] using h

end AuditChainAux

/-- Two appends made one after the other leave two rows, the second linked to the first. -/
theorem audit_log_is_chain_run : ∃ p : DbPool,
    Pool.Reach (auditLog auditCtx) NotOvertaken (Pool.init .empty) p ∧
    p.world.rows.map (·.prevHash) = [none, some firstDigest.toList] ∧ Chained auditCtx p.world.rows := by
  have hrun : ((Pool.init .empty : DbPool).exec (auditLog auditCtx) notOvertakenStep serialAppends).any
      (fun p => decide (p.world.rows.map (·.prevHash) = [none, some firstDigest.toList])) = true := by
    decide +kernel
  obtain ⟨p, hp, ht⟩ := Pool.exists_reach_of_exec (fun _ _ _ h => notOvertaken_of_step h) hrun
  exact ⟨p, hp, of_decide_eq_true ht, (audit_log_is_chain auditCtx hp).2.1⟩

/-- Two appends that read the same tip leave two rows without a `prev_hash`: the chain is forked at its start. -/
theorem racing_appends_fork : ¬∀ (Γ : Ctx) (p : DbPool),
    Pool.Reach (auditLog Γ) (fun _ _ _ => True) (Pool.init .empty) p → Chained Γ p.world.rows := by
  intro h
  have hrun : ((Pool.init .empty : DbPool).exec (auditLog auditCtx) (fun _ _ _ => true) racingAppends).any
      (fun p => decide (p.world.rows.map (·.prevHash) = [none, none])) = true := by
    decide +kernel
  obtain ⟨p, hp, ht⟩ := Pool.exists_reach_of_exec (fun _ _ _ _ => trivial) hrun
  have hchained := h auditCtx p hp
  obtain ⟨r, rs, hrows, -, hrest⟩ := List.map_eq_cons_iff.mp (of_decide_eq_true ht)
  obtain ⟨r', rs', rfl, hr', -⟩ := List.map_eq_cons_iff.mp hrest
  rw [hrows] at hchained
  -- the second row would have to name the first
  have hlink : r'.prevHash = some r.entryHash := hchained.2.2.1
  rw [hr'] at hlink
  cases hlink

end ChainBridge
