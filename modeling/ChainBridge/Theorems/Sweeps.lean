import ChainBridge.Lemmas.StoreRuns

/-!
# Sweeps are invisible

A claim takes an expired record for a missing one, by the comparison a sweep drops it by. So two runs that differ in their sweeps
only keep the same unexpired records, and their claims return the same. The clock of a run is read by its claims and its sweeps,
and never goes back.
-/

namespace ChainBridge

open Interleave

/-- The run without its sweeps. -/
def withoutSweeps (run : List StoreStep) : List StoreStep := run.filter fun s => !s.isSweep

/-- The clock readings of a run, in order. -/
def clockReadings (run : List StoreStep) : List Nat := run.filterMap StoreStep.reading

/-- The clock never goes back in a run. -/
def Nondecreasing (run : List StoreStep) : Prop := (clockReadings run).Pairwise (· ≤ ·)

instance (run : List StoreStep) : Decidable (Nondecreasing run) :=
  inferInstanceAs (Decidable ((clockReadings run).Pairwise (· ≤ ·)))

/-- Two stores have the same records among those that are unexpired at a reading. -/
def AgreeAt (nowMs : Nat) (store store' : DedupStore) : Prop :=
  ∀ key rec, nowMs < rec.expiryMs → (store.get? key = some rec ↔ store'.get? key = some rec)

/-- A claim that meets no unexpired record takes the key. -/
theorem claimOrReplay_free {store : DedupStore} {key c : String} {now : Nat} (h : ∀ rec, store.get? key = some rec → rec.expiryMs ≤ now) :
    claimOrReplay store (some key) c now = (none, store.insert key (claimAt now)) := by
  simp only [claimOrReplay]
  cases hrec : store.get? key with
  | none => rfl
  | some rec =>
    have hexp := h rec hrec
    simp only [if_neg (Nat.not_lt.mpr hexp)]

namespace AgreeAt

variable {now now' : Nat} {store store' : DedupStore}

theorem refl (now : Nat) (store : DedupStore) : AgreeAt now store store := fun _ _ _ => Iff.rfl

theorem symm (h : AgreeAt now store store') : AgreeAt now store' store := fun key rec hlive => (h key rec hlive).symm

theorem trans {store'' : DedupStore} (h : AgreeAt now store store') (h' : AgreeAt now store' store'') :
    AgreeAt now store store'' := fun key rec hlive => (h key rec hlive).trans (h' key rec hlive)

/-- What is unexpired later is unexpired now. -/
theorem later (h : AgreeAt now store store') (hle : now ≤ now') : AgreeAt now' store store' :=
  fun key rec hlive => h key rec (Nat.lt_of_le_of_lt hle hlive)

theorem insert (h : AgreeAt now store store') (key : String) (rec : DedupRecord) :
    AgreeAt now (store.insert key rec) (store'.insert key rec) := by
  intro k r hlive
  by_cases hk : k = key
  · subst hk
    rw [KeyMap.get?_insert_self, KeyMap.get?_insert_self]
  · rw [KeyMap.get?_insert_of_ne _ _ hk, KeyMap.get?_insert_of_ne _ _ hk]
    exact h k r hlive

theorem remove (h : AgreeAt now store store') (key : String) : AgreeAt now (store.remove key) (store'.remove key) := by
  intro k r hlive
  by_cases hk : k = key
  · subst hk
    rw [KeyMap.get?_remove_self, KeyMap.get?_remove_self]
  · rw [KeyMap.get?_remove_of_ne _ hk, KeyMap.get?_remove_of_ne _ hk]
    exact h k r hlive

/-- A sweep drops nothing that is unexpired at its reading. -/
theorem swept (now : Nat) (store : DedupStore) : AgreeAt now (sweepDedup store now) store := by
  intro key rec hlive
  constructor
  · exact KeyMap.get?_of_get?_retain _ _
  · intro hrec
    exact Claims.get?_sweepDedup hrec hlive

/-- A claim returns the same from stores that agree at its reading, and they agree afterwards. -/
theorem claim (h : AgreeAt now store store') (key : Option String) (c : String) :
    (claimOrReplay store key c now).1 = (claimOrReplay store' key c now).1 ∧
      AgreeAt now (claimOrReplay store key c now).2 (claimOrReplay store' key c now).2 := by
  cases key with
  | none => exact ⟨rfl, h⟩
  | some key =>
    by_cases hlive : ∃ rec, store.get? key = some rec ∧ now < rec.expiryMs
    · obtain ⟨rec, hrec, hexp⟩ := hlive
      rw [claimOrReplay_live c hrec hexp, claimOrReplay_live c ((h key rec hexp).mp hrec) hexp]
      exact ⟨rfl, h⟩
    · have hfree : ∀ rec, store.get? key = some rec → rec.expiryMs ≤ now := fun rec hrec =>
        Nat.not_lt.mp fun hexp => hlive ⟨rec, hrec, hexp⟩
      have hfree' : ∀ rec, store'.get? key = some rec → rec.expiryMs ≤ now := fun rec hrec =>
        Nat.not_lt.mp fun hexp => hlive ⟨rec, (h key rec hexp).mpr hrec, hexp⟩
      rw [claimOrReplay_free hfree, claimOrReplay_free hfree']
      exact ⟨rfl, h.insert key (claimAt now)⟩

/-- A step that is no sweep, at a reading at which the stores agree: the same answer, and they agree afterwards. -/
theorem apply (h : AgreeAt now store store') {s : StoreStep} (hs : s.isSweep = false)
    (hnow : ∀ n, s.reading = some n → n = now) :
    s.result store = s.result store' ∧ AgreeAt now (s.apply store) (s.apply store') := by
  cases s with
  | claim t e a c n =>
    obtain rfl := hnow n rfl
    obtain ⟨hresult, hafter⟩ := h.claim (dedupKey e a) c
    exact ⟨congrArg (fun r => some (t, e, r)) hresult, hafter⟩
  | success t e a rec =>
    refine ⟨rfl, ?_⟩
    simp only [StoreStep.apply]
    cases dedupKey e a with
    | none => exact h
    | some key => exact h.insert key rec
  | failure t e a =>
    refine ⟨rfl, ?_⟩
    simp only [StoreStep.apply]
    cases dedupKey e a with
    | none => exact h
    | some key => exact h.remove key
  | sweep n => cases hs

end AgreeAt

namespace SweepsAux

variable {now : Nat} {store store' : DedupStore}

theorem clockReadings_cons (s : StoreStep) (run : List StoreStep) :
    clockReadings (s :: run) = s.reading.toList ++ clockReadings run := by
  cases hs : s.reading <;> simp [clockReadings, hs]

/-- The clock after the first step of a run: its reading, or the one before. -/
theorem clock_cons {s : StoreStep} {run : List StoreStep} (hfrom : ∀ n ∈ clockReadings (s :: run), now ≤ n)
    (hrun : Nondecreasing (s :: run)) :
    ∃ next, now ≤ next ∧ (next = now ∨ next ∈ clockReadings (s :: run)) ∧ (∀ n, s.reading = some n → n = next) ∧
      (∀ n ∈ clockReadings run, next ≤ n) ∧ Nondecreasing run := by
  rw [Nondecreasing, clockReadings_cons] at hrun
  rw [clockReadings_cons] at hfrom ⊢
  cases hs : s.reading with
  | none =>
    rw [hs] at hrun hfrom
    exact ⟨now, Nat.le_refl _, Or.inl rfl, fun n hn => (by cases hn), hfrom, hrun⟩
  | some n =>
    rw [hs] at hrun hfrom
    obtain ⟨hfirst, hrest⟩ := List.pairwise_cons.mp hrun
    exact ⟨n, hfrom n List.mem_cons_self, Or.inr List.mem_cons_self, fun m hm => (Option.some.inj hm).symm, hfirst, hrest⟩

/-- Deleting the sweeps of a run, from stores that agree at a reading the run does not go behind. -/
theorem sweeps_deleted (run : List StoreStep) (h : AgreeAt now store store') (hfrom : ∀ n ∈ clockReadings run, now ≤ n)
    (hrun : Nondecreasing run) :
    claimResults store run = claimResults store' (withoutSweeps run) ∧
      ∀ later, now ≤ later → (∀ n ∈ clockReadings run, n ≤ later) →
        AgreeAt later (replay store run) (replay store' (withoutSweeps run)) := by
  induction run generalizing store store' now with
  | nil => exact ⟨rfl, fun later hle _ => h.later hle⟩
  | cons s run ih =>
    obtain ⟨next, hle, hnext, hreading, hfrom', hrun'⟩ := clock_cons hfrom hrun
    have hagree := h.later hle
    -- a reading beyond the run is beyond the clock after its first step
    have hbeyond : ∀ later, now ≤ later → (∀ n ∈ clockReadings (s :: run), n ≤ later) →
        next ≤ later ∧ ∀ n ∈ clockReadings run, n ≤ later := by
      intro later hl hall
      refine ⟨hnext.elim (fun hn => hn ▸ hl) (hall next), fun n hn => hall n ?_⟩
      rw [clockReadings_cons]
      exact List.mem_append_right _ hn
    cases hs : s.isSweep with
    | true =>
      have hdrop : withoutSweeps (s :: run) = withoutSweeps run := by simp [withoutSweeps, hs]
      have hsweep : AgreeAt next (s.apply store) store' ∧ s.result store = none := by
        cases s with
        | sweep n =>
          obtain rfl := hreading n rfl
          exact ⟨(AgreeAt.swept n store).trans hagree, rfl⟩
        | _ => cases hs
      obtain ⟨hresults, hlater⟩ := ih hsweep.1 hfrom' hrun'
      rw [hdrop, claimResults, hsweep.2, Option.toList_none, List.nil_append, replay_cons]
      exact ⟨hresults, fun later hl hall => hlater later (hbeyond later hl hall).1 (hbeyond later hl hall).2⟩
    | false =>
      have hkeep : withoutSweeps (s :: run) = s :: withoutSweeps run := by simp [withoutSweeps, hs]
      obtain ⟨hresult, hstep⟩ := hagree.apply hs hreading
      obtain ⟨hresults, hlater⟩ := ih hstep hfrom' hrun'
      rw [hkeep, claimResults, claimResults, hresult, hresults, replay_cons, replay_cons]
      exact ⟨rfl, fun later hl hall => hlater later (hbeyond later hl hall).1 (hbeyond later hl hall).2⟩

/-- A run returns to its claims what it returns without its sweeps. -/
theorem claimResults_withoutSweeps (store : DedupStore) {run : List StoreStep} (hrun : Nondecreasing run) :
    claimResults store run = claimResults store (withoutSweeps run) :=
  (sweeps_deleted run (AgreeAt.refl 0 store) (fun _ _ => Nat.zero_le _) hrun).1

/-- The store after a run agrees with the one without its sweeps at every reading from its last on. -/
theorem agreeAt_withoutSweeps (store : DedupStore) {run : List StoreStep} (hrun : Nondecreasing run) {now : Nat}
    (hnow : ∀ n ∈ clockReadings run, n ≤ now) : AgreeAt now (replay store run) (replay store (withoutSweeps run)) :=
  (sweeps_deleted run (AgreeAt.refl 0 store) (fun _ _ => Nat.zero_le _) hrun).2 now (Nat.zero_le _) hnow

theorem Nondecreasing.take {run : List StoreStep} (hrun : Nondecreasing run) (n : Nat) : Nondecreasing (run.take n) :=
  List.Pairwise.sublist ((List.take_sublist n run).filterMap StoreStep.reading) hrun

end SweepsAux

open SweepsAux

/-- Sweeps are invisible. Two runs of claims, successes, failures and sweeps, from one store and with clocks that never go back,
that are the same without their sweeps: every claim returns the same in both, and wherever they have come to the same step, their
stores have the same records among those that are unexpired at the clock. -/
theorem sweeps_invisible (store : DedupStore) {run run' : List StoreStep} (hsame : withoutSweeps run = withoutSweeps run')
    (hrun : Nondecreasing run) (hrun' : Nondecreasing run') :
    claimResults store run = claimResults store run' ∧
    ∀ n n' nowMs, withoutSweeps (run.take n) = withoutSweeps (run'.take n') →
      (∀ r ∈ clockReadings (run.take n) ++ clockReadings (run'.take n'), r ≤ nowMs) →
      AgreeAt nowMs (replay store (run.take n)) (replay store (run'.take n')) := by
  constructor
  · rw [claimResults_withoutSweeps store hrun, claimResults_withoutSweeps store hrun', hsame]
  · intro n n' nowMs hpoint hclock
    have h := agreeAt_withoutSweeps store (Nondecreasing.take hrun n) fun r hr => hclock r (List.mem_append_left _ hr)
    have h' := agreeAt_withoutSweeps store (Nondecreasing.take hrun' n') fun r hr => hclock r (List.mem_append_right _ hr)
    rw [hpoint] at h
    exact h.trans h'.symm

/-- A record expires, a sweep drops it at that reading, and its key is claimed again. -/
def SweepsAux.expiryRun : List StoreStep :=
  [.claim 0 .submit "k" "c" 1000, .success 0 .submit "k" (doneAt 1000 "sig" 7), .sweep 121000,
    .claim 1 .submit "k" "d" 121000]

/-- The claim at the reading at which the record expires goes through, with the sweep before it and without. -/
theorem sweep_at_expiry_invisible :
    claimResults .empty expiryRun = [(0, .submit, none), (1, .submit, none)] ∧
    claimResults .empty (withoutSweeps expiryRun) = [(0, .submit, none), (1, .submit, none)] := by
  have hsame : withoutSweeps expiryRun = withoutSweeps (withoutSweeps expiryRun) := by decide
  have hresults : claimResults .empty expiryRun = [(0, .submit, none), (1, .submit, none)] := by decide
  have hswept := (sweeps_invisible .empty hsame (by decide) (by decide)).1
  exact ⟨hresults, hswept.symm.trans hresults⟩

/-- A session whose claims and sweeps read the clock in order answers its claims as it would with any other sweeps. -/
theorem session_answers_without_sweeps {Γ : Ctx} {w : Session} {p : BridgePool}
    (h : Pool.Reach (bridge Γ) (fun _ _ l => InSession l) (Pool.init w) p) (hclock : Nondecreasing (storeRun p.log))
    {run : List StoreStep} (hsame : withoutSweeps run = withoutSweeps (storeRun p.log)) (hrun : Nondecreasing run) :
    (claimResults w.dedupStore run).map (fun out => (out.1, out.2.2)) = claimAnswers p.log := by
  rw [claimResults_withoutSweeps _ hrun, hsame, ← claimResults_withoutSweeps _ hclock]
  exact (session_replays h).2

end ChainBridge
