import Mathlib.Data.List.Dedup
import Mathlib.Data.List.Perm.Basic

/-!
# Records kept by many parties

Many parties take steps. Some steps have to be recorded, and to record one is a step of its own. Where each party by itself has
at most one record outstanding, the records of all of them together are what had to be recorded but for at most one step of
each party, however the parties interleave (`outstanding_of_settled`).
-/

namespace Interleave

variable {K α β : Type}

/-- What had to be recorded was recorded, in that order, but for at most one that is outstanding. -/
def Settled (due paid : α → Option β) (steps : List α) (outstanding : Option β) : Prop :=
  steps.filterMap due = steps.filterMap paid ++ outstanding.toList

theorem settled_nil (due paid : α → Option β) : Settled due paid [] none := rfl

section Snoc

variable {due paid : α → Option β} {steps : List α} {o : Option β} {a : α}

theorem filterMap_snoc (f : α → Option β) (steps : List α) (a : α) :
    (steps ++ [a]).filterMap f = steps.filterMap f ++ (f a).toList := by
  rw [List.filterMap_append]
  cases h : f a <;> simp [h]

/-- A step that neither has to be recorded nor records. -/
theorem Settled.other (h : Settled due paid steps o) (hdue : due a = none) (hpaid : paid a = none) :
    Settled due paid (steps ++ [a]) o := by
  rw [Settled, filterMap_snoc, filterMap_snoc, hdue, hpaid, Option.toList_none, List.append_nil, List.append_nil]
  exact h

/-- A step that has to be recorded, when nothing is outstanding. -/
theorem Settled.incur (h : Settled due paid steps none) {b : β} (hdue : due a = some b) (hpaid : paid a = none) :
    Settled due paid (steps ++ [a]) (some b) := by
  rw [Settled, Option.toList_none, List.append_nil] at h
  rw [Settled, filterMap_snoc, filterMap_snoc, hdue, hpaid, Option.toList_none, List.append_nil, h]

/-- The record of what is outstanding. -/
theorem Settled.pay {b : β} (h : Settled due paid steps (some b)) (hdue : due a = none) (hpaid : paid a = some b) :
    Settled due paid (steps ++ [a]) none := by
  rw [Settled, filterMap_snoc, filterMap_snoc, hdue, hpaid, Option.toList_none, List.append_nil, List.append_nil]
  exact h

end Snoc

/-- The parties with something outstanding are among all of them. -/
theorem sublist_keys (outstanding : K → Option β) (ks : List K) :
    ((ks.filterMap fun k => (outstanding k).map (k, ·)).map (·.1)).Sublist ks := by
  induction ks with
  | nil => exact List.Sublist.refl _
  | cons k ks ih =>
    cases h : outstanding k with
    | none => simpa [h] using ih.cons k
    | some b => simpa [h] using ih.cons_cons k

section Parties

variable [DecidableEq K]

/-- The steps of one party. -/
def stepsBy (k : K) (steps : List (K × α)) : List (K × α) := steps.filter fun s => s.1 = k

theorem stepsBy_cons_self (s : K × α) (steps : List (K × α)) : stepsBy s.1 (s :: steps) = s :: stepsBy s.1 steps := by
  simp [stepsBy]

theorem stepsBy_cons_ne {k : K} {s : K × α} (h : s.1 ≠ k) (steps : List (K × α)) : stepsBy k (s :: steps) = stepsBy k steps := by
  simp [stepsBy, h]

/-- The steps, party by party. -/
theorem perm_stepsBy {ks : List K} (hks : ks.Nodup) {steps : List (K × α)} (h : ∀ s ∈ steps, s.1 ∈ ks) :
    steps.Perm (ks.flatMap fun k => stepsBy k steps) := by
  induction steps with
  | nil => simp [stepsBy]
  | cons s steps ih =>
    obtain ⟨hs, hsteps⟩ := List.forall_mem_cons.mp h
    obtain ⟨as, bs, rfl⟩ := List.append_of_mem hs
    obtain ⟨-, hbs, hdisj⟩ := List.nodup_append.mp hks
    have has : ∀ k ∈ as, stepsBy k (s :: steps) = stepsBy k steps := fun k hk =>
      stepsBy_cons_ne (fun he => hdisj k hk s.1 List.mem_cons_self he.symm) steps
    have hbs' : ∀ k ∈ bs, stepsBy k (s :: steps) = stepsBy k steps := fun k hk =>
      stepsBy_cons_ne (fun he => (List.nodup_cons.mp hbs).1 (he ▸ hk)) steps
    have hrest := ih hsteps
    rw [List.flatMap_append, List.flatMap_cons] at hrest ⊢
    rw [List.flatMap_congr has, List.flatMap_congr hbs', stepsBy_cons_self, List.cons_append]
    exact (hrest.cons s).trans List.perm_middle.symm

/-- When every party by itself has at most one record outstanding, the records of all of them are what had to be recorded, but
for at most one step of each party. -/
theorem outstanding_of_settled {due paid : K × α → Option β} {steps : List (K × α)} {outstanding : K → Option β}
    (h : ∀ k, Settled due paid (stepsBy k steps) (outstanding k)) :
    ∃ owed : List (K × β), (owed.map (·.1)).Nodup ∧ (∀ p ∈ owed, outstanding p.1 = some p.2) ∧
      (steps.filterMap due).Perm (steps.filterMap paid ++ owed.map (·.2)) := by
  have hks : (steps.map (·.1)).dedup.Nodup := List.nodup_dedup _
  have hperm := perm_stepsBy hks fun s hs => List.mem_dedup.mpr (List.mem_map_of_mem (f := (·.1)) hs)
  generalize (steps.map (·.1)).dedup = ks at hks hperm
  refine ⟨ks.filterMap fun k => (outstanding k).map (k, ·), ?_, ?_, ?_⟩
  · exact hks.sublist (sublist_keys outstanding ks)
  · intro p hp
    obtain ⟨k, -, hk⟩ := List.mem_filterMap.mp hp
    obtain ⟨b, hb, rfl⟩ := Option.map_eq_some_iff.mp hk
    exact hb
  · have howed : (ks.filterMap fun k => (outstanding k).map (k, ·)).map (·.2) = ks.flatMap fun k => (outstanding k).toList := by
      rw [List.map_filterMap, List.filterMap_eq_flatMap_toList]
      refine List.flatMap_congr fun k _ => ?_
      cases outstanding k <;> rfl
    have hdue : (ks.flatMap fun k => stepsBy k steps).filterMap due =
        ks.flatMap fun k => (stepsBy k steps).filterMap paid ++ (outstanding k).toList := by
      rw [List.filterMap_flatMap]
      exact List.flatMap_congr fun k _ => h k
    have hpaid : (steps.filterMap paid).Perm (ks.flatMap fun k => (stepsBy k steps).filterMap paid) := by
      rw [← List.filterMap_flatMap]
      exact hperm.filterMap paid
    rw [howed]
    refine ((hperm.filterMap due).trans (.of_eq hdue)).trans ?_
    exact (List.flatMap_append_perm ks _ _).symm.trans (hpaid.symm.append_right _)

end Parties

end Interleave
