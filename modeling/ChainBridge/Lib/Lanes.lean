import ChainBridge.Lib.Pool
import Mathlib.Data.List.Nodup
import Mathlib.Data.List.Perm.Subperm

/-!
# Pools with bounded admission

A pool starts a thread for any message at any time. Here messages come in by lanes: a lane takes the messages it is for, and only
while fewer threads than its limit are in flight; a thread stays in flight until it has returned. A hall is a pool with what is in
flight in each lane. Its steps are steps of the pool (`Hall.pool_of_act`), and its running threads are in flight in a lane that
takes their messages (`Hall.Ok`), so a lane never works on more messages at once than its limit (`Hall.Ok.running_le`).
-/

namespace Interleave

/-- For each lane, how many threads may be in flight, and which messages it takes. -/
structure Lanes (L M : Type) where
  limit : L → Nat
  takes : L → M → Bool

/-- A pool, and the threads in flight in each lane. -/
structure Hall (ι : Type) (ρ : ι → Type) (W M E L : Type) where
  pool : Pool ι ρ W M E
  inFlight : L → List Nat

namespace Pool

variable {ι : Type} {ρ : ι → Type} {W M E : Type}

/-- A thread that has not returned. -/
def Running (p : Pool ι ρ W M E) (t : Nat) (m : M) : Prop := ∃ i k, p.threads t = some (m, .call i k)

/-- Whether a thread has returned. -/
def returned (p : Pool ι ρ W M E) (t : Nat) : Bool :=
  match p.threads t with
  | some (_, .ret ()) => true
  | _ => false

theorem not_running_of_returned {p : Pool ι ρ W M E} {t : Nat} (h : p.returned t = true) (m : M) : ¬p.Running t m := by
  rintro ⟨i, k, hk⟩
  rw [returned, hk] at h
  cases h

end Pool

namespace Hall

variable {ι : Type} {ρ : ι → Type} {W M E L : Type} [DecidableEq L]

/-- A hall with no thread. -/
def init (w : W) : Hall ι ρ W M E L := { pool := Pool.init w, inFlight := fun _ => [] }

/-- A step asked for: a message taken by a lane, a call of a thread, a thread that has returned leaving its lane, a move of the
environment. -/
inductive Action (ι : Type) (ρ : ι → Type) (M E L : Type) where
  | spawn (l : L) (t : Nat) (m : M)
  | call (t : Nat) (answer : (i : ι) → Option (ρ i))
  | retire (l : L) (t : Nat)
  | env (e : E)

/-- The hall after a step asked for, if it is possible. A move that cuts off the threads empties the lanes. -/
def act (S : System ι ρ W M E) (A : Lanes L M) (h : Hall ι ρ W M E L) : Action ι ρ M E L → Option (Hall ι ρ W M E L)
  | .spawn l t m =>
    if A.takes l m = true ∧ (h.inFlight l).length < A.limit l then
      (h.pool.act S (.deliver t m)).map fun out =>
        { pool := out.2, inFlight := Function.update h.inFlight l (t :: h.inFlight l) }
    else none
  | .call t answer => (h.pool.act S (.call t answer)).map fun out => { h with pool := out.2 }
  | .retire l t =>
    if t ∈ h.inFlight l ∧ h.pool.returned t = true then
      some { h with inFlight := Function.update h.inFlight l ((h.inFlight l).erase t) }
    else none
  | .env e => (h.pool.act S (.env e)).map fun out =>
      { pool := out.2, inFlight := if S.cuts e = true then fun _ => [] else h.inFlight }

/-- What is in flight: every running thread, in a lane that takes its message; each thread in one place; and no more than the
limit of a lane. -/
structure Ok (A : Lanes L M) (h : Hall ι ρ W M E L) : Prop where
  running : ∀ t m, h.pool.Running t m → ∃ l, t ∈ h.inFlight l ∧ A.takes l m = true
  started : ∀ l t, t ∈ h.inFlight l → h.pool.threads t ≠ none
  nodup : ∀ l, (h.inFlight l).Nodup
  within : ∀ l, (h.inFlight l).length ≤ A.limit l

section Step

variable {S : System ι ρ W M E} {A : Lanes L M} {h h' : Hall ι ρ W M E L} {a : Action ι ρ M E L}

omit [DecidableEq L] in
theorem ok_init (A : Lanes L M) (w : W) : Ok A (init w : Hall ι ρ W M E L) where
  running := fun t m ⟨i, k, hk⟩ => by cases hk
  started := fun l t ht => by cases ht
  nodup := fun l => List.nodup_nil
  within := fun l => Nat.zero_le _

/-- A step of a hall is a step of its pool, or leaves it. -/
theorem pool_of_act (hact : h.act S A a = some h') : h'.pool = h.pool ∨ ∃ l, Pool.Step S h.pool l h'.pool := by
  cases a with
  | spawn l t m =>
    simp only [act] at hact
    split at hact
    · obtain ⟨out, hout, rfl⟩ := Option.map_eq_some_iff.mp hact
      exact Or.inr ⟨_, Pool.step_of_act hout⟩
    · cases hact
  | call t answer =>
    obtain ⟨out, hout, rfl⟩ := Option.map_eq_some_iff.mp hact
    exact Or.inr ⟨_, Pool.step_of_act hout⟩
  | retire l t =>
    simp only [act] at hact
    split at hact
    · cases hact
      exact Or.inl rfl
    · cases hact
  | env e =>
    obtain ⟨out, hout, rfl⟩ := Option.map_eq_some_iff.mp hact
    exact Or.inr ⟨_, Pool.step_of_act hout⟩

omit [DecidableEq L] in
/-- A pool in which no more threads run, and all that were delivered still are, keeps what is in flight. -/
theorem Ok.of_pool {p : Pool ι ρ W M E} (hok : Ok A h) (hrun : ∀ t m, p.Running t m → h.pool.Running t m)
    (hthreads : ∀ t, h.pool.threads t ≠ none → p.threads t ≠ none) : Ok A { h with pool := p } where
  running := fun t m hr => hok.running t m (hrun t m hr)
  started := fun l t ht => hthreads t (hok.started l t ht)
  nodup := hok.nodup
  within := hok.within

omit [DecidableEq L] in
/-- A call of a thread keeps what is in flight. -/
theorem Ok.call {t : Nat} {m : M} {i : ι} {k : ρ i → Prog ι ρ Unit} {q : Prog ι ρ Unit} {p : Pool ι ρ W M E} (hok : Ok A h)
    (hth : h.pool.threads t = some (m, .call i k)) (hp : p.threads = Function.update h.pool.threads t (some (m, q))) :
    Ok A { h with pool := p } := by
  have hself : p.threads t = some (m, q) := by
    rw [hp, Function.update_self]
  have hother : ∀ t', t' ≠ t → p.threads t' = h.pool.threads t' := fun t' ht => by
    rw [hp, Function.update_of_ne ht]
  refine hok.of_pool (fun t' m' ⟨i', k', hk'⟩ => ?_) fun t' ht' => ?_
  · by_cases ht : t' = t
    · subst ht
      obtain rfl : m = m' := congrArg Prod.fst (Option.some.inj (hself.symm.trans hk'))
      exact ⟨i, k, hth⟩
    · exact ⟨i', k', (hother t' ht).symm.trans hk'⟩
  · by_cases ht : t' = t
    · subst ht
      rw [hself]
      exact Option.some_ne_none _
    · rwa [hother t' ht]

/-- What a lane takes is in flight there. -/
theorem Ok.spawn {l : L} {t : Nat} {m : M} {q : Prog ι ρ Unit} {p : Pool ι ρ W M E} (hok : Ok A h)
    (htakes : A.takes l m = true) (hlimit : (h.inFlight l).length < A.limit l) (hnone : h.pool.threads t = none)
    (hp : p.threads = Function.update h.pool.threads t (some (m, q))) :
    Ok A { pool := p, inFlight := Function.update h.inFlight l (t :: h.inFlight l) } := by
  have hself : p.threads t = some (m, q) := by
    rw [hp, Function.update_self]
  have hother : ∀ t', t' ≠ t → p.threads t' = h.pool.threads t' := fun t' ht => by
    rw [hp, Function.update_of_ne ht]
  have hin : Function.update h.inFlight l (t :: h.inFlight l) l = t :: h.inFlight l := Function.update_self ..
  have hout : ∀ l', l' ≠ l → Function.update h.inFlight l (t :: h.inFlight l) l' = h.inFlight l' := fun l' hl =>
    Function.update_of_ne hl ..
  generalize Function.update h.inFlight l (t :: h.inFlight l) = inFlight at hin hout
  refine ⟨fun t' m' ⟨i, k, hk⟩ => ?_, fun l' t' ht' => ?_, fun l' => ?_, fun l' => ?_⟩
  · by_cases ht : t' = t
    · subst ht
      cases hself.symm.trans hk
      exact ⟨l, (hin ▸ List.mem_cons_self : t' ∈ inFlight l), htakes⟩
    · obtain ⟨l', hl', htakes'⟩ := hok.running t' m' ⟨i, k, (hother t' ht).symm.trans hk⟩
      refine ⟨l', ?_, htakes'⟩
      by_cases hl : l' = l
      · subst hl
        exact (hin ▸ List.mem_cons_of_mem t hl' : t' ∈ inFlight l')
      · exact (hout l' hl ▸ hl' : t' ∈ inFlight l')
  · by_cases ht : t' = t
    · subst ht
      exact fun h => Option.some_ne_none _ (hself.symm.trans h)
    · have hold : t' ∈ h.inFlight l' := by
        by_cases hl : l' = l
        · subst hl
          exact (List.mem_cons.mp (hin ▸ (ht' : t' ∈ inFlight l'))).resolve_left ht
        · exact hout l' hl ▸ (ht' : t' ∈ inFlight l')
      exact fun h => hok.started l' t' hold ((hother t' ht).symm.trans h)
  · by_cases hl : l' = l
    · subst hl
      exact (hin ▸ List.nodup_cons.mpr ⟨fun hmem => hok.started l' t hmem hnone, hok.nodup l'⟩ : (inFlight l').Nodup)
    · exact (hout l' hl ▸ hok.nodup l' : (inFlight l').Nodup)
  · by_cases hl : l' = l
    · subst hl
      exact (hin ▸ hlimit : (inFlight l').length ≤ A.limit l')
    · exact (hout l' hl ▸ hok.within l' : (inFlight l').length ≤ A.limit l')

/-- A thread that has returned leaves its lane. -/
theorem Ok.retire {l : L} {t : Nat} (hok : Ok A h) (hret : h.pool.returned t = true) :
    Ok A { h with inFlight := Function.update h.inFlight l ((h.inFlight l).erase t) } := by
  have hin : Function.update h.inFlight l ((h.inFlight l).erase t) l = (h.inFlight l).erase t := Function.update_self ..
  have hout : ∀ l', l' ≠ l → Function.update h.inFlight l ((h.inFlight l).erase t) l' = h.inFlight l' := fun l' hl =>
    Function.update_of_ne hl ..
  generalize Function.update h.inFlight l ((h.inFlight l).erase t) = inFlight at hin hout
  refine ⟨fun t' m' hr => ?_, fun l' t' ht' => hok.started l' t' ?_, fun l' => ?_, fun l' => ?_⟩
  · obtain ⟨l', hl', htakes⟩ := hok.running t' m' hr
    refine ⟨l', ?_, htakes⟩
    by_cases hl : l' = l
    · subst hl
      have ht : t' ≠ t := by
        rintro rfl
        exact Pool.not_running_of_returned hret m' hr
      exact (hin ▸ (List.mem_erase_of_ne ht).mpr hl' : t' ∈ inFlight l')
    · exact (hout l' hl ▸ hl' : t' ∈ inFlight l')
  · have hmem : t' ∈ inFlight l' := ht'
    by_cases hl : l' = l
    · subst hl
      rw [hin] at hmem
      exact List.mem_of_mem_erase hmem
    · rwa [hout l' hl] at hmem
  · by_cases hl : l' = l
    · subst hl
      exact (hin ▸ (hok.nodup l').erase t : (inFlight l').Nodup)
    · exact (hout l' hl ▸ hok.nodup l' : (inFlight l').Nodup)
  · by_cases hl : l' = l
    · subst hl
      exact (hin ▸ Nat.le_trans (List.length_erase_le ..) (hok.within l') : (inFlight l').length ≤ A.limit l')
    · exact (hout l' hl ▸ hok.within l' : (inFlight l').length ≤ A.limit l')

/-- Every step keeps what is in flight. -/
theorem Ok.act (hok : Ok A h) (hact : h.act S A a = some h') : Ok A h' := by
  cases a with
  | spawn l t m =>
    simp only [Hall.act] at hact
    split at hact
    · rename_i hspawn
      obtain ⟨out, hout, rfl⟩ := Option.map_eq_some_iff.mp hact
      simp only [Pool.act] at hout
      split at hout
      · rename_i hnone
        cases hout
        exact hok.spawn hspawn.1 hspawn.2 hnone rfl
      · cases hout
    · cases hact
  | call t answer =>
    obtain ⟨out, hout, rfl⟩ := Option.map_eq_some_iff.mp hact
    simp only [Pool.act] at hout
    split at hout
    · rename_i m i k hth
      obtain ⟨r, -, rfl⟩ := Option.map_eq_some_iff.mp hout
      exact hok.call hth rfl
    · cases hout
  | retire l t =>
    simp only [Hall.act] at hact
    split at hact
    · rename_i hret
      cases hact
      exact hok.retire hret.2
    · cases hact
  | env e =>
    obtain ⟨out, hout, rfl⟩ := Option.map_eq_some_iff.mp hact
    obtain ⟨w, -, rfl⟩ := Option.map_eq_some_iff.mp hout
    cases hcut : S.cuts e with
    | false => exact hok.of_pool (fun _ _ hr => hr) (fun _ ht => ht)
    | true =>
      refine ⟨fun t m hrun => ?_, fun l t ht => (by cases ht), fun l => List.nodup_nil, fun l => Nat.zero_le _⟩
      obtain ⟨i, k, hk⟩ := hrun
      obtain ⟨th, -, hth⟩ := Option.map_eq_some_iff.mp hk
      cases hth

/-- What is in flight after a step was so before, or was just taken by its lane. -/
theorem inFlight_of_act (hact : h.act S A a = some h') {l : L} {t : Nat} (ht : t ∈ h'.inFlight l) :
    t ∈ h.inFlight l ∨ ∃ m, a = .spawn l t m := by
  cases a with
  | spawn l' t' m =>
    simp only [Hall.act] at hact
    split at hact
    · obtain ⟨out, -, rfl⟩ := Option.map_eq_some_iff.mp hact
      change t ∈ Function.update h.inFlight l' (t' :: h.inFlight l') l at ht
      by_cases hl : l = l'
      · subst hl
        rw [Function.update_self] at ht
        rcases List.mem_cons.mp ht with rfl | hmem
        · exact Or.inr ⟨m, rfl⟩
        · exact Or.inl hmem
      · rw [Function.update_of_ne hl] at ht
        exact Or.inl ht
    · cases hact
  | call t' answer =>
    obtain ⟨out, -, rfl⟩ := Option.map_eq_some_iff.mp hact
    exact Or.inl ht
  | retire l' t' =>
    simp only [Hall.act] at hact
    split at hact
    · cases hact
      change t ∈ Function.update h.inFlight l' ((h.inFlight l').erase t') l at ht
      by_cases hl : l = l'
      · subst hl
        rw [Function.update_self] at ht
        exact Or.inl (List.mem_of_mem_erase ht)
      · rw [Function.update_of_ne hl] at ht
        exact Or.inl ht
    · cases hact
  | env e =>
    obtain ⟨out, -, rfl⟩ := Option.map_eq_some_iff.mp hact
    cases hcut : S.cuts e with
    | false =>
      simp only [hcut, Bool.false_eq_true, if_false] at ht
      exact Or.inl ht
    | true =>
      simp only [hcut, if_true] at ht
      cases ht

/-- A move that cuts off the threads empties the lanes. -/
theorem inFlight_of_cut {e : E} (hact : h.act S A (.env e) = some h') (hcut : S.cuts e = true) (l : L) : h'.inFlight l = [] := by
  obtain ⟨out, -, rfl⟩ := Option.map_eq_some_iff.mp hact
  simp only [hcut, if_true]

/-- A move of the environment is in the history of the pool. -/
theorem log_of_env {e : E} (hact : h.act S A (.env e) = some h') : h'.pool.log = h.pool.log ++ [.env e] := by
  obtain ⟨out, hout, rfl⟩ := Option.map_eq_some_iff.mp hact
  obtain ⟨world, -, rfl⟩ := Option.map_eq_some_iff.mp hout
  rfl

end Step

omit [DecidableEq L] in
/-- A lane never works on more messages at once, of those that only it takes, than its limit. -/
theorem Ok.running_le {A : Lanes L M} {h : Hall ι ρ W M E L} (hok : Ok A h) {l : L} {ts : List Nat} (hts : ts.Nodup)
    (hrun : ∀ t ∈ ts, ∃ m, h.pool.Running t m ∧ ∀ l', A.takes l' m = true → l' = l) : ts.length ≤ A.limit l := by
  have hsub : ts ⊆ h.inFlight l := by
    intro t ht
    obtain ⟨m, hr, honly⟩ := hrun t ht
    obtain ⟨l', hl', htakes⟩ := hok.running t m hr
    exact honly l' htakes ▸ hl'
  exact Nat.le_trans (hts.subperm hsub).length_le (hok.within l)

omit [DecidableEq L] in
/-- A lane with nothing in flight works on none of the messages that only it takes. -/
theorem Ok.not_running {A : Lanes L M} {h : Hall ι ρ W M E L} (hok : Ok A h) {l : L} (hl : h.inFlight l = []) {t : Nat} {m : M}
    (honly : ∀ l', A.takes l' m = true → l' = l) : ¬h.pool.Running t m := by
  intro hr
  obtain ⟨l', hl', htakes⟩ := hok.running t m hr
  rw [honly l' htakes, hl] at hl'
  cases hl'

end Hall

end Interleave
