import ChainBridge.Lib.Twin
import Mathlib.Algebra.GroupWithZero.Nat

/-!
# How much a program calls

A weight for each call bounds what a program may cost: `Prog.Within` holds when the calls of every execution fit in a budget,
whatever the answers, and a program that returns leaves the part of the budget that depends on what it returns, for what follows
it. In a run of a pool every thread spends the budget of the message that started it, so all the calls of the run weigh at most
the budgets of the messages delivered (`Pool.Reach.weight_le`), however the threads interleave and wherever they are cut off; of
two pools over one world, each is held to its own budgets.
-/

namespace Interleave

namespace Prog

variable {ι : Type} {ρ : ι → Type} {α β : Type}

/-- The calls of the program fit in the budget, whatever the answers, and when it returns `a` it leaves `left a` of it. -/
def Within (f : ι → Nat) : Prog ι ρ α → Nat → (α → Nat) → Prop
  | .ret a, n, left => left a ≤ n
  | .call i k, n, left => ∃ m, f i + m ≤ n ∧ ∀ r, (k r).Within f m left

/-- The calls of the program fit in the budget. -/
abbrev Costs (f : ι → Nat) (p : Prog ι ρ α) (n : Nat) : Prop := p.Within f n (fun _ => 0)

variable {f : ι → Nat} {left left' : α → Nat}

theorem within_mono {p : Prog ι ρ α} {n n' : Nat} (h : p.Within f n left) (hn : n ≤ n') (hleft : ∀ a, left' a ≤ left a) :
    p.Within f n' left' := by
  induction p generalizing n n' with
  | ret a => exact Nat.le_trans (hleft a) (Nat.le_trans h hn)
  | call i k ih =>
    obtain ⟨m, hm, hk⟩ := h
    exact ⟨m, Nat.le_trans hm hn, fun r => ih r (hk r) (Nat.le_refl m)⟩

/-- The frame rule: what is added to the budget is left. -/
theorem within_frame {p : Prog ι ρ α} {n : Nat} (h : p.Within f n left) (c : Nat) : p.Within f (n + c) (fun a => left a + c) := by
  induction p generalizing n with
  | ret a => exact Nat.add_le_add_right h c
  | call i k ih =>
    obtain ⟨m, hm, hk⟩ := h
    exact ⟨m + c, by omega, fun r => ih r (hk r)⟩

/-- A call, and what follows it on any answer. -/
theorem within_perform {left : β → Nat} {i : ι} {g : ρ i → Prog ι ρ β} {n : Nat} (m : Nat) (hm : f i + m ≤ n)
    (h : ∀ r, (g r).Within f m left) : (perform i >>= g).Within f n left :=
  ⟨m, hm, h⟩

/-- What the first program leaves is the budget of the second. -/
theorem within_bind {left' : β → Nat} {p : Prog ι ρ α} {g : α → Prog ι ρ β} {n : Nat} (hp : p.Within f n left)
    (hg : ∀ a, (g a).Within f (left a) left') : (p >>= g).Within f n left' := by
  induction p generalizing n with
  | ret a => exact within_mono (hg a) hp fun _ => Nat.le_refl _
  | call i k ih =>
    obtain ⟨m, hm, hk⟩ := hp
    exact ⟨m, hm, fun r => ih r (hk r)⟩

/-- Calls in a row, within the sum of what they weigh. -/
theorem costs_performAll (is : List ι) {n : Nat} (hn : (is.map f).sum ≤ n) : (performAll is : Prog ι ρ Unit).Costs f n := by
  induction is generalizing n with
  | nil => exact Nat.zero_le n
  | cons i is ih => exact ⟨(is.map f).sum, by simpa using hn, fun _ => ih (Nat.le_refl _)⟩

/-- A program that makes at most one call, and only this one. -/
theorem costs_of_single {allow : List (Event ρ) → ι → Prop} {p : Prog ι ρ α} {Q : List (Event ρ) → α → Prop} {n : Nat}
    (h : p.wp (Monitor.history allow) [] Q) (hallow : ∀ past i, allow past i → past = [] ∧ f i ≤ n) : p.Costs f n := by
  cases p with
  | ret a => exact Nat.zero_le n
  | call i k =>
    refine ⟨0, (hallow [] i h.1).2, fun r => ?_⟩
    have hlater := h.2 r
    cases hk : k r with
    | ret a => exact Nat.le_refl 0
    | call j k' =>
      rw [hk] at hlater
      cases (hallow _ j hlater.1).1

/-- The weight of a trace. -/
def weight (f : ι → Nat) (t : List (Event ρ)) : Nat := (t.map fun e => f e.1).sum

end Prog

/-! ## The cost of a run -/

/-- The messages delivered in a history, each with its thread. -/
def delivered {ι : Type} {ρ : ι → Type} {M E : Type} (log : List (Label ρ M E)) : List (Nat × M) :=
  log.filterMap fun
    | .deliver t m => some (t, m)
    | _ => none

/-- The calls of a history, with their answers. -/
def calledIn {ι : Type} {ρ : ι → Type} {M E : Type} (log : List (Label ρ M E)) : List (Event ρ) :=
  log.filterMap fun
    | .call _ e => some e
    | _ => none

namespace Pool

variable {ι : Type} {ρ : ι → Type} {W M E : Type}

theorem mem_delivered {log : List (Label ρ M E)} {t : Nat} {m : M} : (t, m) ∈ delivered log ↔ .deliver t m ∈ log := by
  rw [delivered, List.mem_filterMap]
  constructor
  · rintro ⟨l, hl, h⟩
    cases l with
    | deliver u m' =>
      cases h
      exact hl
    | call u e => cases h
    | env e => cases h
  · intro h
    exact ⟨_, h, rfl⟩

section Spend

variable {f : ι → Nat} {rem : Nat → Nat} {ts : List (Nat × M)} {t : Nat}

/-- What a thread that is not among those delivered may spend does not count. -/
theorem sum_update_of_not_mem (h : ∀ m, (t, m) ∉ ts) (n : Nat) :
    (ts.map fun x => Function.update rem t n x.1).sum = (ts.map fun x => rem x.1).sum := by
  refine congrArg List.sum (List.map_congr_left fun x hx => Function.update_of_ne ?_ ..)
  rintro rfl
  exact h x.2 hx

/-- When a thread that was delivered spends, what is left to spend goes down by that. -/
theorem sum_update_le {m : M} (h : (t, m) ∈ ts) {n c : Nat} (hn : c + n ≤ rem t) :
    c + (ts.map fun x => Function.update rem t n x.1).sum ≤ (ts.map fun x => rem x.1).sum := by
  have hle : ∀ ys : List (Nat × M), (ys.map fun x => Function.update rem t n x.1).sum ≤ (ys.map fun x => rem x.1).sum := by
    intro ys
    induction ys with
    | nil => exact Nat.le_refl _
    | cons y ys ih =>
      simp only [List.map_cons, List.sum_cons]
      by_cases hy : y.1 = t
      · rw [hy, Function.update_self]
        omega
      · rw [Function.update_of_ne hy]
        omega
  obtain ⟨as, bs, rfl⟩ := List.append_of_mem h
  have has := hle as
  have hbs := hle bs
  simp only [List.map_append, List.map_cons, List.sum_append, List.sum_cons, Function.update_self]
  omega

/-- The budgets cover the threads when one thread goes on with a program that keeps to its new budget. -/
theorem costs_update {threads : Nat → Option (M × Prog ι ρ Unit)} (h : ∀ u m q, threads u = some (m, q) → q.Costs f (rem u))
    {m : M} {q : Prog ι ρ Unit} {n : Nat} (hq : q.Costs f n) (u : Nat) (m' : M) (q' : Prog ι ρ Unit)
    (hu : Function.update threads t (some (m, q)) u = some (m', q')) : q'.Costs f (Function.update rem t n u) := by
  by_cases hut : u = t
  · subst hut
    rw [Function.update_self] at hu ⊢
    cases hu
    exact hq
  · rw [Function.update_of_ne hut] at hu ⊢
    exact h u m' q' hu

end Spend

/-- The budgets of the threads cover what they may still spend, and what was spent with what is left is within what the messages
brought. -/
structure Funded (f : ι → Nat) (b : M → Nat) (p : Pool ι ρ W M E) (rem : Nat → Nat) : Prop where
  threads : ∀ t m q, p.threads t = some (m, q) → q.Costs f (rem t)
  spent : Prog.weight f (calledIn p.log) + ((delivered p.log).map fun x => rem x.1).sum ≤
    ((delivered p.log).map fun x => b x.2).sum

variable {S : System ι ρ W M E} {C : W → List (Label ρ M E) → Label ρ M E → Prop} {w : W} {p q : Pool ι ρ W M E}
  {l : Label ρ M E} {f : ι → Nat} {b : M → Nat} {rem : Nat → Nat}

theorem Funded.step (hb : ∀ m, (S.start m).Costs f (b m)) (hr : Reach S C (init w) p) (h : Funded f b p rem)
    (hs : Step S p l q) : ∃ rem', Funded f b q rem' := by
  have hspent := h.spent
  cases hs with
  | deliver t m hn =>
    have habsent : ∀ m', (t, m') ∉ delivered p.log := fun m' hm' =>
      ((known_none hn).mp (hr.known t)).delivered m' (mem_delivered.mp hm')
    refine ⟨Function.update rem t (b m), costs_update h.threads (hb m), ?_⟩
    have hcalled : calledIn (p.log ++ [.deliver t m]) = calledIn p.log := by simp [calledIn]
    have hdelivered : delivered (p.log ++ [.deliver t m]) = delivered p.log ++ [(t, m)] := by simp [delivered]
    simp only [hcalled, hdelivered, List.map_append, List.sum_append, List.map_cons, List.map_nil, List.sum_singleton,
      Function.update_self, sum_update_of_not_mem habsent]
    omega
  | @call t m i k r hc =>
    obtain ⟨n, hn, hk⟩ := h.threads t m _ hc
    have hmem : (t, m) ∈ delivered p.log := mem_delivered.mpr (hr.deliver_of_thread hc)
    refine ⟨Function.update rem t n, costs_update h.threads (hk _), ?_⟩
    have hcalled : calledIn (p.log ++ [.call t ⟨i, (S.serve p.world i r).1⟩]) =
        calledIn p.log ++ [⟨i, (S.serve p.world i r).1⟩] := by simp [calledIn]
    have hdelivered : delivered (p.log ++ [.call t ⟨i, (S.serve p.world i r).1⟩]) = delivered p.log := by simp [delivered]
    have hweight : Prog.weight f (calledIn p.log ++ [⟨i, (S.serve p.world i r).1⟩]) =
        Prog.weight f (calledIn p.log) + f i := by simp [Prog.weight]
    have hsum := sum_update_le hmem hn
    simp only [hcalled, hdelivered, hweight]
    omega
  | env e he =>
    have hcalled : calledIn (p.log ++ [.env e]) = calledIn p.log := by simp [calledIn]
    have hdelivered : delivered (p.log ++ [.env e]) = delivered p.log := by simp [delivered]
    refine ⟨rem, fun u m q hq => ?_, ?_⟩
    · simp only [cutThreads] at hq
      split at hq
      · obtain ⟨th, -, hth⟩ := Option.map_eq_some_iff.mp hq
        cases hth
        exact Nat.zero_le _
      · exact h.threads u m q hq
    · simp only [hcalled, hdelivered]
      exact hspent

/-- All the calls of a run weigh at most the budgets of the messages delivered. -/
theorem Reach.weight_le (hb : ∀ m, (S.start m).Costs f (b m)) (h : Reach S C (init w) p) :
    Prog.weight f (calledIn p.log) ≤ ((delivered p.log).map fun x => b x.2).sum := by
  have hfunded : ∃ rem, Funded f b p rem := by
    induction h with
    | refl => exact ⟨fun _ => 0, fun t m q hq => (by cases hq), Nat.le_refl _⟩
    | step hr _ hs ih =>
      obtain ⟨rem, hrem⟩ := ih
      exact hrem.step hb hr hs
  obtain ⟨rem, hrem⟩ := hfunded
  have hspent := hrem.spent
  omega

end Pool

/-! ## The cost of the second of two sides -/

namespace Twin

variable {ι κ : Type} {ρ : ι → Type} {τ : κ → Type} {W M N E F : Type}

theorem calledIn_filterMap_closeLabel (log : List (Label τ N (F ⊕ W))) :
    calledIn (log.filterMap closeLabel) = calledIn log := by
  rw [calledIn, calledIn, List.filterMap_filterMap]
  refine List.filterMap_congr fun l _ => ?_
  rcases l with ⟨u, m⟩ | ⟨u, e⟩ | (e | w) <;> rfl

theorem delivered_filterMap_closeLabel (log : List (Label τ N (F ⊕ W))) :
    delivered (log.filterMap closeLabel) = delivered log := by
  rw [delivered, delivered, List.filterMap_filterMap]
  refine List.filterMap_congr fun l _ => ?_
  rcases l with ⟨u, m⟩ | ⟨u, e⟩ | (e | w) <;> rfl

/-- All the calls of the second side weigh at most the budgets of its messages, whatever the first side does. -/
theorem Reach.right_weight_le {S : System ι ρ W M E} {T : System κ τ W N F} {w : W} {x : Twin ρ τ W M N E F} {f : κ → Nat}
    {b : N → Nat} (hb : ∀ m, (T.start m).Costs f (b m)) (h : Reach S T (init w) x) :
    Prog.weight f (calledIn (rightLog x.log)) ≤ ((delivered (rightLog x.log)).map fun y => b y.2).sum := by
  obtain ⟨p, hp, -, -, hlog⟩ := h.right
  rw [← hlog, calledIn_filterMap_closeLabel, delivered_filterMap_closeLabel]
  exact hp.weight_le hb

end Twin

end Interleave
