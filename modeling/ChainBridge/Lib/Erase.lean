import ChainBridge.Lib.Pool
import Mathlib.Data.List.Basic

/-!
# Runs without some of their threads

A run is the list of its steps, each with the pool it leads to. Deleting some threads from a run leaves a run when every call these
threads made left the world as it was: the steps of the other threads and the moves of the environment are the same, from the
same worlds and with the same answers.
-/

namespace Interleave

variable {ι : Type} {ρ : ι → Type} {W M E : Type}

/-- Whether a label is of the environment or of a thread that is not deleted. -/
def Label.kept (gone : Nat → Bool) : Label ρ M E → Bool
  | .deliver t _ => !gone t
  | .call t _ => !gone t
  | .env _ => true

/-- A call that leaves the world as it is. -/
def Inert (S : System ι ρ W M E) (i : ι) : Prop := ∀ w r, (S.serve w i r).2 = w

namespace Pool

/-- A run: its steps in order, each with the pool after it, and the pool it ends in. -/
inductive Run (S : System ι ρ W M E) (p₀ : Pool ι ρ W M E) :
    List (Label ρ M E × Pool ι ρ W M E) → Pool ι ρ W M E → Prop where
  | nil : Run S p₀ [] p₀
  | snoc {steps : List (Label ρ M E × Pool ι ρ W M E)} {p q : Pool ι ρ W M E} {l : Label ρ M E} :
      Run S p₀ steps p → Step S p l q → Run S p₀ (steps ++ [(l, q)]) q

/-- The pools of a run are reached by it. -/
theorem Run.reach {S : System ι ρ W M E} {p₀ p : Pool ι ρ W M E} {steps : List (Label ρ M E × Pool ι ρ W M E)}
    (h : Run S p₀ steps p) : Reach S (fun _ _ _ => True) p₀ p := by
  induction h with
  | nil => exact .refl
  | snoc _ hs ih => exact .step ih trivial hs

/-- What is reached is reached by a run. -/
theorem Reach.run {S : System ι ρ W M E} {C : W → List (Label ρ M E) → Label ρ M E → Prop} {p₀ p : Pool ι ρ W M E}
    (h : Reach S C p₀ p) : ∃ steps, Run S p₀ steps p := by
  induction h with
  | refl => exact ⟨[], .nil⟩
  | step _ _ hs ih =>
    obtain ⟨steps, hr⟩ := ih
    exact ⟨_, .snoc hr hs⟩

/-- Every step of a run was taken from a pool it reached, and its label stands in the history behind that pool's. -/
theorem Run.split_of_mem {S : System ι ρ W M E} {w : W} {p : Pool ι ρ W M E} {steps : List (Label ρ M E × Pool ι ρ W M E)}
    (h : Run S (init w) steps p) {l : Label ρ M E} {q : Pool ι ρ W M E} (hl : (l, q) ∈ steps) :
    ∃ p₁ after, Reach S (fun _ _ _ => True) (init w) p₁ ∧ Step S p₁ l q ∧ p.log = p₁.log ++ l :: after := by
  induction h with
  | nil => cases hl
  | @snoc steps p p' l' hr hs ih =>
    rcases List.mem_append.mp hl with hl | hl
    · obtain ⟨p₁, after, hp₁, hstep, hlog⟩ := ih hl
      refine ⟨p₁, after ++ [l'], hp₁, hstep, ?_⟩
      rw [hs.log_eq, hlog, List.append_assoc, List.cons_append]
    · cases List.mem_singleton.mp hl
      exact ⟨p, [], hr.reach, hs, hs.log_eq⟩

/-- Every label of the history is the label of a step of the run. -/
theorem Run.mem_of_split {S : System ι ρ W M E} {w : W} {p : Pool ι ρ W M E} {steps : List (Label ρ M E × Pool ι ρ W M E)}
    (h : Run S (init w) steps p) {before after : List (Label ρ M E)} {l : Label ρ M E} (hlog : p.log = before ++ l :: after) :
    ∃ p₁ q, Reach S (fun _ _ _ => True) (init w) p₁ ∧ Step S p₁ l q ∧ p₁.log = before ∧ (l, q) ∈ steps := by
  induction h generalizing after with
  | nil => simp [init] at hlog
  | @snoc steps p p' l' hr hs ih =>
    rw [hs.log_eq] at hlog
    rcases split_snoc hlog with ⟨-, hbefore, rfl⟩ | ⟨after', -, hlog'⟩
    · exact ⟨p, p', hr.reach, hs, hbefore, List.mem_append_right _ List.mem_cons_self⟩
    · obtain ⟨p₁, q, hp₁, hstep, hbefore, hmem⟩ := ih hlog'
      exact ⟨p₁, q, hp₁, hstep, hbefore, List.mem_append_left _ hmem⟩

/-- The pool without the deleted threads: the same world, the other threads, and the history without the labels of the deleted
ones. -/
def erase (gone : Nat → Bool) (p : Pool ι ρ W M E) : Pool ι ρ W M E where
  world := p.world
  threads := fun t => if gone t then none else p.threads t
  log := p.log.filter (Label.kept gone)

/-- The steps of a run that are kept. -/
def eraseSteps (gone : Nat → Bool) (steps : List (Label ρ M E × Pool ι ρ W M E)) : List (Label ρ M E × Pool ι ρ W M E) :=
  (steps.filter fun s => s.1.kept gone).map fun s => (s.1, s.2.erase gone)

theorem erase_init (gone : Nat → Bool) (w : W) : (init w : Pool ι ρ W M E).erase gone = init w := by
  simp [erase, init]

section Step

variable {S : System ι ρ W M E} {gone : Nat → Bool} {p q : Pool ι ρ W M E} {l : Label ρ M E}

/-- The threads that are kept, after one of them changed. -/
theorem kept_update {threads : Nat → Option (M × Prog ι ρ Unit)} {t : Nat} (ht : gone t = false)
    (th : Option (M × Prog ι ρ Unit)) :
    (fun u => if gone u then none else Function.update threads t th u) =
      Function.update (fun u => if gone u then none else threads u) t th := by
  funext u
  by_cases hut : u = t
  · subst hut
    simp [ht]
  · simp only [Function.update_of_ne hut]

/-- The threads that are kept, after a deleted one changed. -/
theorem gone_update {threads : Nat → Option (M × Prog ι ρ Unit)} {t : Nat} (ht : gone t = true)
    (th : Option (M × Prog ι ρ Unit)) :
    (fun u => if gone u then none else Function.update threads t th u) = fun u => if gone u then none else threads u := by
  funext u
  by_cases hut : u = t
  · subst hut
    simp [ht]
  · simp only [Function.update_of_ne hut]

/-- Cutting the threads off commutes with deleting some of them. -/
theorem kept_cutThreads (threads : Nat → Option (M × Prog ι ρ Unit)) (cut : Bool) :
    (fun u => if gone u then none else cutThreads threads cut u) =
      cutThreads (fun u => if gone u then none else threads u) cut := by
  funext u
  cases cut with
  | false => rfl
  | true =>
    simp only [cutThreads, if_true]
    cases gone u <;> rfl

theorem filter_kept_snoc (log : List (Label ρ M E)) (hl : l.kept gone = true) :
    (log ++ [l]).filter (Label.kept gone) = log.filter (Label.kept gone) ++ [l] := by
  simp [hl]

theorem filter_gone_snoc (log : List (Label ρ M E)) (hl : l.kept gone = false) :
    (log ++ [l]).filter (Label.kept gone) = log.filter (Label.kept gone) := by
  simp [hl]

/-- A step that is kept is a step without the deleted threads. -/
theorem Step.erase (h : Step S p l q) (hl : l.kept gone = true) : Step S (p.erase gone) l (q.erase gone) := by
  cases h with
  | deliver t m hn =>
    have ht : gone t = false := by simpa [Label.kept] using hl
    have hnone : (p.erase gone).threads t = none := by simp [Pool.erase, ht, hn]
    have hstep := Step.deliver (S := S) t m hnone
    simp only [Pool.erase, filter_kept_snoc p.log hl, kept_update ht] at hstep ⊢
    exact hstep
  | @call t m i k r hc =>
    have ht : gone t = false := by simpa [Label.kept] using hl
    have hsome : (p.erase gone).threads t = some (m, .call i k) := by simp [Pool.erase, ht, hc]
    have hstep := Step.call (S := S) r hsome
    simp only [Pool.erase, filter_kept_snoc p.log hl, kept_update ht] at hstep ⊢
    exact hstep
  | @env w e he =>
    have hstep := Step.env (S := S) (p := p.erase gone) e he
    simp only [Pool.erase, filter_kept_snoc p.log hl, kept_cutThreads] at hstep ⊢
    exact hstep

/-- A step of a deleted thread that leaves the world changes nothing of the rest. -/
theorem Step.erase_gone (h : Step S p l q) (hl : l.kept gone = false) (hinert : ∀ t e, l = .call t e → Inert S e.1) :
    q.erase gone = p.erase gone := by
  cases h with
  | deliver t m hn =>
    have ht : gone t = true := by simpa [Label.kept] using hl
    simp only [Pool.erase, filter_gone_snoc p.log hl, gone_update ht]
  | @call t m i k r hc =>
    have ht : gone t = true := by simpa [Label.kept] using hl
    have hworld : (S.serve p.world i r).2 = p.world := hinert t _ rfl p.world r
    simp only [Pool.erase, filter_gone_snoc p.log hl, gone_update ht, hworld]
  | env e he => cases hl

end Step

/-- Deleting threads that only made inert calls leaves a run, with the same worlds at the steps that are kept. -/
theorem Run.erase {S : System ι ρ W M E} {gone : Nat → Bool} {p₀ p : Pool ι ρ W M E}
    {steps : List (Label ρ M E × Pool ι ρ W M E)} (h : Run S p₀ steps p)
    (hinert : ∀ t e, .call t e ∈ p.log → gone t = true → Inert S e.1) :
    Run S (p₀.erase gone) (eraseSteps gone steps) (p.erase gone) := by
  induction h with
  | nil => exact .nil
  | @snoc steps p q l _ hs ih =>
    have hbefore : Run S (p₀.erase gone) (eraseSteps gone steps) (p.erase gone) := by
      refine ih fun t e he ht => hinert t e ?_ ht
      rw [hs.log_eq]
      exact List.mem_append_left _ he
    cases hl : l.kept gone with
    | true =>
      have hsteps : eraseSteps gone (steps ++ [(l, q)]) = eraseSteps gone steps ++ [(l, q.erase gone)] := by
        simp [eraseSteps, hl]
      rw [hsteps]
      exact .snoc hbefore (hs.erase hl)
    | false =>
      have hsteps : eraseSteps gone (steps ++ [(l, q)]) = eraseSteps gone steps := by
        simp [eraseSteps, hl]
      have hlast : ∀ t e, l = .call t e → Inert S e.1 := by
        rintro t e rfl
        refine hinert t e ?_ (by simpa [Label.kept] using hl)
        rw [hs.log_eq]
        exact List.mem_append_right _ List.mem_cons_self
      rw [hsteps, hs.erase_gone hl hlast]
      exact hbefore

/-- What is read from the labels of the other threads is the same without the deleted ones. -/
theorem filterMap_erase {β : Type} {gone : Nat → Bool} {log : List (Label ρ M E)} {f : Label ρ M E → Option β}
    (hf : ∀ l ∈ log, l.kept gone = false → f l = none) : (log.filter (Label.kept gone)).filterMap f = log.filterMap f := by
  rw [List.filterMap_filter]
  refine List.filterMap_congr fun l hl => ?_
  cases hk : l.kept gone with
  | true => rfl
  | false => simpa [hk] using (hf l hl hk).symm

/-- A thread that is kept makes the same calls with the same answers. -/
theorem traceOf_erase {gone : Nat → Bool} {t : Nat} (ht : gone t = false) (log : List (Label ρ M E)) :
    traceOf t (log.filter (Label.kept gone)) = traceOf t log := by
  refine filterMap_erase fun l _ hl => ?_
  cases l with
  | deliver u m => rfl
  | env e => rfl
  | call u e =>
    have hut : u ≠ t := by
      rintro rfl
      rw [Label.kept, ht] at hl
      cases hl
    simp [hut]

end Pool

end Interleave
