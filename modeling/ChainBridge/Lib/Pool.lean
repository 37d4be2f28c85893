import ChainBridge.Lib.Prog
import Mathlib.Logic.Function.Basic

/-!
# Programs run side by side

A pool holds a world (the state the programs share), one thread for each message delivered so far, and the history of the run.
A step delivers a message to a new thread, lets one thread make its next call, or is a move of the environment. A call is
atomic: the world answers it and changes. Where the answer is not the world's to give, the environment proposes it, so the runs
of a pool range over every interleaving and over every sequence of answers. An environment move may cut off every running
thread at whatever call it has reached.

`View` is the abstraction of a pool by a monitor: each thread is replaced by the monitor's state after the calls it made. A step
of a pool whose threads satisfy the monitor is a step of the view (`Pool.Step.view`), so an invariant of the shared state is
proved on the view, where a thread is one of a few phases instead of a program (`Pool.Reach.invariant`).
-/

namespace Interleave

/-- Messages and the programs they start, the shared world and its answers, and the moves of the environment. -/
structure System (ι : Type) (ρ : ι → Type) (W M E : Type) where
  /-- The program a message starts. -/
  start : M → Prog ι ρ Unit
  /-- The world's answer to a call and the world after it; the third argument is the answer the environment proposes. -/
  serve : W → (i : ι) → ρ i → ρ i × W
  /-- A move of the environment, where it is possible. -/
  env : W → E → Option W
  /-- Whether a move of the environment cuts off every running thread. -/
  cuts : E → Bool

/-- What happens in one step. -/
inductive Label {ι : Type} (ρ : ι → Type) (M E : Type) where
  | deliver (t : Nat) (m : M)
  | call (t : Nat) (e : Event ρ)
  | env (e : E)

/-- The world, the threads (each with the message that started it) and the history, oldest label first. -/
structure Pool (ι : Type) (ρ : ι → Type) (W M E : Type) where
  world : W
  threads : Nat → Option (M × Prog ι ρ Unit)
  log : List (Label ρ M E)

/-- The calls of one thread in a history, with their answers. -/
def traceOf {ι : Type} {ρ : ι → Type} {M E : Type} (t : Nat) (l : List (Label ρ M E)) : List (Event ρ) :=
  l.filterMap fun
    | .call t' e => if t' = t then some e else none
    | _ => none

namespace Pool

variable {ι : Type} {ρ : ι → Type} {W M E : Type}

/-- A pool with no thread and no history. -/
def init (w : W) : Pool ι ρ W M E := { world := w, threads := fun _ => none, log := [] }

/-- The pool after the threads are cut off, when the move asks for it: a thread that is cut off makes no more calls. -/
def cutThreads (threads : Nat → Option (M × Prog ι ρ Unit)) (cut : Bool) : Nat → Option (M × Prog ι ρ Unit) :=
  if cut then fun t => (threads t).map fun th => (th.1, .ret ()) else threads

/-- One step of a pool. -/
inductive Step (S : System ι ρ W M E) : Pool ι ρ W M E → Label ρ M E → Pool ι ρ W M E → Prop where
  | deliver {p : Pool ι ρ W M E} (t : Nat) (m : M) : p.threads t = none →
      Step S p (.deliver t m)
        { world := p.world, threads := Function.update p.threads t (some (m, S.start m)), log := p.log ++ [.deliver t m] }
  | call {p : Pool ι ρ W M E} {t : Nat} {m : M} {i : ι} {k : ρ i → Prog ι ρ Unit} (r : ρ i) :
      p.threads t = some (m, .call i k) →
      Step S p (.call t ⟨i, (S.serve p.world i r).1⟩)
        { world := (S.serve p.world i r).2
          threads := Function.update p.threads t (some (m, k (S.serve p.world i r).1))
          log := p.log ++ [.call t ⟨i, (S.serve p.world i r).1⟩] }
  | env {p : Pool ι ρ W M E} {w : W} (e : E) : S.env p.world e = some w →
      Step S p (.env e) { world := w, threads := cutThreads p.threads (S.cuts e), log := p.log ++ [.env e] }

/-- The pools reached from `p₀` by steps that all meet a condition on the world and the history before the step and on its
label. -/
inductive Reach (S : System ι ρ W M E) (C : W → List (Label ρ M E) → Label ρ M E → Prop) (p₀ : Pool ι ρ W M E) :
    Pool ι ρ W M E → Prop where
  | refl : Reach S C p₀ p₀
  | step {p q : Pool ι ρ W M E} {l : Label ρ M E} : Reach S C p₀ p → C p.world p.log l → Step S p l q → Reach S C p₀ q

/-- A condition that every step of a run meets in the pool it is taken from admits the run. -/
theorem Reach.mono {S : System ι ρ W M E} {C C' : W → List (Label ρ M E) → Label ρ M E → Prop} {p₀ p : Pool ι ρ W M E}
    (h : Reach S C p₀ p)
    (hC : ∀ p l q, Reach S C p₀ p → C p.world p.log l → Step S p l q → C' p.world p.log l) : Reach S C' p₀ p := by
  induction h with
  | refl => exact .refl
  | step hr hc hs ih => exact .step ih (hC _ _ _ hr hc hs) hs

/-- A step adds its label to the history. -/
theorem Step.log_eq {S : System ι ρ W M E} {p q : Pool ι ρ W M E} {l : Label ρ M E} (h : Step S p l q) :
    q.log = p.log ++ [l] := by
  cases h <;> rfl

/-- What a call step does: the thread had come to the call, and the world answered it. -/
theorem Step.call_inv {S : System ι ρ W M E} {p q : Pool ι ρ W M E} {t : Nat} {i : ι} {a : ρ i}
    (h : Step S p (.call t ⟨i, a⟩) q) : ∃ m k r, p.threads t = some (m, .call i k) ∧ a = (S.serve p.world i r).1 ∧
      q.world = (S.serve p.world i r).2 := by
  cases h with
  | @call _ m _ k r hc => exact ⟨m, k, r, hc, rfl, rfl⟩

/-- Every label of a history met the condition when its step was taken. -/
theorem Reach.mem_log {S : System ι ρ W M E} {C : W → List (Label ρ M E) → Label ρ M E → Prop} {w : W}
    {p : Pool ι ρ W M E} (h : Reach S C (init w) p) {l : Label ρ M E} (hl : l ∈ p.log) : ∃ w' log, C w' log l := by
  induction h with
  | refl => cases hl
  | step _ hc hs ih =>
    rw [hs.log_eq, List.mem_append, List.mem_singleton] at hl
    rcases hl with hl | rfl
    · exact ih hl
    · exact ⟨_, _, hc⟩

/-- A label of a history with one more label is the last one, or was there before. -/
theorem split_snoc {log before after : List (Label ρ M E)} {l x : Label ρ M E} (h : log ++ [l] = before ++ x :: after) :
    (after = [] ∧ log = before ∧ l = x) ∨ ∃ after', after = after' ++ [l] ∧ log = before ++ x :: after' := by
  rcases List.eq_nil_or_concat after with rfl | ⟨after', y, rfl⟩
  · obtain ⟨hlog, hl⟩ := List.append_inj' h rfl
    exact Or.inl ⟨rfl, hlog, List.singleton_inj.mp hl⟩
  · rw [List.concat_eq_append, ← List.cons_append, ← List.append_assoc] at h
    obtain ⟨hlog, hl⟩ := List.append_inj' h rfl
    exact Or.inr ⟨after', by rw [List.concat_eq_append, List.singleton_inj.mp hl], hlog⟩

/-- Every label of a history was added by a step of the run, from a pool that is reached with the history before it. -/
theorem Reach.step_of_split {S : System ι ρ W M E} {C : W → List (Label ρ M E) → Label ρ M E → Prop} {w : W}
    {p : Pool ι ρ W M E} (h : Reach S C (init w) p) {before after : List (Label ρ M E)} {l : Label ρ M E}
    (hlog : p.log = before ++ l :: after) :
    ∃ p₁ q₁, Reach S C (init w) p₁ ∧ C p₁.world p₁.log l ∧ Step S p₁ l q₁ ∧ p₁.log = before := by
  induction h generalizing after with
  | refl => simp [init] at hlog
  | @step p q l' hr hc hs ih =>
    rw [hs.log_eq] at hlog
    rcases split_snoc hlog with ⟨-, hbefore, rfl⟩ | ⟨after', -, hlog'⟩
    · exact ⟨p, q, hr, hc, hs, hbefore⟩
    · exact ih hlog'

/-- What a step of a run brings about in the world, and the later steps keep, holds where the run ends. -/
theorem Reach.since {S : System ι ρ W M E} {C : W → List (Label ρ M E) → Label ρ M E → Prop} {w : W} {p : Pool ι ρ W M E}
    (h : Reach S C (init w) p) {before after : List (Label ρ M E)} {l : Label ρ M E} (hlog : p.log = before ++ l :: after)
    {P : W → Prop} (hl : ∀ p q, Reach S C (init w) p → C p.world p.log l → Step S p l q → P q.world)
    (hlater : ∀ p l' q, l' ∈ after → Step S p l' q → P p.world → P q.world) : P p.world := by
  induction h generalizing after with
  | refl => simp [init] at hlog
  | @step p q l' hr hc hs ih =>
    rw [hs.log_eq] at hlog
    rcases split_snoc hlog with ⟨-, -, rfl⟩ | ⟨after', rfl, hlog'⟩
    · exact hl p q hr hc hs
    · refine hlater p l' q (List.mem_append_right _ List.mem_cons_self) hs (ih hlog' fun p₁ l₁ q₁ hl₁ => ?_)
      exact hlater p₁ l₁ q₁ (List.mem_append_left _ hl₁)

/-- The same with the label only: the history of the step comes before. -/
theorem Reach.step_of_mem_log {S : System ι ρ W M E} {C : W → List (Label ρ M E) → Label ρ M E → Prop} {w : W}
    {p : Pool ι ρ W M E} (h : Reach S C (init w) p) {l : Label ρ M E} (hl : l ∈ p.log) :
    ∃ p₁ q₁, Reach S C (init w) p₁ ∧ C p₁.world p₁.log l ∧ Step S p₁ l q₁ ∧ q₁.log <+: p.log := by
  obtain ⟨before, after, hlog⟩ := List.append_of_mem hl
  obtain ⟨p₁, q₁, hr, hc, hs, hbefore⟩ := h.step_of_split hlog
  refine ⟨p₁, q₁, hr, hc, hs, after, ?_⟩
  rw [hs.log_eq, hbefore, hlog]
  simp

/-! ## Running a pool -/

/-- A step asked for: a delivery, a call of a thread with the answer the environment proposes, a move of the environment. -/
inductive Action (ι : Type) (ρ : ι → Type) (M E : Type) where
  | deliver (t : Nat) (m : M)
  | call (t : Nat) (answer : (i : ι) → Option (ρ i))
  | env (e : E)

/-- The label of a step asked for and the pool after it, if it is possible. -/
def act (S : System ι ρ W M E) (p : Pool ι ρ W M E) : Action ι ρ M E → Option (Label ρ M E × Pool ι ρ W M E)
  | .deliver t m =>
    match p.threads t with
    | none => some (.deliver t m,
        { world := p.world, threads := Function.update p.threads t (some (m, S.start m)), log := p.log ++ [.deliver t m] })
    | some _ => none
  | .call t answer =>
    match p.threads t with
    | some (m, .call i k) => (answer i).map fun r => (.call t ⟨i, (S.serve p.world i r).1⟩,
        { world := (S.serve p.world i r).2
          threads := Function.update p.threads t (some (m, k (S.serve p.world i r).1))
          log := p.log ++ [.call t ⟨i, (S.serve p.world i r).1⟩] })
    | _ => none
  | .env e => (S.env p.world e).map fun w => (.env e,
      { world := w, threads := cutThreads p.threads (S.cuts e), log := p.log ++ [.env e] })

/-- Run a list of steps asked for, each passing a test on the world, the history and the label. -/
def exec (S : System ι ρ W M E) (ok : W → List (Label ρ M E) → Label ρ M E → Bool) (p : Pool ι ρ W M E) :
    List (Action ι ρ M E) → Option (Pool ι ρ W M E)
  | [] => some p
  | a :: as =>
    match p.act S a with
    | none => none
    | some (l, q) => if ok p.world p.log l then q.exec S ok as else none

theorem step_of_act {S : System ι ρ W M E} {p q : Pool ι ρ W M E} {a : Action ι ρ M E} {l : Label ρ M E}
    (h : p.act S a = some (l, q)) : Step S p l q := by
  cases a with
  | deliver t m =>
    simp only [act] at h
    split at h
    · rename_i ht
      cases h
      exact .deliver t m ht
    · cases h
  | call t answer =>
    simp only [act] at h
    split at h
    · rename_i m i k ht
      rw [Option.map_eq_some_iff] at h
      obtain ⟨r, -, h⟩ := h
      cases h
      exact .call r ht
    · cases h
  | env e =>
    simp only [act, Option.map_eq_some_iff] at h
    obtain ⟨w, hw, h⟩ := h
    cases h
    exact .env e hw

/-- A run that computes is a run. -/
theorem reach_of_exec {S : System ι ρ W M E} {ok : W → List (Label ρ M E) → Label ρ M E → Bool}
    {C : W → List (Label ρ M E) → Label ρ M E → Prop} (hC : ∀ w log l, ok w log l = true → C w log l)
    {p₀ : Pool ι ρ W M E} {as : List (Action ι ρ M E)} :
    ∀ {p q : Pool ι ρ W M E}, Reach S C p₀ p → p.exec S ok as = some q → Reach S C p₀ q := by
  induction as with
  | nil =>
    intro p q hp h
    cases h
    exact hp
  | cons a as ih =>
    intro p q hp h
    simp only [exec] at h
    split at h
    · cases h
    · rename_i l q' ha
      split at h
      · rename_i hok
        exact ih (.step hp (hC _ _ _ hok) (step_of_act ha)) h
      · cases h

/-- A run that computes, with what a test says of the pool it ends in. -/
theorem exists_reach_of_exec {S : System ι ρ W M E} {ok : W → List (Label ρ M E) → Label ρ M E → Bool}
    {C : W → List (Label ρ M E) → Label ρ M E → Prop} (hC : ∀ w log l, ok w log l = true → C w log l)
    {p₀ : Pool ι ρ W M E} {as : List (Action ι ρ M E)} {test : Pool ι ρ W M E → Bool}
    (h : (p₀.exec S ok as).any test = true) : ∃ p, Reach S C p₀ p ∧ test p = true := by
  cases he : p₀.exec S ok as with
  | none =>
    rw [he] at h
    cases h
  | some p =>
    rw [he] at h
    exact ⟨p, reach_of_exec hC .refl he, h⟩

/-! ## The trace of a thread -/

theorem traceOf_snoc_deliver (t t' : Nat) (m : M) (l : List (Label ρ M E)) :
    traceOf t (l ++ [.deliver t' m]) = traceOf t l := by
  simp [traceOf]

theorem traceOf_snoc_env (t : Nat) (e : E) (l : List (Label ρ M E)) : traceOf t (l ++ [.env e]) = traceOf t l := by
  simp [traceOf]

theorem traceOf_snoc_self (t : Nat) (e : Event ρ) (l : List (Label ρ M E)) :
    traceOf t (l ++ [.call t e]) = traceOf t l ++ [e] := by
  simp [traceOf]

theorem traceOf_snoc_other {t t' : Nat} (h : t' ≠ t) (e : Event ρ) (l : List (Label ρ M E)) :
    traceOf t (l ++ [.call t' e]) = traceOf t l := by
  simp [traceOf, h]

theorem mem_traceOf {t : Nat} {e : Event ρ} {l : List (Label ρ M E)} : e ∈ traceOf t l ↔ .call t e ∈ l := by
  rw [traceOf, List.mem_filterMap]
  constructor
  · rintro ⟨label, hl, he⟩
    cases label with
    | deliver u m => cases he
    | env m => cases he
    | call u e' =>
      by_cases hut : u = t
      · subst hut
        simp only [if_true, Option.some.injEq] at he
        rwa [← he]
      · simp [hut] at he
  · intro hl
    exact ⟨_, hl, if_pos rfl⟩

theorem traceOf_append (t : Nat) (l l' : List (Label ρ M E)) : traceOf t (l ++ l') = traceOf t l ++ traceOf t l' :=
  List.filterMap_append

theorem traceOf_cons_self (t : Nat) (e : Event ρ) (l : List (Label ρ M E)) :
    traceOf t (.call t e :: l) = e :: traceOf t l := by
  simp [traceOf]

/-- Where a call of a trace stands in the history. -/
theorem split_of_traceOf {t : Nat} {l : List (Label ρ M E)} {a b : List (Event ρ)} {e : Event ρ}
    (h : traceOf t l = a ++ e :: b) : ∃ l₁ l₂, l = l₁ ++ .call t e :: l₂ ∧ traceOf t l₁ = a ∧ traceOf t l₂ = b := by
  obtain ⟨l₁, l', rfl, ha, h'⟩ := List.filterMap_eq_append_iff.mp h
  obtain ⟨l₂, x, l₃, rfl, hnone, hx, hb⟩ := List.filterMap_eq_cons_iff.mp h'
  refine ⟨l₁ ++ l₂, l₃, ?_, ?_, hb⟩
  · cases x with
    | deliver u m => cases hx
    | env m => cases hx
    | call u e' =>
      simp only [Option.ite_none_right_eq_some, Option.some.injEq] at hx
      rw [List.append_assoc, hx.1, hx.2]
  · rw [traceOf_append, traceOf, traceOf, ha, List.filterMap_eq_nil_iff.mpr hnone, List.append_nil]

/-! ## The program of a thread -/

/-- What the history says of a thread that was delivered: the message that started it, and the calls it made, which are a partial
execution of the program of the message. The thread is what is left of it, unless it was cut off. -/
structure Started (S : System ι ρ W M E) (p : Pool ι ρ W M E) (t : Nat) (m : M) (q : Prog ι ρ Unit) : Prop where
  delivered : ∀ m', .deliver t m' ∈ p.log ↔ m' = m
  steps : ∃ q', Prog.Steps (S.start m) (traceOf t p.log) q' ∧
    (q = q' ∨ q = .ret () ∧ ∃ e, .env e ∈ p.log ∧ S.cuts e = true)

/-- A thread that was not delivered left no trace. -/
structure Absent (p : Pool ι ρ W M E) (t : Nat) : Prop where
  delivered : ∀ m, .deliver t m ∉ p.log
  trace : traceOf t p.log = []

/-- What the history says of a thread. -/
def Known (S : System ι ρ W M E) (p : Pool ι ρ W M E) (t : Nat) : Prop :=
  match p.threads t with
  | none => Absent p t
  | some (m, q) => Started S p t m q

section Known

variable {S : System ι ρ W M E} {p : Pool ι ρ W M E} {t : Nat} {l : Label ρ M E}

theorem known_none (h : p.threads t = none) : Known S p t ↔ Absent p t := by
  rw [Known, h]

theorem known_some {m : M} {q : Prog ι ρ Unit} (h : p.threads t = some (m, q)) : Known S p t ↔ Started S p t m q := by
  rw [Known, h]

/-- A label of another thread says nothing of a thread. -/
theorem Started.frame {m : M} {q : Prog ι ρ Unit} (h : Started S p t m q) {w : W}
    {threads : Nat → Option (M × Prog ι ρ Unit)} (hd : ∀ m', l ≠ .deliver t m')
    (ht : traceOf t (p.log ++ [l]) = traceOf t p.log) : Started S ⟨w, threads, p.log ++ [l]⟩ t m q := by
  refine ⟨fun m' => ?_, ?_⟩
  · rw [List.mem_append, List.mem_singleton, h.delivered m']
    exact or_iff_left fun hl => hd m' hl.symm
  · obtain ⟨q', hs, hq⟩ := h.steps
    refine ⟨q', by rw [ht]; exact hs, hq.imp_right fun ⟨hr, e, he, hcut⟩ => ⟨hr, e, List.mem_append_left _ he, hcut⟩⟩

theorem Absent.frame (h : Absent p t) {w : W} {threads : Nat → Option (M × Prog ι ρ Unit)} (hd : ∀ m', l ≠ .deliver t m')
    (ht : traceOf t (p.log ++ [l]) = traceOf t p.log) : Absent ⟨w, threads, p.log ++ [l]⟩ t := by
  refine ⟨fun m hm => ?_, ht.trans h.trace⟩
  rcases List.mem_append.mp hm with hm | hm
  · exact h.delivered m hm
  · exact hd m (List.mem_singleton.mp hm).symm

/-- A thread that a step leaves alone is known as before. -/
theorem Known.frame (h : Known S p t) {w : W} {threads : Nat → Option (M × Prog ι ρ Unit)} (hsame : threads t = p.threads t)
    (hd : ∀ m', l ≠ .deliver t m') (ht : traceOf t (p.log ++ [l]) = traceOf t p.log) :
    Known S ⟨w, threads, p.log ++ [l]⟩ t := by
  cases hth : p.threads t with
  | none => exact (known_none (hsame.trans hth)).mpr (((known_none hth).mp h).frame hd ht)
  | some th => exact (known_some (hsame.trans hth)).mpr (((known_some hth).mp h).frame hd ht)

/-- A step keeps what the history says of each thread. -/
theorem Known.step {q : Pool ι ρ W M E} (h : Known S p t) (hs : Step S p l q) : Known S q t := by
  cases hs with
  | deliver t' m hn =>
    by_cases htt : t = t'
    · subst htt
      have habsent := (known_none hn).mp h
      refine (known_some (Function.update_self ..)).mpr ⟨fun m' => ?_, ?_⟩
      · rw [List.mem_append, List.mem_singleton, or_iff_right (habsent.delivered m')]
        simp
      · rw [traceOf_snoc_deliver, habsent.trace]
        exact ⟨_, .nil _, Or.inl rfl⟩
    · refine h.frame (Function.update_of_ne htt ..) (fun m' hl => ?_) (traceOf_snoc_deliver ..)
      cases hl
      exact htt rfl
  | @call t' m i k r hc =>
    by_cases htt : t = t'
    · subst htt
      have hstarted := (known_some hc).mp h
      refine (known_some (Function.update_self ..)).mpr ⟨fun m' => ?_, ?_⟩
      · rw [List.mem_append, List.mem_singleton, hstarted.delivered m']
        simp
      · obtain ⟨q', hsteps, rfl | ⟨hret, -⟩⟩ := hstarted.steps
        · rw [traceOf_snoc_self]
          exact ⟨_, hsteps.trans (.cons i _ (.nil _)), Or.inl rfl⟩
        · cases hret
    · exact h.frame (Function.update_of_ne htt ..) (fun m' hl => by cases hl) (traceOf_snoc_other (Ne.symm htt) ..)
  | @env w e he =>
    cases hcut : S.cuts e with
    | false => exact h.frame rfl (fun m' hl => by cases hl) (traceOf_snoc_env ..)
    | true =>
      cases hth : p.threads t with
      | none =>
        have hnone : cutThreads p.threads true t = none := congrArg (Option.map _) hth
        exact (known_none hnone).mpr (((known_none hth).mp h).frame (fun m' hl => by cases hl) (traceOf_snoc_env ..))
      | some th =>
        have hsome : cutThreads p.threads true t = some (th.1, .ret ()) := congrArg (Option.map _) hth
        have hstarted : Started S ⟨w, cutThreads p.threads true, p.log ++ [.env e]⟩ t th.1 th.2 :=
          ((known_some hth).mp h).frame (fun m' hl => by cases hl) (traceOf_snoc_env ..)
        obtain ⟨q', hsteps, -⟩ := hstarted.steps
        refine (known_some hsome).mpr ⟨hstarted.delivered, q', hsteps, Or.inr ⟨rfl, e, ?_, hcut⟩⟩
        exact List.mem_append_right _ List.mem_cons_self

end Known

/-- In every pool reached from the empty one, the history says of each thread which message started it and which part of its
program it has run. -/
theorem Reach.known {S : System ι ρ W M E} {C : W → List (Label ρ M E) → Label ρ M E → Prop} {w : W} {p : Pool ι ρ W M E}
    (h : Reach S C (init w) p) (t : Nat) : Known S p t := by
  induction h with
  | refl => exact (known_none rfl).mpr ⟨fun m hm => (by cases hm), rfl⟩
  | step _ _ hs ih => exact ih.step hs

/-- A running thread was delivered with its message. -/
theorem Reach.deliver_of_thread {S : System ι ρ W M E} {C : W → List (Label ρ M E) → Label ρ M E → Prop} {w : W}
    {p : Pool ι ρ W M E} (h : Reach S C (init w) p) {t : Nat} {m : M} {q : Prog ι ρ Unit} (ht : p.threads t = some (m, q)) :
    .deliver t m ∈ p.log :=
  (((known_some ht).mp (h.known t)).delivered m).mpr rfl

/-- The program of a running thread is what its calls leave of the program of its message. -/
theorem Reach.steps_of_thread {S : System ι ρ W M E} {C : W → List (Label ρ M E) → Label ρ M E → Prop} {w : W}
    {p : Pool ι ρ W M E} (h : Reach S C (init w) p) {t : Nat} {m : M} {i : ι} {k : ρ i → Prog ι ρ Unit}
    (ht : p.threads t = some (m, .call i k)) : Prog.Steps (S.start m) (traceOf t p.log) (.call i k) := by
  obtain ⟨q, hsteps, rfl | ⟨hret, -⟩⟩ := ((known_some ht).mp (h.known t)).steps
  · exact hsteps
  · cases hret

/-- The calls of a thread that was delivered are a partial execution of the program of its only message. -/
theorem Reach.steps_of_deliver {S : System ι ρ W M E} {C : W → List (Label ρ M E) → Label ρ M E → Prop} {w : W}
    {p : Pool ι ρ W M E} (h : Reach S C (init w) p) {t : Nat} {m : M} (hm : .deliver t m ∈ p.log) :
    (∀ m', .deliver t m' ∈ p.log → m' = m) ∧ ∃ q, Prog.Steps (S.start m) (traceOf t p.log) q := by
  have hknown := h.known t
  cases hth : p.threads t with
  | none => exact (((known_none hth).mp hknown).delivered m hm).elim
  | some th =>
    have hstarted := (known_some hth).mp hknown
    have hmth := (hstarted.delivered m).mp hm
    obtain ⟨q, hsteps, -⟩ := hstarted.steps
    refine ⟨fun m' hm' => ?_, q, hmth ▸ hsteps⟩
    rw [hmth]
    exact (hstarted.delivered m').mp hm'

/-- The calls of a thread come after its delivery, and are a partial execution of the program of its message. -/
theorem Reach.steps_since_deliver {S : System ι ρ W M E} {C : W → List (Label ρ M E) → Label ρ M E → Prop} {w : W}
    {p : Pool ι ρ W M E} (h : Reach S C (init w) p) {t : Nat} {m : M} {before after : List (Label ρ M E)}
    (hlog : p.log = before ++ .deliver t m :: after) : ∃ q, Prog.Steps (S.start m) (traceOf t after) q := by
  obtain ⟨p₁, q₁, hr, -, hs, hbefore⟩ := h.step_of_split hlog
  have habsent : traceOf t p₁.log = [] := by
    cases hs with
    | deliver _ _ hn => exact ((known_none hn).mp (hr.known t)).trace
  have hmem : .deliver t m ∈ p.log := by
    simp [hlog]
  obtain ⟨-, q, hsteps⟩ := h.steps_of_deliver hmem
  refine ⟨q, ?_⟩
  have htrace : traceOf t p.log = traceOf t after := by
    rw [hlog, traceOf_append, ← hbefore, habsent]
    rfl
  rwa [htrace] at hsteps

/-- The calls of a thread that is in the history are a partial execution of the program its message started. -/
theorem Reach.steps {S : System ι ρ W M E} {C : W → List (Label ρ M E) → Label ρ M E → Prop} {w : W} {p : Pool ι ρ W M E}
    (h : Reach S C (init w) p) {t : Nat} {e : Event ρ} (he : .call t e ∈ p.log) :
    ∃ m q, (∀ m', .deliver t m' ∈ p.log ↔ m' = m) ∧ Prog.Steps (S.start m) (traceOf t p.log) q := by
  have hmem := mem_traceOf.mpr he
  have hknown := h.known t
  cases hth : p.threads t with
  | none =>
    rw [((known_none hth).mp hknown).trace] at hmem
    cases hmem
  | some th =>
    have hstarted := (known_some hth).mp hknown
    obtain ⟨q', hsteps, -⟩ := hstarted.steps
    exact ⟨th.1, q', hstarted.delivered, hsteps⟩

end Pool

/-! ## The view of a pool by a monitor -/

/-- A monitor for the threads of a pool: the state a message starts in, and the state of a thread that was cut off. -/
structure Watch (ι : Type) (ρ : ι → Type) (M σ : Type) extends Monitor ι ρ σ where
  start : M → σ
  cut : σ → σ

/-- The world, the monitor's state of each thread, and the history. -/
structure View {ι : Type} (ρ : ι → Type) (W M E σ : Type) where
  world : W
  phase : Nat → Option σ
  log : List (Label ρ M E)

namespace View

variable {ι : Type} {ρ : ι → Type} {W M E σ : Type}

/-- The view with no thread. -/
def init (w : W) : View ρ W M E σ := { world := w, phase := fun _ => none, log := [] }

/-- The phases after the threads are cut off, when the move asks for it. -/
def cutPhases (N : Watch ι ρ M σ) (phase : Nat → Option σ) (cut : Bool) : Nat → Option σ :=
  if cut then fun t => (phase t).map N.cut else phase

/-- One step of a view: a call is one the monitor allows in the thread's phase. -/
inductive Step (S : System ι ρ W M E) (N : Watch ι ρ M σ) : View ρ W M E σ → Label ρ M E → View ρ W M E σ → Prop where
  | deliver {v : View ρ W M E σ} (t : Nat) (m : M) : v.phase t = none →
      Step S N v (.deliver t m)
        { world := v.world, phase := Function.update v.phase t (some (N.start m)), log := v.log ++ [.deliver t m] }
  | call {v : View ρ W M E σ} {t : Nat} {s : σ} {i : ι} (r : ρ i) : v.phase t = some s → N.allow s i →
      Step S N v (.call t ⟨i, (S.serve v.world i r).1⟩)
        { world := (S.serve v.world i r).2
          phase := Function.update v.phase t (some (N.next s i (S.serve v.world i r).1))
          log := v.log ++ [.call t ⟨i, (S.serve v.world i r).1⟩] }
  | env {v : View ρ W M E σ} {w : W} (e : E) : S.env v.world e = some w →
      Step S N v (.env e) { world := w, phase := cutPhases N v.phase (S.cuts e), log := v.log ++ [.env e] }

/-- What a call step does: the call was allowed in the thread's phase, and the world answered it. -/
theorem Step.call_inv {S : System ι ρ W M E} {N : Watch ι ρ M σ} {v u : View ρ W M E σ} {t : Nat} {i : ι} {a : ρ i}
    (h : Step S N v (.call t ⟨i, a⟩) u) : ∃ s r, v.phase t = some s ∧ N.allow s i ∧ a = (S.serve v.world i r).1 ∧
      u.world = (S.serve v.world i r).2 ∧ u.phase = Function.update v.phase t (some (N.next s i a)) := by
  cases h with
  | @call _ s _ r hs ha => exact ⟨s, r, hs, ha, rfl, rfl, rfl⟩

/-- Where a phase comes from: it was there before, or the thread was just delivered, made a call, or was cut off. -/
theorem Step.phase_cases {S : System ι ρ W M E} {N : Watch ι ρ M σ} {v u : View ρ W M E σ} {l : Label ρ M E}
    (h : Step S N v l u) {t : Nat} {s' : σ} (hs' : u.phase t = some s') :
    v.phase t = some s' ∨ (∃ m, l = .deliver t m ∧ s' = N.start m) ∨
      (∃ s i a, l = .call t ⟨i, a⟩ ∧ v.phase t = some s ∧ N.allow s i ∧ s' = N.next s i a) ∨
      ∃ s e, l = .env e ∧ S.cuts e = true ∧ v.phase t = some s ∧ s' = N.cut s := by
  cases h with
  | deliver t' m hn =>
    by_cases htt : t = t'
    · subst htt
      simp only [Function.update_self, Option.some.injEq] at hs'
      exact Or.inr (Or.inl ⟨m, rfl, hs'.symm⟩)
    · simp only [Function.update_of_ne htt] at hs'
      exact Or.inl hs'
  | @call t' s i r hs ha =>
    by_cases htt : t = t'
    · subst htt
      simp only [Function.update_self, Option.some.injEq] at hs'
      exact Or.inr (Or.inr (Or.inl ⟨s, i, _, rfl, hs, ha, hs'.symm⟩))
    · simp only [Function.update_of_ne htt] at hs'
      exact Or.inl hs'
  | @env w e hw =>
    simp only [cutPhases] at hs'
    split at hs'
    · rename_i hcut
      rw [Option.map_eq_some_iff] at hs'
      obtain ⟨s, hs, rfl⟩ := hs'
      exact Or.inr (Or.inr (Or.inr ⟨s, e, rfl, hcut, hs, rfl⟩))
    · exact Or.inl hs'

/-- A thread that was delivered stays delivered. -/
theorem Step.phase_stays {S : System ι ρ W M E} {N : Watch ι ρ M σ} {v u : View ρ W M E σ} {l : Label ρ M E}
    (h : Step S N v l u) {t : Nat} {s : σ} (hs : v.phase t = some s) : ∃ s', u.phase t = some s' := by
  cases h with
  | deliver t' m hn =>
    by_cases htt : t = t'
    · subst htt
      exact ⟨_, Function.update_self ..⟩
    · exact ⟨s, (Function.update_of_ne htt ..).trans hs⟩
  | @call t' s' c r hs' ha =>
    by_cases htt : t = t'
    · subst htt
      exact ⟨_, Function.update_self ..⟩
    · exact ⟨s, (Function.update_of_ne htt ..).trans hs⟩
  | @env w m hw =>
    simp only [cutPhases]
    split
    · exact ⟨_, congrArg (Option.map N.cut) hs⟩
    · exact ⟨s, hs⟩

/-- A step adds its label to the history. -/
theorem Step.log_eq {S : System ι ρ W M E} {N : Watch ι ρ M σ} {v u : View ρ W M E σ} {l : Label ρ M E}
    (h : Step S N v l u) : u.log = v.log ++ [l] := by
  cases h <;> rfl

theorem Step.mem_log {S : System ι ρ W M E} {N : Watch ι ρ M σ} {v u : View ρ W M E σ} {l l' : Label ρ M E}
    (h : Step S N v l u) (hl : l' ∈ v.log) : l' ∈ u.log := by
  rw [h.log_eq]
  exact List.mem_append_left _ hl

theorem Step.label_mem {S : System ι ρ W M E} {N : Watch ι ρ M σ} {v u : View ρ W M E σ} {l : Label ρ M E}
    (h : Step S N v l u) : l ∈ u.log := by
  rw [h.log_eq]
  exact List.mem_append_right _ List.mem_cons_self

/-- A label of the history was there before, or is the step's own. -/
theorem Step.log_cases {S : System ι ρ W M E} {N : Watch ι ρ M σ} {v u : View ρ W M E σ} {l l' : Label ρ M E}
    (h : Step S N v l u) (hl : l' ∈ u.log) : l' ∈ v.log ∨ l' = l := by
  rw [h.log_eq, List.mem_append, List.mem_singleton] at hl
  exact hl

end View

namespace Pool

variable {ι : Type} {ρ : ι → Type} {W M E σ : Type}

/-- A thread is tracked by a phase when every call it may still make is one the monitor allows. -/
def Tracked (N : Watch ι ρ M σ) : Option (M × Prog ι ρ Unit) → Option σ → Prop
  | none, none => True
  | some th, some s => th.2.wp N.toMonitor s (fun _ _ => True)
  | _, _ => False

theorem tracked_some {N : Watch ι ρ M σ} {m : M} {q : Prog ι ρ Unit} {o : Option σ} (h : Tracked N (some (m, q)) o) :
    ∃ s, o = some s ∧ q.wp N.toMonitor s (fun _ _ => True) := by
  cases o with
  | none => exact h.elim
  | some s => exact ⟨s, rfl, h⟩

theorem tracked_none {N : Watch ι ρ M σ} {o : Option σ} (h : Tracked N (none : Option (M × Prog ι ρ Unit)) o) :
    o = none := by
  cases o with
  | none => rfl
  | some s => exact h.elim

theorem tracked_init (N : Watch ι ρ M σ) (w : W) (t : Nat) :
    Tracked N ((init w : Pool ι ρ W M E).threads t) ((View.init w : View ρ W M E σ).phase t) := trivial

/-- Replacing one thread and its phase keeps the others tracked. -/
theorem tracked_update {N : Watch ι ρ M σ} {threads : Nat → Option (M × Prog ι ρ Unit)} {phase : Nat → Option σ}
    (h : ∀ t, Tracked N (threads t) (phase t)) (t : Nat) {th : Option (M × Prog ι ρ Unit)} {o : Option σ}
    (hu : Tracked N th o) (u : Nat) : Tracked N (Function.update threads t th u) (Function.update phase t o u) := by
  by_cases hut : u = t
  · subst hut
    rw [Function.update_self, Function.update_self]
    exact hu
  · rw [Function.update_of_ne hut, Function.update_of_ne hut]
    exact h u

theorem tracked_cut {N : Watch ι ρ M σ} {threads : Nat → Option (M × Prog ι ρ Unit)} {phase : Nat → Option σ}
    (h : ∀ t, Tracked N (threads t) (phase t)) (cut : Bool) (t : Nat) :
    Tracked N (cutThreads threads cut t) (View.cutPhases N phase cut t) := by
  have ht := h t
  cases cut with
  | false => exact ht
  | true =>
    show Tracked N ((threads t).map _) ((phase t).map N.cut)
    cases hth : threads t with
    | none =>
      rw [hth] at ht
      rw [tracked_none ht]
      trivial
    | some th =>
      rw [hth] at ht
      obtain ⟨s, hs, -⟩ := tracked_some ht
      rw [hs]
      trivial

/-- A step of a pool whose threads are tracked is a step of the view, and the threads stay tracked. -/
theorem Step.view {S : System ι ρ W M E} {N : Watch ι ρ M σ}
    (hwp : ∀ m, (S.start m).wp N.toMonitor (N.start m) (fun _ _ => True)) {p q : Pool ι ρ W M E} {l : Label ρ M E}
    {phase : Nat → Option σ} (hp : ∀ t, Tracked N (p.threads t) (phase t)) (h : Step S p l q) :
    ∃ phase', View.Step S N ⟨p.world, phase, p.log⟩ l ⟨q.world, phase', q.log⟩ ∧ ∀ t, Tracked N (q.threads t) (phase' t) := by
  cases h with
  | deliver t m hn =>
    have ht := hp t
    rw [hn] at ht
    exact ⟨_, .deliver t m (tracked_none ht), tracked_update hp t (hwp m)⟩
  | @call t m i k r hc =>
    have ht := hp t
    rw [hc] at ht
    obtain ⟨s, hs, hk⟩ := tracked_some ht
    exact ⟨_, .call r hs hk.1, tracked_update hp t (hk.2 _)⟩
  | @env w e hw => exact ⟨_, .env e hw, tracked_cut hp (S.cuts e)⟩

/-- The invariant rule, from any pool whose threads are tracked: what holds of its view, and is kept by every step of a view that
meets the condition, holds of a view of every pool reached. -/
theorem Reach.invariant_from {S : System ι ρ W M E} {N : Watch ι ρ M σ}
    (hwp : ∀ m, (S.start m).wp N.toMonitor (N.start m) (fun _ _ => True))
    {C : W → List (Label ρ M E) → Label ρ M E → Prop} {p₀ p : Pool ι ρ W M E} {phase₀ : Nat → Option σ}
    (ht₀ : ∀ t, Tracked N (p₀.threads t) (phase₀ t)) (J : View ρ W M E σ → Prop) (h₀ : J ⟨p₀.world, phase₀, p₀.log⟩)
    (hstep : ∀ v l u, J v → C v.world v.log l → View.Step S N v l u → J u) (h : Reach S C p₀ p) :
    ∃ phase, J ⟨p.world, phase, p.log⟩ ∧ ∀ t, Tracked N (p.threads t) (phase t) := by
  induction h with
  | refl => exact ⟨phase₀, h₀, ht₀⟩
  | step _ hc hs ih =>
    obtain ⟨phase, hJ, ht⟩ := ih
    obtain ⟨phase', hv, ht'⟩ := hs.view hwp ht
    exact ⟨phase', hstep _ _ _ hJ hc hv, ht'⟩

/-- The invariant rule from the pool with no thread. -/
theorem Reach.invariant {S : System ι ρ W M E} {N : Watch ι ρ M σ}
    (hwp : ∀ m, (S.start m).wp N.toMonitor (N.start m) (fun _ _ => True))
    {C : W → List (Label ρ M E) → Label ρ M E → Prop} {w : W} {p : Pool ι ρ W M E} (J : View ρ W M E σ → Prop)
    (h₀ : J (View.init w)) (hstep : ∀ v l u, J v → C v.world v.log l → View.Step S N v l u → J u)
    (h : Reach S C (init w) p) : ∃ phase, J ⟨p.world, phase, p.log⟩ ∧ ∀ t, Tracked N (p.threads t) (phase t) :=
  Reach.invariant_from hwp (tracked_init N w) J h₀ hstep h

end Pool

end Interleave
