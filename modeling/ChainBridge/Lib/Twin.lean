import ChainBridge.Lib.Pool
import Mathlib.Data.List.Basic

/-!
# Two pools over one world

Two systems that share a world run side by side: a step is a step of either, and both see the world it leaves. Each side has its
own messages, calls and moves, and a move that cuts off threads cuts off those of its own side.

Seen from the first side, the second is an environment that may change the world. Where it never does (`Twin.Reach.left`), the
first side of a run is a run of the first system alone. Seen from the second side, the first is a source of world changes it has
no say in: the second side is a run of the opened system, whose environment may put any world in place (`Twin.Reach.right`).
-/

namespace Interleave

variable {ι κ : Type} {ρ : ι → Type} {τ : κ → Type} {W M N E F : Type}

/-- The two pools, each holding the shared world, and the history of both, oldest label first. -/
structure Twin {ι κ : Type} (ρ : ι → Type) (τ : κ → Type) (W M N E F : Type) where
  left : Pool ι ρ W M E
  right : Pool κ τ W N F
  log : List (Label ρ M E ⊕ Label τ N F)

namespace Twin

/-- Two pools with no thread and no history. -/
def init (w : W) : Twin ρ τ W M N E F := { left := Pool.init w, right := Pool.init w, log := [] }

/-- One step of either side. -/
inductive Step (S : System ι ρ W M E) (T : System κ τ W N F) :
    Twin ρ τ W M N E F → Label ρ M E ⊕ Label τ N F → Twin ρ τ W M N E F → Prop where
  | left {x : Twin ρ τ W M N E F} {l : Label ρ M E} {p : Pool ι ρ W M E} : Pool.Step S x.left l p →
      Step S T x (.inl l) { left := p, right := { x.right with world := p.world }, log := x.log ++ [.inl l] }
  | right {x : Twin ρ τ W M N E F} {l : Label τ N F} {q : Pool κ τ W N F} : Pool.Step T x.right l q →
      Step S T x (.inr l) { left := { x.left with world := q.world }, right := q, log := x.log ++ [.inr l] }

/-- What is reached by steps of either side. -/
inductive Reach (S : System ι ρ W M E) (T : System κ τ W N F) (x₀ : Twin ρ τ W M N E F) : Twin ρ τ W M N E F → Prop where
  | refl : Reach S T x₀ x₀
  | step {x y : Twin ρ τ W M N E F} {l : Label ρ M E ⊕ Label τ N F} : Reach S T x₀ x → Step S T x l y → Reach S T x₀ y

/-- The labels of the first side. -/
def leftLog (log : List (Label ρ M E ⊕ Label τ N F)) : List (Label ρ M E) := log.filterMap Sum.getLeft?

/-- The labels of the second side. -/
def rightLog (log : List (Label ρ M E ⊕ Label τ N F)) : List (Label τ N F) := log.filterMap Sum.getRight?

theorem leftLog_snoc (log : List (Label ρ M E ⊕ Label τ N F)) (l : Label ρ M E) :
    leftLog (log ++ [.inl l]) = leftLog log ++ [l] := by
  simp [leftLog]

theorem leftLog_snoc_inr (log : List (Label ρ M E ⊕ Label τ N F)) (l : Label τ N F) :
    leftLog (log ++ [.inr l]) = leftLog log := by
  simp [leftLog]

theorem rightLog_snoc (log : List (Label ρ M E ⊕ Label τ N F)) (l : Label τ N F) :
    rightLog (log ++ [.inr l]) = rightLog log ++ [l] := by
  simp [rightLog]

theorem rightLog_snoc_inl (log : List (Label ρ M E ⊕ Label τ N F)) (l : Label ρ M E) :
    rightLog (log ++ [.inl l]) = rightLog log := by
  simp [rightLog]

variable {S : System ι ρ W M E} {T : System κ τ W N F} {w : W} {x : Twin ρ τ W M N E F}

/-- Both sides hold the same world, and each has its part of the history. -/
structure Split (x : Twin ρ τ W M N E F) : Prop where
  world : x.left.world = x.right.world
  left : x.left.log = leftLog x.log
  right : x.right.log = rightLog x.log

theorem Reach.split (h : Reach S T (init w) x) : Split x := by
  induction h with
  | refl => exact ⟨rfl, rfl, rfl⟩
  | step _ hs ih =>
    cases hs with
    | left hs =>
      refine ⟨rfl, ?_, ?_⟩
      · rw [hs.log_eq, ih.left, leftLog_snoc]
      · exact ih.right.trans (rightLog_snoc_inl ..).symm
    | right hs =>
      refine ⟨rfl, ?_, ?_⟩
      · exact ih.left.trans (leftLog_snoc_inr ..).symm
      · rw [hs.log_eq, ih.right, rightLog_snoc]

theorem Step.log_eq {y : Twin ρ τ W M N E F} {l : Label ρ M E ⊕ Label τ N F} (h : Step S T x l y) : y.log = x.log ++ [l] := by
  cases h <;> rfl

/-- Every label of a history was added by a step, from where the history was what comes before it. -/
theorem Reach.step_of_split (h : Reach S T (init w) x) {before after : List (Label ρ M E ⊕ Label τ N F)}
    {l : Label ρ M E ⊕ Label τ N F} (hlog : x.log = before ++ l :: after) :
    ∃ y z, Reach S T (init w) y ∧ Step S T y l z ∧ y.log = before := by
  induction h generalizing after with
  | refl => simp [init] at hlog
  | @step y z l' hr hs ih =>
    rw [hs.log_eq] at hlog
    rcases List.eq_nil_or_concat after with rfl | ⟨after', l'', rfl⟩
    · obtain ⟨hbefore, hl⟩ := List.append_inj' hlog rfl
      cases List.singleton_inj.mp hl
      exact ⟨y, z, hr, hs, hbefore⟩
    · rw [List.concat_eq_append, ← List.cons_append, ← List.append_assoc] at hlog
      exact ih (List.append_inj' hlog rfl).1

/-! ## The first side alone -/

/-- Where no step of the second side changes the world, the first side is a run of the first system. -/
theorem Reach.left (h : Reach S T (init w) x)
    (hquiet : ∀ x l q, Reach S T (init w) x → Pool.Step T x.right l q → q.world = x.right.world) :
    Pool.Reach S (fun _ _ _ => True) (Pool.init w) x.left := by
  induction h with
  | refl => exact .refl
  | step hr hs ih =>
    cases hs with
    | left hs => exact .step ih trivial hs
    | @right l q hs =>
      have hworld : q.world = _ := (hquiet _ l q hr hs).trans hr.split.world.symm
      rw [hworld]
      exact ih

/-! ## The second side in an open world -/

/-- The system whose environment may also put another world in place. -/
def opened (T : System κ τ W N F) : System κ τ W N (F ⊕ W) where
  start := T.start
  serve := T.serve
  env w
    | .inl e => T.env w e
    | .inr w' => some w'
  cuts
    | .inl e => T.cuts e
    | .inr _ => false

/-- A label of the system as one of the opened system. -/
def openLabel : Label τ N F → Label τ N (F ⊕ W)
  | .deliver t m => .deliver t m
  | .call t e => .call t e
  | .env e => .env (.inl e)

/-- A label of the opened system as one of the system; that the world was changed is none. -/
def closeLabel : Label τ N (F ⊕ W) → Option (Label τ N F)
  | .deliver t m => some (.deliver t m)
  | .call t e => some (.call t e)
  | .env (.inl e) => some (.env e)
  | .env (.inr _) => none

theorem closeLabel_openLabel (l : Label τ N F) : closeLabel (openLabel l : Label τ N (F ⊕ W)) = some l := by
  cases l <;> rfl

theorem step_opened {p q : Pool κ τ W N F} {p' : Pool κ τ W N (F ⊕ W)} {l : Label τ N F} (h : Pool.Step T p l q)
    (hworld : p'.world = p.world) (hthreads : p'.threads = p.threads) :
    Pool.Step (Twin.opened T) p' (openLabel l) { world := q.world, threads := q.threads, log := p'.log ++ [openLabel l] } := by
  obtain ⟨pw, pt, pl⟩ := p
  obtain ⟨pw', pt', pl'⟩ := p'
  cases hworld
  cases hthreads
  cases h with
  | deliver t m hn => exact .deliver t m hn
  | call r hc => exact .call (S := Twin.opened T) r hc
  | env e he => exact .env (S := Twin.opened T) (.inl e) he

/-- The second side of a run is a run of the opened second system, the steps of the first side being moves of its environment. -/
theorem Reach.right (h : Reach S T (init w) x) :
    ∃ p : Pool κ τ W N (F ⊕ W), Pool.Reach (opened T) (fun _ _ _ => True) (Pool.init w) p ∧ p.world = x.right.world ∧
      p.threads = x.right.threads ∧ p.log.filterMap closeLabel = rightLog x.log := by
  induction h with
  | refl => exact ⟨Pool.init w, .refl, rfl, rfl, rfl⟩
  | step hr hs ih =>
    obtain ⟨p, hp, hworld, hthreads, hlog⟩ := ih
    cases hs with
    | @left l q hs =>
      refine ⟨{ world := q.world, threads := p.threads, log := p.log ++ [.env (.inr q.world)] },
        .step hp trivial (.env (S := opened T) (.inr q.world) rfl), rfl, hthreads, ?_⟩
      rw [rightLog_snoc_inl, ← hlog, List.filterMap_append]
      exact List.append_nil _
    | right hs =>
      refine ⟨_, .step hp trivial (step_opened hs hworld hthreads), rfl, rfl, ?_⟩
      rw [rightLog_snoc, ← hlog, List.filterMap_append]
      simp [closeLabel_openLabel]

theorem mem_filterMap_closeLabel {log : List (Label τ N (F ⊕ W))} {l : Label τ N F} :
    l ∈ log.filterMap closeLabel ↔ openLabel l ∈ log := by
  rw [List.mem_filterMap]
  constructor
  · rintro ⟨l', hl', h⟩
    rcases l' with ⟨t, m⟩ | ⟨t, e⟩ | (e | w)
    · cases h
      exact hl'
    · cases h
      exact hl'
    · cases h
      exact hl'
    · cases h
  · intro h
    exact ⟨_, h, closeLabel_openLabel l⟩

theorem traceOf_filterMap_closeLabel (t : Nat) (log : List (Label τ N (F ⊕ W))) :
    traceOf t (log.filterMap closeLabel) = traceOf t log := by
  rw [traceOf, traceOf, List.filterMap_filterMap]
  refine List.filterMap_congr fun l _ => ?_
  rcases l with ⟨u, m⟩ | ⟨u, e⟩ | (e | w) <;> rfl

/-- When a thread of the second side makes a call, it was delivered before, and its program has come to the call. -/
theorem Reach.right_call (h : Reach S T (init w) x) {before after : List (Label ρ M E ⊕ Label τ N F)} {t : Nat} {e : Event τ}
    (hlog : x.log = before ++ .inr (.call t e) :: after) :
    ∃ m k, .deliver t m ∈ rightLog before ∧ Prog.Steps (T.start m) (traceOf t (rightLog before)) (.call e.1 k) := by
  obtain ⟨y, z, hy, hs, rfl⟩ := h.step_of_split hlog
  obtain ⟨p, hp, -, hthreads, hright⟩ := hy.right
  cases hs with
  | right hs =>
    obtain ⟨i, a⟩ := e
    obtain ⟨m, k, r, hc, -, -⟩ := hs.call_inv
    rw [← hthreads] at hc
    rw [← hright]
    refine ⟨m, k, mem_filterMap_closeLabel.mpr (hp.deliver_of_thread hc), ?_⟩
    rw [traceOf_filterMap_closeLabel]
    exact hp.steps_of_thread hc

/-- When a thread of the first side makes a call and no step of the second side changes the world, the same. -/
theorem Reach.left_call (h : Reach S T (init w) x)
    (hquiet : ∀ x l q, Reach S T (init w) x → Pool.Step T x.right l q → q.world = x.right.world)
    {before after : List (Label ρ M E ⊕ Label τ N F)} {t : Nat} {e : Event ρ}
    (hlog : x.log = before ++ .inl (.call t e) :: after) :
    ∃ m k, .deliver t m ∈ leftLog before ∧ Prog.Steps (S.start m) (traceOf t (leftLog before)) (.call e.1 k) := by
  obtain ⟨y, z, hy, hs, rfl⟩ := h.step_of_split hlog
  have hleft := hy.left hquiet
  cases hs with
  | left hs =>
    obtain ⟨i, a⟩ := e
    obtain ⟨m, k, r, hc, -, -⟩ := hs.call_inv
    rw [← hy.split.left]
    exact ⟨m, k, hleft.deliver_of_thread hc, hleft.steps_of_thread hc⟩

/-! ## Running two pools -/

/-- One step asked for, on either side. -/
def act (S : System ι ρ W M E) (T : System κ τ W N F) (x : Twin ρ τ W M N E F) :
    Pool.Action ι ρ M E ⊕ Pool.Action κ τ N F → Option (Twin ρ τ W M N E F)
  | .inl a => (x.left.act S a).map fun out =>
      { left := out.2, right := { x.right with world := out.2.world }, log := x.log ++ [.inl out.1] }
  | .inr a => (x.right.act T a).map fun out =>
      { left := { x.left with world := out.2.world }, right := out.2, log := x.log ++ [.inr out.1] }

/-- Run a list of steps asked for. -/
def exec (S : System ι ρ W M E) (T : System κ τ W N F) (x : Twin ρ τ W M N E F) :
    List (Pool.Action ι ρ M E ⊕ Pool.Action κ τ N F) → Option (Twin ρ τ W M N E F)
  | [] => some x
  | a :: as =>
    match x.act S T a with
    | none => none
    | some y => y.exec S T as

theorem step_of_act {y : Twin ρ τ W M N E F} {a : Pool.Action ι ρ M E ⊕ Pool.Action κ τ N F} (h : x.act S T a = some y) :
    ∃ l, Step S T x l y := by
  cases a with
  | inl a =>
    obtain ⟨out, hout, rfl⟩ := Option.map_eq_some_iff.mp h
    exact ⟨_, .left (Pool.step_of_act hout)⟩
  | inr a =>
    obtain ⟨out, hout, rfl⟩ := Option.map_eq_some_iff.mp h
    exact ⟨_, .right (Pool.step_of_act hout)⟩

/-- A run that computes is a run. -/
theorem reach_of_exec {as : List (Pool.Action ι ρ M E ⊕ Pool.Action κ τ N F)} :
    ∀ {x y x₀ : Twin ρ τ W M N E F}, Reach S T x₀ x → x.exec S T as = some y → Reach S T x₀ y := by
  induction as with
  | nil =>
    intro x y x₀ hx h
    cases h
    exact hx
  | cons a as ih =>
    intro x y x₀ hx h
    simp only [exec] at h
    split at h
    · cases h
    · rename_i z hz
      obtain ⟨l, hl⟩ := step_of_act hz
      exact ih (.step hx hl) h

/-- A run that computes, with what a test says of where it ends. -/
theorem exists_reach_of_exec {as : List (Pool.Action ι ρ M E ⊕ Pool.Action κ τ N F)} {test : Twin ρ τ W M N E F → Bool}
    (h : (x.exec S T as).any test = true) : ∃ y, Reach S T x y ∧ test y = true := by
  cases he : x.exec S T as with
  | none =>
    rw [he] at h
    cases h
  | some y =>
    rw [he] at h
    exact ⟨y, reach_of_exec .refl he, h⟩

end Twin

end Interleave
