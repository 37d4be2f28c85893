/-!
# Programs that call their environment

A program either returns or makes a call and continues with the answer. The type of an answer depends on the call, and a call
whose answer type is empty ends the program for good (an abort). A program is a value: the same one is read by itself (its
traces, over every sequence of answers) and run among others (`Interleave.Pool`).

A monitor is a state that watches the calls of a program: it says which calls are allowed in a state and what the state is
after an answer. `Prog.wp` is the weakest precondition of a program under a monitor: every call it makes, whatever the answers,
is allowed when it is made, and the postcondition holds of the state it returns in.
-/

namespace Interleave

/-- A program over calls `ι`, where the call `i` is answered by a value of `ρ i`. -/
inductive Prog (ι : Type) (ρ : ι → Type) (α : Type) where
  | ret (a : α)
  | call (i : ι) (k : ρ i → Prog ι ρ α)

/-- A call with its answer. -/
abbrev Event {ι : Type} (ρ : ι → Type) : Type := (i : ι) × ρ i

namespace Prog

variable {ι : Type} {ρ : ι → Type} {α β : Type}

/-- Run a program, then the program its result selects. -/
def bind : Prog ι ρ α → (α → Prog ι ρ β) → Prog ι ρ β
  | .ret a, f => f a
  | .call i k, f => .call i (fun r => (k r).bind f)

instance : Monad (Prog ι ρ) where
  pure := .ret
  bind := bind

/-- The program that makes one call and returns the answer. -/
def perform (i : ι) : Prog ι ρ (ρ i) := .call i .ret

theorem ret_bind (a : α) (f : α → Prog ι ρ β) : (Prog.ret a >>= f) = f a := rfl

theorem call_bind (i : ι) (k : ρ i → Prog ι ρ α) (f : α → Prog ι ρ β) :
    (Prog.call i k >>= f) = .call i (fun r => k r >>= f) := rfl

/-! ## Traces -/

/-- `Steps p t q`: the program `p` makes the calls of `t`, receives their answers, and is then `q`. -/
inductive Steps : Prog ι ρ α → List (Event ρ) → Prog ι ρ α → Prop where
  | nil (p : Prog ι ρ α) : Steps p [] p
  | cons (i : ι) (r : ρ i) {k : ρ i → Prog ι ρ α} {t : List (Event ρ)} {q : Prog ι ρ α} :
      Steps (k r) t q → Steps (.call i k) (⟨i, r⟩ :: t) q

/-- A complete execution: the program makes the calls of `t` and returns `a`. -/
def Exec (p : Prog ι ρ α) (t : List (Event ρ)) (a : α) : Prop := Steps p t (.ret a)

theorem steps_ret {a : α} {t : List (Event ρ)} {q : Prog ι ρ α} : Steps (.ret a) t q ↔ t = [] ∧ q = .ret a := by
  constructor
  · rintro ⟨⟩
    exact ⟨rfl, rfl⟩
  · rintro ⟨rfl, rfl⟩
    exact .nil _

theorem steps_call {i : ι} {k : ρ i → Prog ι ρ α} {t : List (Event ρ)} {q : Prog ι ρ α} :
    Steps (.call i k) t q ↔ (t = [] ∧ q = .call i k) ∨ ∃ r t', t = ⟨i, r⟩ :: t' ∧ Steps (k r) t' q := by
  constructor
  · intro h
    cases h with
    | nil => exact Or.inl ⟨rfl, rfl⟩
    | cons i r h => exact Or.inr ⟨r, _, rfl, h⟩
  · rintro (⟨rfl, rfl⟩ | ⟨r, t', rfl, h⟩)
    · exact .nil _
    · exact .cons i r h

theorem Steps.trans {p q r : Prog ι ρ α} {t u : List (Event ρ)} (h : Steps p t q) (h' : Steps q u r) : Steps p (t ++ u) r := by
  induction h with
  | nil p => exact h'
  | cons i a _ ih => exact .cons i a (ih h')

/-- What follows a partial execution is an execution of what it left. -/
theorem Steps.append_iff {p q r : Prog ι ρ α} {t u : List (Event ρ)} (h : Steps p t q) : Steps p (t ++ u) r ↔ Steps q u r := by
  induction h with
  | nil p => exact Iff.rfl
  | cons i a _ ih =>
    rw [← ih]
    constructor
    · intro hs
      cases hs with
      | cons _ _ hs => exact hs
    · intro hs
      exact .cons i a hs

/-- A partial execution comes to each of its calls. -/
theorem Steps.split {p q : Prog ι ρ α} {t u : List (Event ρ)} {e : Event ρ} (h : Steps p (t ++ e :: u) q) :
    ∃ k, Steps p t (.call e.1 k) := by
  induction t generalizing p with
  | nil =>
    cases h with
    | cons i r h => exact ⟨_, .nil _⟩
  | cons e' t ih =>
    cases h with
    | cons i r h =>
      obtain ⟨k, hk⟩ := ih h
      exact ⟨k, .cons i r hk⟩

theorem exec_ret {a b : α} {t : List (Event ρ)} : Exec (.ret a) t b ↔ t = [] ∧ a = b := by
  rw [Exec, steps_ret]
  simp only [ret.injEq]
  exact ⟨fun h => ⟨h.1, h.2.symm⟩, fun h => ⟨h.1, h.2.symm⟩⟩

theorem exec_call {i : ι} {k : ρ i → Prog ι ρ α} {t : List (Event ρ)} {b : α} :
    Exec (.call i k) t b ↔ ∃ r t', t = ⟨i, r⟩ :: t' ∧ Exec (k r) t' b := by
  rw [Exec, steps_call]
  constructor
  · rintro (⟨-, h⟩ | h)
    · cases h
    · exact h
  · exact Or.inr

theorem steps_perform {i : ι} {f : ρ i → Prog ι ρ β} {t : List (Event ρ)} {q : Prog ι ρ β} :
    Steps (perform i >>= f) t q ↔ (t = [] ∧ q = (perform i >>= f)) ∨ ∃ r t', t = ⟨i, r⟩ :: t' ∧ Steps (f r) t' q :=
  steps_call

theorem exec_perform {i : ι} {f : ρ i → Prog ι ρ β} {t : List (Event ρ)} {b : β} :
    Exec (perform i >>= f) t b ↔ ∃ r t', t = ⟨i, r⟩ :: t' ∧ Exec (f r) t' b :=
  exec_call

/-- A program that starts with a call goes on with the answer the trace shows. -/
theorem exec_perform_cons {i : ι} {f : ρ i → Prog ι ρ β} {a : ρ i} {t : List (Event ρ)} {b : β} :
    Exec (perform i >>= f) (⟨i, a⟩ :: t) b ↔ Exec (f a) t b := by
  constructor
  · intro h
    cases h with
    | cons _ _ h => exact h
  · intro h
    exact .cons i a h

/-- A complete execution of a sequence is one of the first program followed by one of the second. -/
theorem exec_bind {p : Prog ι ρ α} {f : α → Prog ι ρ β} {t : List (Event ρ)} {b : β} :
    Exec (p >>= f) t b ↔ ∃ t₁ t₂ a, t = t₁ ++ t₂ ∧ Exec p t₁ a ∧ Exec (f a) t₂ b := by
  induction p generalizing t with
  | ret a =>
    rw [ret_bind]
    constructor
    · intro h
      exact ⟨[], t, a, rfl, exec_ret.mpr ⟨rfl, rfl⟩, h⟩
    · rintro ⟨t₁, t₂, a', rfl, h₁, h₂⟩
      obtain ⟨rfl, rfl⟩ := exec_ret.mp h₁
      exact h₂
  | call i k ih =>
    rw [call_bind, exec_call]
    constructor
    · rintro ⟨r, t', rfl, h⟩
      obtain ⟨t₁, t₂, a, rfl, h₁, h₂⟩ := (ih r).mp h
      exact ⟨⟨i, r⟩ :: t₁, t₂, a, rfl, exec_call.mpr ⟨r, t₁, rfl, h₁⟩, h₂⟩
    · rintro ⟨t₁, t₂, a, rfl, h₁, h₂⟩
      obtain ⟨r, t', rfl, h₁'⟩ := exec_call.mp h₁
      exact ⟨r, t' ++ t₂, rfl, (ih r).mpr ⟨t', t₂, a, rfl, h₁', h₂⟩⟩

/-- A partial execution of a sequence stops in the first program, or has finished it and stops in the second. -/
theorem steps_bind {p : Prog ι ρ α} {f : α → Prog ι ρ β} {t : List (Event ρ)} {q : Prog ι ρ β} :
    Steps (p >>= f) t q ↔
      (∃ p', Steps p t p' ∧ q = (p' >>= f)) ∨ ∃ t₁ t₂ a, t = t₁ ++ t₂ ∧ Exec p t₁ a ∧ Steps (f a) t₂ q := by
  induction p generalizing t with
  | ret a =>
    rw [ret_bind]
    constructor
    · intro h
      exact Or.inr ⟨[], t, a, rfl, exec_ret.mpr ⟨rfl, rfl⟩, h⟩
    · rintro (⟨p', hp, rfl⟩ | ⟨t₁, t₂, a', rfl, h₁, h₂⟩)
      · obtain ⟨rfl, rfl⟩ := steps_ret.mp hp
        exact .nil _
      · obtain ⟨rfl, rfl⟩ := exec_ret.mp h₁
        exact h₂
  | call i k ih =>
    rw [call_bind, steps_call]
    constructor
    · rintro (⟨rfl, rfl⟩ | ⟨r, t', rfl, h⟩)
      · exact Or.inl ⟨.call i k, .nil _, rfl⟩
      · rcases (ih r).mp h with ⟨p', hp, rfl⟩ | ⟨t₁, t₂, a, rfl, h₁, h₂⟩
        · exact Or.inl ⟨p', .cons i r hp, rfl⟩
        · exact Or.inr ⟨⟨i, r⟩ :: t₁, t₂, a, rfl, exec_call.mpr ⟨r, t₁, rfl, h₁⟩, h₂⟩
    · rintro (⟨p', hp, rfl⟩ | ⟨t₁, t₂, a, rfl, h₁, h₂⟩)
      · rcases steps_call.mp hp with ⟨rfl, rfl⟩ | ⟨r, t', rfl, hp'⟩
        · exact Or.inl ⟨rfl, rfl⟩
        · exact Or.inr ⟨r, t', rfl, (ih r).mpr (Or.inl ⟨p', hp', rfl⟩)⟩
      · obtain ⟨r, t', rfl, h₁'⟩ := exec_call.mp h₁
        exact Or.inr ⟨r, t' ++ t₂, rfl, (ih r).mpr (Or.inr ⟨t', t₂, a, rfl, h₁', h₂⟩)⟩

/-- Make calls one after the other, whatever the answers. -/
def performAll : List ι → Prog ι ρ Unit
  | [] => .ret ()
  | i :: is => .call i (fun _ => performAll is)

/-- A partial execution of calls in a row has made the first of them, and the others are left. -/
theorem steps_performAll {is : List ι} {t : List (Event ρ)} {q : Prog ι ρ Unit} (h : Steps (performAll is) t q) :
    ∃ rest, is = t.map (·.1) ++ rest ∧ q = performAll rest := by
  induction is generalizing t with
  | nil =>
    obtain ⟨rfl, rfl⟩ := steps_ret.mp h
    exact ⟨[], rfl, rfl⟩
  | cons i is ih =>
    rcases steps_call.mp h with ⟨rfl, rfl⟩ | ⟨r, t', rfl, h'⟩
    · exact ⟨i :: is, rfl, rfl⟩
    · obtain ⟨rest, his, hq⟩ := ih h'
      exact ⟨rest, congrArg (i :: ·) his, hq⟩

/-- Calls in a row that have all been made. -/
theorem exec_performAll {is : List ι} {t : List (Event ρ)} (h : Exec (performAll is : Prog ι ρ Unit) t ()) : t.map (·.1) = is := by
  obtain ⟨rest, his, hrest⟩ := steps_performAll h
  cases rest with
  | nil => rw [his, List.append_nil]
  | cons i rest => cases hrest

/-- Run a program on fixed answers: the trace and the result, if every call has an answer. -/
def runWith (answer : (i : ι) → Option (ρ i)) : Prog ι ρ α → Option (List (Event ρ) × α)
  | .ret a => some ([], a)
  | .call i k =>
    match answer i with
    | none => none
    | some r => ((k r).runWith answer).map fun out => (⟨i, r⟩ :: out.1, out.2)

/-- A run that computes is an execution. -/
theorem exec_of_runWith {answer : (i : ι) → Option (ρ i)} {p : Prog ι ρ α} {out : List (Event ρ) × α}
    (h : p.runWith answer = some out) : Exec p out.1 out.2 := by
  induction p generalizing out with
  | ret a =>
    cases h
    exact .nil _
  | call i k ih =>
    simp only [runWith] at h
    split at h
    · cases h
    · rename_i r _
      rw [Option.map_eq_some_iff] at h
      obtain ⟨out', hout, rfl⟩ := h
      exact .cons i r (ih r hout)

/-- A run that computes, with what a test says of its trace and result. -/
theorem exists_exec_of_runWith {answer : (i : ι) → Option (ρ i)} {p : Prog ι ρ α} {test : List (Event ρ) × α → Bool}
    (h : (p.runWith answer).any test = true) : ∃ t a, Exec p t a ∧ test (t, a) = true := by
  cases hp : p.runWith answer with
  | none =>
    rw [hp] at h
    cases h
  | some out =>
    rw [hp] at h
    exact ⟨out.1, out.2, exec_of_runWith hp, h⟩

/-- Run a program by itself against a server: the answer to a call and the state after it come from the state, the call and what
the environment says to the call. -/
def against {σ : Type} (serve : σ → (i : ι) → ρ i → ρ i × σ) (env : (i : ι) → ρ i) : Prog ι ρ α → σ → α × σ
  | .ret a, s => (a, s)
  | .call i k, s => (k (serve s i (env i)).1).against serve env (serve s i (env i)).2

theorem against_bind {σ : Type} (serve : σ → (i : ι) → ρ i → ρ i × σ) (env : (i : ι) → ρ i) (p : Prog ι ρ α)
    (f : α → Prog ι ρ β) (s : σ) :
    (p >>= f).against serve env s = (f (p.against serve env s).1).against serve env (p.against serve env s).2 := by
  induction p generalizing s with
  | ret a => rfl
  | call i k ih => exact ih _ _

end Prog

/-! ## Monitors -/

/-- A state that watches the calls of a program: which calls are allowed, and the state after an answer. -/
structure Monitor (ι : Type) (ρ : ι → Type) (σ : Type) where
  allow : σ → ι → Prop
  next : σ → (i : ι) → ρ i → σ

namespace Monitor

variable {ι : Type} {ρ : ι → Type} {σ : Type}

/-- The state of a monitor after a trace. -/
def after (M : Monitor ι ρ σ) (s : σ) (t : List (Event ρ)) : σ := t.foldl (fun s e => M.next s e.1 e.2) s

end Monitor

namespace Prog

variable {ι : Type} {ρ : ι → Type} {α β σ : Type}

/-- The weakest precondition of a program under a monitor: every call is allowed when it is made, whatever the answers, and the
postcondition holds of the state and the result when the program returns. -/
def wp (M : Monitor ι ρ σ) : Prog ι ρ α → σ → (σ → α → Prop) → Prop
  | .ret a, s, Q => Q s a
  | .call i k, s, Q => M.allow s i ∧ ∀ r, (k r).wp M (M.next s i r) Q

theorem wp_perform_bind (M : Monitor ι ρ σ) (i : ι) (f : ρ i → Prog ι ρ β) (s : σ) (Q : σ → β → Prop) :
    (perform i >>= f).wp M s Q ↔ M.allow s i ∧ ∀ r, (f r).wp M (M.next s i r) Q := Iff.rfl

/-- The weakest precondition of a sequence. -/
theorem wp_bind (M : Monitor ι ρ σ) (p : Prog ι ρ α) (f : α → Prog ι ρ β) (s : σ) (Q : σ → β → Prop) :
    (p >>= f).wp M s Q ↔ p.wp M s (fun s' a => (f a).wp M s' Q) := by
  induction p generalizing s with
  | ret a => exact Iff.rfl
  | call i k ih =>
    rw [call_bind]
    simp only [wp]
    exact and_congr_right fun _ => forall_congr' fun r => ih r _

/-- The weakest precondition is monotone in the postcondition. -/
theorem wp_mono {M : Monitor ι ρ σ} {p : Prog ι ρ α} {s : σ} {Q Q' : σ → α → Prop} (h : p.wp M s Q)
    (hQ : ∀ s a, Q s a → Q' s a) : p.wp M s Q' := by
  induction p generalizing s with
  | ret a => exact hQ s a h
  | call i k ih => exact ⟨h.1, fun r => ih r (h.2 r)⟩

/-- A monitor with the same states that allows more. -/
theorem wp_weaken {M M' : Monitor ι ρ σ} {p : Prog ι ρ α} {s : σ} {Q : σ → α → Prop} (h : p.wp M s Q)
    (hnext : M'.next = M.next) (hallow : ∀ s i, M.allow s i → M'.allow s i) : p.wp M' s Q := by
  induction p generalizing s with
  | ret a => exact h
  | call i k ih =>
    refine ⟨hallow s i h.1, fun r => ?_⟩
    rw [hnext]
    exact ih r (h.2 r)

/-- The weakest precondition of what is left after a partial execution. -/
theorem wp_steps {M : Monitor ι ρ σ} {p q : Prog ι ρ α} {t : List (Event ρ)} {s : σ} {Q : σ → α → Prop} (h : p.wp M s Q)
    (hs : Steps p t q) : q.wp M (M.after s t) Q := by
  induction hs generalizing s with
  | nil p => exact h
  | cons i r _ ih => exact ih (h.2 r)

/-- What a monitor's state says of the trace so far, when every allowed call keeps it. -/
theorem wp_steps_invariant {M : Monitor ι ρ σ} {I : σ → List (Event ρ) → Prop} {p q : Prog ι ρ α} {past t : List (Event ρ)}
    {s : σ} {Q : σ → α → Prop} (h : p.wp M s Q) (hI : I s past)
    (hnext : ∀ s past i r, I s past → M.allow s i → I (M.next s i r) (past ++ [⟨i, r⟩])) (hs : Steps p t q) :
    I (M.after s t) (past ++ t) := by
  induction hs generalizing s past with
  | nil p =>
    rw [List.append_nil]
    exact hI
  | @cons i r k t q _ ih =>
    have hlater := ih (h.2 r) (hnext s past i r hI h.1)
    rwa [List.append_assoc] at hlater

/-- Every call in a partial execution was allowed in the monitor's state when it was made. -/
theorem wp_allow {M : Monitor ι ρ σ} {p q : Prog ι ρ α} {t u : List (Event ρ)} {e : Event ρ} {s : σ}
    {Q : σ → α → Prop} (h : p.wp M s Q) (hs : Steps p (t ++ e :: u) q) : M.allow (M.after s t) e.1 := by
  induction t generalizing p s with
  | nil =>
    cases hs with
    | cons i r hs' => exact h.1
  | cons e' t ih =>
    cases hs with
    | cons i r hs' => exact ih (h.2 r) hs'

/-! ## Programs that keep to some calls -/

/-- The program makes only calls of `K` and returns only values of `R`, whatever the answers. -/
def Only (K : ι → Prop) (R : α → Prop) : Prog ι ρ α → Prop
  | .ret a => R a
  | .call i k => K i ∧ ∀ r, (k r).Only K R

theorem only_perform {K : ι → Prop} {R : β → Prop} {i : ι} {f : ρ i → Prog ι ρ β} :
    (perform i >>= f).Only K R ↔ K i ∧ ∀ r, (f r).Only K R := Iff.rfl

theorem only_bind_iff {K : ι → Prop} {R : β → Prop} {p : Prog ι ρ α} {f : α → Prog ι ρ β} :
    (p >>= f).Only K R ↔ p.Only K (fun a => (f a).Only K R) := by
  induction p with
  | ret a => exact Iff.rfl
  | call i k ih => exact and_congr_right fun _ => forall_congr' fun r => ih r

theorem only_mono {K K' : ι → Prop} {R R' : α → Prop} {p : Prog ι ρ α} (hp : p.Only K R) (hK : ∀ i, K i → K' i)
    (hR : ∀ a, R a → R' a) : p.Only K' R' := by
  induction p with
  | ret a => exact hR a hp
  | call i k ih => exact ⟨hK i hp.1, fun r => ih r (hp.2 r)⟩

theorem only_bind {K : ι → Prop} {R : α → Prop} {R' : β → Prop} {p : Prog ι ρ α} {f : α → Prog ι ρ β} (hp : p.Only K R)
    (hf : ∀ a, R a → (f a).Only K R') : (p >>= f).Only K R' :=
  only_bind_iff.mpr (only_mono hp (fun _ h => h) hf)

theorem only_performAll {K : ι → Prop} {is : List ι} (h : ∀ i ∈ is, K i) :
    (performAll is : Prog ι ρ Unit).Only K (fun _ => True) := by
  induction is with
  | nil => trivial
  | cons i is ih =>
    obtain ⟨hi, his⟩ := List.forall_mem_cons.mp h
    exact ⟨hi, fun _ => ih his⟩

/-- The calls of a partial execution of such a program, and what is left of it. -/
theorem only_steps {K : ι → Prop} {R : α → Prop} {p q : Prog ι ρ α} {t : List (Event ρ)} (hp : p.Only K R)
    (hs : Steps p t q) : (∀ e ∈ t, K e.1) ∧ q.Only K R := by
  induction hs with
  | nil p => exact ⟨fun e he => (by cases he), hp⟩
  | cons i r _ ih =>
    obtain ⟨ht, hq⟩ := ih (hp.2 r)
    exact ⟨List.forall_mem_cons.mpr ⟨hp.1, ht⟩, hq⟩

theorem only_and {K K' : ι → Prop} {R R' : α → Prop} {p : Prog ι ρ α} (hp : p.Only K R) (hp' : p.Only K' R') :
    p.Only (fun i => K i ∧ K' i) (fun a => R a ∧ R' a) := by
  induction p with
  | ret a => exact ⟨hp, hp'⟩
  | call i k ih => exact ⟨⟨hp.1, hp'.1⟩, fun r => ih r (hp.2 r) (hp'.2 r)⟩

/-- A program keeps to some calls exactly when no partial execution stops before another one. -/
theorem only_iff_steps {K : ι → Prop} {p : Prog ι ρ α} :
    p.Only K (fun _ => True) ↔ ∀ t i k, Steps p t (.call i k) → K i := by
  induction p with
  | ret a =>
    refine ⟨fun _ t i k h => ?_, fun _ => trivial⟩
    cases (steps_ret.mp h).2
  | call i k ih =>
    constructor
    · rintro ⟨hi, hk⟩ t j k' h
      rcases steps_call.mp h with ⟨-, he⟩ | ⟨r, t', -, h'⟩
      · cases he
        exact hi
      · exact (ih r).mp (hk r) t' j k' h'
    · intro h
      refine ⟨h [] i k (.nil _), fun r => (ih r).mpr fun t j k' h' => ?_⟩
      exact h (⟨i, r⟩ :: t) j k' (.cons i r h')

/-- The frame rule: a program that keeps to calls which a monitor allows in every state of `I`, and which stay in `I`, starts and
ends in `I`. -/
theorem wp_of_only {M : Monitor ι ρ σ} {K : ι → Prop} {R : α → Prop} {I : σ → Prop} {p : Prog ι ρ α} (hp : p.Only K R)
    (hI : ∀ s, I s → ∀ i, K i → M.allow s i ∧ ∀ r, I (M.next s i r)) {s : σ} (hs : I s) {Q : σ → α → Prop}
    (hQ : ∀ s a, I s → R a → Q s a) : p.wp M s Q := by
  induction p generalizing s with
  | ret a => exact hQ s a hs hp
  | call i k ih => exact ⟨(hI s hs i hp.1).1, fun r => ih r (hp.2 r) ((hI s hs i hp.1).2 r)⟩

end Prog

/-! ## The history as a monitor -/

/-- The monitor whose state is the trace so far. -/
def Monitor.history {ι : Type} {ρ : ι → Type} (allow : List (Event ρ) → ι → Prop) : Monitor ι ρ (List (Event ρ)) where
  allow := allow
  next := fun past i r => past ++ [⟨i, r⟩]

theorem Monitor.after_history {ι : Type} {ρ : ι → Type} (allow : List (Event ρ) → ι → Prop) (past t : List (Event ρ)) :
    (Monitor.history allow).after past t = past ++ t := by
  induction t generalizing past with
  | nil => exact (List.append_nil past).symm
  | cons e t ih =>
    show (Monitor.history allow).after (past ++ [e]) t = past ++ e :: t
    rw [ih, List.append_assoc]
    rfl

/-- A program that keeps to calls which a history monitor allows returns with its own execution at the end of the history. -/
theorem Prog.wp_history {ι : Type} {ρ : ι → Type} {α : Type} {allow : List (Event ρ) → ι → Prop} {K : ι → Prop}
    {R : α → Prop} {p : Prog ι ρ α} (hp : p.Only K R) (hK : ∀ past i, K i → allow past i) (past : List (Event ρ)) :
    p.wp (Monitor.history allow) past (fun past' a => ∃ t, past' = past ++ t ∧ Prog.Exec p t a) := by
  induction p generalizing past with
  | ret a => exact ⟨[], (List.append_nil past).symm, .nil _⟩
  | call i k ih =>
    refine ⟨hK past i hp.1, fun r => Prog.wp_mono (ih r (hp.2 r) _) ?_⟩
    rintro past' a ⟨t, rfl, ht⟩
    exact ⟨⟨i, r⟩ :: t, List.append_assoc .., .cons i r ht⟩

/-- After any history a program makes the calls it comes to, and returns with its execution at the end of the history. -/
theorem Prog.wp_history_steps {ι : Type} {ρ : ι → Type} {α : Type} (p : Prog ι ρ α) (past : List (Event ρ)) :
    p.wp (Monitor.history fun past' i => ∃ t k, past' = past ++ t ∧ Prog.Steps p t (.call i k)) past
      (fun past' a => ∃ t, past' = past ++ t ∧ Prog.Exec p t a) := by
  suffices h : ∀ (q : Prog ι ρ α) (t : List (Event ρ)), Prog.Steps p t q →
      q.wp (Monitor.history fun past' i => ∃ t k, past' = past ++ t ∧ Prog.Steps p t (.call i k)) (past ++ t)
        (fun past' a => ∃ t, past' = past ++ t ∧ Prog.Exec p t a) by
    have hp := h p [] (.nil p)
    rwa [List.append_nil] at hp
  intro q
  induction q with
  | ret a => exact fun t ht => ⟨t, rfl, ht⟩
  | call i k ih =>
    intro t ht
    refine ⟨⟨t, k, rfl, ht⟩, fun r => ?_⟩
    have hnext := ih r (t ++ [⟨i, r⟩]) (ht.trans (.cons i r (.nil _)))
    rwa [← List.append_assoc] at hnext

/-- A history monitor that allows more. -/
theorem Prog.wp_history_mono {ι : Type} {ρ : ι → Type} {α : Type} {allow allow' : List (Event ρ) → ι → Prop} {p : Prog ι ρ α}
    {past : List (Event ρ)} {Q : List (Event ρ) → α → Prop} (h : p.wp (Monitor.history allow) past Q)
    (hallow : ∀ past i, allow past i → allow' past i) : p.wp (Monitor.history allow') past Q := by
  induction p generalizing past with
  | ret a => exact h
  | call i k ih => exact ⟨hallow past i h.1, fun r => ih r (h.2 r)⟩

/-- What a program keeps to, and what a history monitor allows it, together. -/
theorem Prog.wp_history_and {ι : Type} {ρ : ι → Type} {α : Type} {allow : List (Event ρ) → ι → Prop} {K : ι → Prop}
    {R : α → Prop} {p : Prog ι ρ α} {past : List (Event ρ)} {Q : List (Event ρ) → α → Prop} (hp : p.Only K R)
    (h : p.wp (Monitor.history allow) past Q) : p.wp (Monitor.history fun past i => K i ∧ allow past i) past Q := by
  induction p generalizing past with
  | ret a => exact h
  | call i k ih => exact ⟨⟨hp.1, h.1⟩, fun r => ih r (hp.2 r) (h.2 r)⟩

/-- Every call of a partial execution was allowed after the calls before it. -/
theorem Prog.history_allow {ι : Type} {ρ : ι → Type} {α : Type} {allow : List (Event ρ) → ι → Prop} {p q : Prog ι ρ α}
    {t u : List (Event ρ)} {e : Event ρ} {Q : List (Event ρ) → α → Prop} (h : p.wp (Monitor.history allow) [] Q)
    (hs : Prog.Steps p (t ++ e :: u) q) : allow t e.1 := by
  have ha := Prog.wp_allow h hs
  rwa [Monitor.after_history] at ha

end Interleave
