import ChainBridge.Lib.Prog

/-!
# Calls that are themselves programs

A call of a program may be served by another program, over calls of its own. `Prog.handle` replaces every call by the program
that serves it: the calls of the result are the calls of the servers, and between two of them any other program may run. A trace
of the result is a trace of the original program with each of its calls opened up into an execution of its server.
-/

namespace Interleave

namespace Prog

variable {ι κ : Type} {ρ : ι → Type} {τ : κ → Type} {α σ : Type}

/-- Run a program with each call served by a program. -/
def handle (server : (i : ι) → Prog κ τ (ρ i)) : Prog ι ρ α → Prog κ τ α
  | .ret a => .ret a
  | .call i k => server i >>= fun r => (k r).handle server

/-- The second trace is the first one with each call opened up into an execution of its server. -/
inductive Serves (server : (i : ι) → Prog κ τ (ρ i)) : List (Event ρ) → List (Event τ) → Prop where
  | nil : Serves server [] []
  | cons {i : ι} {r : ρ i} {t : List (Event τ)} {us : List (Event ρ)} {ts : List (Event τ)} :
      Exec (server i) t r → Serves server us ts → Serves server (⟨i, r⟩ :: us) (t ++ ts)

/-- The part of the trace that serves one call. -/
theorem Serves.split {server : (i : ι) → Prog κ τ (ρ i)} {us₁ us₂ : List (Event ρ)} {i : ι} {r : ρ i} {ts : List (Event τ)}
    (h : Serves server (us₁ ++ ⟨i, r⟩ :: us₂) ts) :
    ∃ t₁ t t₂, ts = t₁ ++ (t ++ t₂) ∧ Serves server us₁ t₁ ∧ Exec (server i) t r ∧ Serves server us₂ t₂ := by
  induction us₁ generalizing ts with
  | nil =>
    cases h with
    | cons he hs => exact ⟨[], _, _, rfl, .nil, he, hs⟩
  | cons u us₁ ih =>
    cases h with
    | @cons _ _ t₀ _ _ he hs =>
      obtain ⟨t₁, t, t₂, rfl, h₁, h, h₂⟩ := ih hs
      exact ⟨t₀ ++ t₁, t, t₂, (List.append_assoc ..).symm, .cons he h₁, h, h₂⟩

/-- What serves two parts of a trace serves the whole. -/
theorem Serves.append_iff {server : (i : ι) → Prog κ τ (ρ i)} {us us' : List (Event ρ)} {ts : List (Event τ)} :
    Serves server (us ++ us') ts ↔ ∃ t₁ t₂, ts = t₁ ++ t₂ ∧ Serves server us t₁ ∧ Serves server us' t₂ := by
  induction us generalizing ts with
  | nil =>
    constructor
    · intro h
      exact ⟨[], ts, rfl, .nil, h⟩
    · rintro ⟨t₁, t₂, rfl, h₁, h₂⟩
      cases h₁
      exact h₂
  | cons u us ih =>
    constructor
    · intro h
      cases h with
      | @cons _ _ t₀ _ _ he hs =>
        obtain ⟨t₁, t₂, rfl, h₁, h₂⟩ := ih.mp hs
        exact ⟨t₀ ++ t₁, t₂, (List.append_assoc ..).symm, .cons he h₁, h₂⟩
    · rintro ⟨t₁, t₂, rfl, h₁, h₂⟩
      cases h₁ with
      | cons he hs =>
        rw [List.append_assoc]
        exact .cons he (ih.mpr ⟨_, _, rfl, hs, h₂⟩)

/-- A complete execution of the result is one of the original program, each call served. -/
theorem exec_handle {server : (i : ι) → Prog κ τ (ρ i)} {p : Prog ι ρ α} {ts : List (Event τ)} {a : α} :
    Exec (p.handle server) ts a ↔ ∃ us, Exec p us a ∧ Serves server us ts := by
  induction p generalizing ts with
  | ret b =>
    constructor
    · intro h
      obtain ⟨rfl, rfl⟩ := exec_ret.mp h
      exact ⟨[], exec_ret.mpr ⟨rfl, rfl⟩, .nil⟩
    · rintro ⟨us, h, hs⟩
      obtain ⟨rfl, rfl⟩ := exec_ret.mp h
      cases hs
      exact exec_ret.mpr ⟨rfl, rfl⟩
  | call i k ih =>
    constructor
    · intro h
      obtain ⟨t₁, t₂, r, rfl, h₁, h₂⟩ := exec_bind.mp h
      obtain ⟨us, hus, hs⟩ := (ih r).mp h₂
      exact ⟨⟨i, r⟩ :: us, exec_call.mpr ⟨r, us, rfl, hus⟩, .cons h₁ hs⟩
    · rintro ⟨us, h, hs⟩
      obtain ⟨r, us', rfl, h'⟩ := exec_call.mp h
      cases hs with
      | cons he hs => exact exec_bind.mpr ⟨_, _, r, rfl, he, (ih r).mpr ⟨us', h', hs⟩⟩

/-- When the result comes to a call, the original program has come to a call whose server makes it. -/
theorem steps_handle {server : (i : ι) → Prog κ τ (ρ i)} {p : Prog ι ρ α} {ts : List (Event τ)} {j : κ} {k : τ j → Prog κ τ α}
    (h : Steps (p.handle server) ts (.call j k)) : ∃ us i k' ts₁ ts₂ k'', Steps p us (.call i k') ∧ ts = ts₁ ++ ts₂ ∧
      Serves server us ts₁ ∧ Steps (server i) ts₂ (.call j k'') := by
  induction p generalizing ts with
  | ret a => cases (steps_ret.mp h).2
  | call i k₀ ih =>
    have later : ∀ t₁ t₂ r, Exec (server i) t₁ r → Steps ((k₀ r).handle server) t₂ (.call j k) → ts = t₁ ++ t₂ →
        ∃ us i' k' ts₁ ts₂ k'', Steps (.call i k₀) us (.call i' k') ∧ ts = ts₁ ++ ts₂ ∧ Serves server us ts₁ ∧
          Steps (server i') ts₂ (.call j k'') := by
      rintro t₁ t₂ r h₁ h₂ rfl
      obtain ⟨us, i', k', ts₁, ts₂, k'', hp, rfl, hs, hi⟩ := ih r h₂
      exact ⟨⟨i, r⟩ :: us, i', k', t₁ ++ ts₁, ts₂, k'', .cons i r hp, (List.append_assoc ..).symm, .cons h₁ hs, hi⟩
    rcases steps_bind.mp h with ⟨p', hp', he⟩ | ⟨t₁, t₂, r, hts, h₁, h₂⟩
    · cases p' with
      | ret r =>
        rw [ret_bind] at he
        exact later ts [] r hp' (he ▸ .nil _) (List.append_nil ts).symm
      | call j' k'' =>
        cases he
        exact ⟨[], i, k₀, [], ts, k'', .nil _, rfl, .nil, hp'⟩
    · exact later t₁ t₂ r h₁ h₂ hts

/-- If every server keeps to what a monitor allows, whatever its state, so does the result. -/
theorem wp_handle {M : Monitor κ τ σ} {server : (i : ι) → Prog κ τ (ρ i)}
    (hserver : ∀ i s, (server i).wp M s (fun _ _ => True)) (p : Prog ι ρ α) (s : σ) :
    (p.handle server).wp M s (fun _ _ => True) := by
  induction p generalizing s with
  | ret a => trivial
  | call i k ih => exact (wp_bind ..).mpr (wp_mono (hserver i s) fun s' r _ => ih r s')

end Prog

end Interleave
