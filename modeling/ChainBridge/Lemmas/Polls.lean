import ChainBridge.Consumer

/-!
# The polls for a status

The confirmation poll asks for the status of one signature until an answer decides or its attempts are used up. `PollEnd` reads its
executions as sequences of answers.
-/

namespace ChainBridge

open Interleave

/-- An answer decides when its first status is present, and has an error that is not null, or none and a slot. -/
inductive Decides : Except String (List (Option Json)) → ConfirmOutcome → Prop where
  | errored {status e : Json} {rest : List (Option Json)} : status.get? "err" = some e → e ≠ .null →
      Decides (.ok (some status :: rest)) .errored
  | confirmed {status : Json} {slot : UInt64} {rest : List (Option Json)} : (∀ e, status.get? "err" = some e → e = .null) →
      status.get? "slot" = some (.posInt slot) → Decides (.ok (some status :: rest)) (.confirmed slot.toNat)

/-- An answer that decides nothing. -/
def Indecisive (answer : Except String (List (Option Json))) : Prop := ∀ verdict, ¬Decides answer verdict

/-- Polls for a signature, with their answers. -/
def pollsOf (sig : Signature) (answers : List (Except String (List (Option Json)))) : List CallEvent :=
  answers.map fun answer => ⟨.getSignatureStatuses sig, answer⟩

/-- How at most `n` polls end: with the first answer that decides, or with all of them and nothing decided. -/
inductive PollEnd (sig : Signature) (n : Nat) : List CallEvent → ConfirmOutcome → Prop where
  | decided (before : List (Except String (List (Option Json)))) {answer : Except String (List (Option Json))}
      {verdict : ConfirmOutcome} : before.length < n → (∀ a ∈ before, Indecisive a) → Decides answer verdict →
      PollEnd sig n (pollsOf sig (before ++ [answer])) verdict
  | exhausted (answers : List (Except String (List (Option Json)))) : answers.length = n → (∀ a ∈ answers, Indecisive a) →
      PollEnd sig n (pollsOf sig answers) .pending

namespace PollsAux

variable {sig : Signature} {t : List CallEvent}

theorem isNull_iff {e : Json} : e.isNull = true ↔ e = .null := by
  cases e <;> simp [Json.isNull]

theorem asU64_eq_some_iff {v : Json} {n : Nat} : v.asU64 = some n ↔ ∃ slot : UInt64, v = .posInt slot ∧ slot.toNat = n := by
  cases v <;> simp [Json.asU64]

/-- Whether a status has an error. -/
theorem errored_iff {status : Json} :
    ((status.get? "err").map fun e => !e.isNull).getD false = true ↔ ∃ e, status.get? "err" = some e ∧ e ≠ .null := by
  cases status.get? "err" with
  | none => simp
  | some e => simp [← isNull_iff]

/-- The slot of a status. -/
theorem slot_iff {status : Json} {n : Nat} :
    (status.get? "slot").bind Json.asU64 = some n ↔ ∃ slot : UInt64, status.get? "slot" = some (.posInt slot) ∧ slot.toNat = n := by
  cases status.get? "slot" with
  | none => simp
  | some v => simp [asU64_eq_some_iff]

theorem pollVerdict_eq_some_iff {answer : Except String (List (Option Json))} {verdict : ConfirmOutcome} :
    pollVerdict answer = some verdict ↔ Decides answer verdict := by
  constructor
  · intro h
    rcases answer with e | _ | ⟨_ | status, rest⟩
    · cases h
    · cases h
    · cases h
    · simp only [pollVerdict] at h
      split at h
      · rename_i herr
        obtain ⟨e, he, hne⟩ := errored_iff.mp herr
        cases h
        exact .errored he hne
      · rename_i herr
        obtain ⟨n, hn, rfl⟩ := Option.map_eq_some_iff.mp h
        obtain ⟨slot, hslot, rfl⟩ := slot_iff.mp hn
        refine .confirmed (fun e he => ?_) hslot
        exact Classical.byContradiction fun hne => herr (errored_iff.mpr ⟨e, he, hne⟩)
  · intro h
    cases h with
    | errored he hne => simp only [pollVerdict, if_pos (errored_iff.mpr ⟨_, he, hne⟩)]
    | confirmed herr hslot =>
      have hno : ¬((Json.get? _ "err").map fun e => !e.isNull).getD false = true := fun h => by
        obtain ⟨e, he, hne⟩ := errored_iff.mp h
        exact hne (herr e he)
      rw [pollVerdict, if_neg hno, slot_iff.mpr ⟨_, hslot, rfl⟩]
      rfl

theorem indecisive_iff {answer : Except String (List (Option Json))} : Indecisive answer ↔ pollVerdict answer = none := by
  rw [Option.eq_none_iff_forall_ne_some]
  exact forall_congr' fun verdict => not_congr pollVerdict_eq_some_iff.symm

/-- The bounded polling, execution by execution. -/
theorem exec_resolveConfirmationBounded_iff {n : Nat} {verdict : ConfirmOutcome} :
    Prog.Exec (resolveConfirmationBounded sig n) t verdict ↔ PollEnd sig n t verdict := by
  constructor
  · intro h
    induction n generalizing t with
    | zero =>
      obtain ⟨rfl, rfl⟩ := Prog.exec_ret.mp h
      exact .exhausted [] rfl fun a ha => (by cases ha)
    | succ n ih =>
      obtain ⟨answer, t', rfl, h'⟩ := Prog.exec_perform.mp h
      cases hverdict : pollVerdict answer with
      | some verdict' =>
        rw [hverdict] at h'
        obtain ⟨rfl, rfl⟩ := Prog.exec_ret.mp h'
        exact .decided [] (Nat.succ_pos n) (fun a ha => by cases ha) (pollVerdict_eq_some_iff.mp hverdict)
      | none =>
        rw [hverdict] at h'
        have hfirst := indecisive_iff.mpr hverdict
        cases ih h' with
        | decided before hlt hbefore hlast =>
          exact .decided (answer :: before) (Nat.succ_lt_succ hlt) (List.forall_mem_cons.mpr ⟨hfirst, hbefore⟩) hlast
        | exhausted answers hlength hall =>
          exact .exhausted (answer :: answers) (congrArg Nat.succ hlength) (List.forall_mem_cons.mpr ⟨hfirst, hall⟩)
  · intro h
    cases h with
    | decided before hlt hbefore hlast =>
      induction before generalizing n with
      | nil =>
        obtain ⟨m, rfl⟩ := Nat.exists_eq_succ_of_ne_zero (Nat.ne_of_gt hlt)
        refine Prog.exec_perform.mpr ⟨_, [], rfl, ?_⟩
        rw [pollVerdict_eq_some_iff.mpr hlast]
        exact .nil _
      | cons a before ih =>
        obtain ⟨m, rfl⟩ := Nat.exists_eq_succ_of_ne_zero (Nat.ne_of_gt (Nat.lt_of_le_of_lt (Nat.zero_le _) hlt))
        obtain ⟨hfirst, hrest⟩ := List.forall_mem_cons.mp hbefore
        refine Prog.exec_perform.mpr ⟨a, _, rfl, ?_⟩
        rw [indecisive_iff.mp hfirst]
        exact ih (Nat.lt_of_succ_lt_succ hlt) hrest
    | exhausted answers hlength hall =>
      subst hlength
      induction answers with
      | nil => exact .nil _
      | cons a answers ih =>
        obtain ⟨hfirst, hrest⟩ := List.forall_mem_cons.mp hall
        refine Prog.exec_perform.mpr ⟨a, _, rfl, ?_⟩
        rw [indecisive_iff.mp hfirst]
        exact ih hrest

/-- Whatever the answers, the polling ends with some of them. -/
theorem exists_pollEnd (sig : Signature) (answers : List (Except String (List (Option Json)))) :
    ∃ t verdict, t <+: pollsOf sig answers ∧ PollEnd sig answers.length t verdict := by
  induction answers with
  | nil => exact ⟨[], .pending, List.prefix_refl _, .exhausted [] rfl fun a ha => (by cases ha)⟩
  | cons answer answers ih =>
    cases hverdict : pollVerdict answer with
    | some verdict =>
      refine ⟨pollsOf sig [answer], verdict, ⟨pollsOf sig answers, rfl⟩, ?_⟩
      exact .decided [] (Nat.succ_pos _) (fun a ha => by cases ha) (pollVerdict_eq_some_iff.mp hverdict)
    | none =>
      have hfirst := indecisive_iff.mpr hverdict
      obtain ⟨t, verdict, hprefix, hend⟩ := ih
      refine ⟨⟨.getSignatureStatuses sig, answer⟩ :: t, verdict, List.prefix_cons_inj _ |>.mpr hprefix, ?_⟩
      cases hend with
      | decided before hlt hbefore hlast =>
        exact .decided (answer :: before) (Nat.succ_lt_succ hlt) (List.forall_mem_cons.mpr ⟨hfirst, hbefore⟩) hlast
      | exhausted answers' hlength hall =>
        exact .exhausted (answer :: answers') (congrArg Nat.succ hlength) (List.forall_mem_cons.mpr ⟨hfirst, hall⟩)

/-- Every call is a poll for the signature. -/
theorem calls_of_pollEnd {n : Nat} {verdict : ConfirmOutcome} (h : PollEnd sig n t verdict) :
    ∀ e ∈ t, e.1 = .getSignatureStatuses sig := by
  have hpolls : ∀ answers, ∀ e ∈ pollsOf sig answers, e.1 = .getSignatureStatuses sig := by
    intro answers e he
    obtain ⟨answer, -, rfl⟩ := List.mem_map.mp he
    rfl
  cases h with
  | decided before => exact hpolls _
  | exhausted answers => exact hpolls answers

end PollsAux

end ChainBridge
